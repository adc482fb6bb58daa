import Mathlib.Data.List.TakeWhile
import LibZmq.YPipe.Basic
import LibZmq.Conflate.Basic

/-!
# The message queues of a pipe

`pipe_t` sees its two queues through `ypipe_base_t`, which is either a `ypipe_t`
or a `ypipe_conflate_t` (`pipe.cpp`, `ypipe_base.hpp`). An ordinary queue
carries the proof that its pointers are in order.

The lemmas describe the operations by the segments `readable`, `ready` and
`unfinished`. Writing and flushing differ between the two kinds; the others do
not.
-/

namespace LibZmq

open LibZmq.Core List

/-- `pipe_t::upipe_t`. -/
inductive UPipe where
  | normal (p : YPipe Msg) (ordered : p.Ordered)
  | conflate (p : YPipeConflate)

namespace UPipe

/-- A new queue of the kind the `conflate` option asks for. -/
def new (conflate : Bool) : UPipe :=
  if conflate then .conflate .new else .normal .new YPipe.ordered_new

def write : UPipe → Msg → Bool → UPipe
  | .normal p h, m, incomplete => .normal (p.write m incomplete) (h.write m incomplete)
  | .conflate p, m, incomplete => .conflate (p.write m incomplete)

def unwrite : UPipe → Option Msg × UPipe
  | .normal p h => (p.unwrite.1, .normal p.unwrite.2 h.unwrite)
  | .conflate p => (p.unwrite.1, .conflate p.unwrite.2)

def flush : UPipe → Bool × UPipe
  | .normal p h => (p.flush.1, .normal p.flush.2 h.flush)
  | .conflate p => (p.flush.1, .conflate p.flush.2)

def checkRead : UPipe → Bool × UPipe
  | .normal p h => (p.checkRead.1, .normal p.checkRead.2 h.checkRead)
  | .conflate p => (p.checkRead.1, .conflate p.checkRead.2)

def read : UPipe → Option Msg × UPipe
  | .normal p h => (p.read.1, .normal p.read.2 h.read)
  | .conflate p => (p.read.1, .conflate p.read.2)

/-- `probe`. The ordinary queue asserts that it is not empty; `none` when this
fails. -/
def probe (u : UPipe) (fn : Msg → Bool) : Option (Bool × UPipe) :=
  match u with
  | .normal p h =>
      if p.checkRead.1 then
        (p.checkRead.2.queue.values.head?).map fun m =>
          (fn m, .normal p.checkRead.2 h.checkRead)
      else none
  | .conflate p => some (p.probe fn, .conflate p)

/-- Number of stored messages, a bound for the loops below. -/
def size : UPipe → Nat
  | .normal p _ => p.queue.values.length
  | .conflate _ => 1

/-- `while (read (&msg)) ...`. -/
def drain (u : UPipe) : List Msg × UPipe := collect read (u.size + 1) u

/-- `while (unwrite (&msg)) ...`. -/
def unwriteAll (u : UPipe) : List Msg × UPipe := collect unwrite (u.size + 1) u

/-- Read on until a message that is not a credential. -/
def readSkipping (u : UPipe) : Option Msg × UPipe := seek read Msg.isCredential (u.size + 1) u

/-! ## Segments -/

def isNormal : UPipe → Bool
  | .normal _ _ => true
  | .conflate _ => false

def readable : UPipe → List Msg
  | .normal p _ => p.readable
  | .conflate p => p.dbuffer.content.toList

def ready : UPipe → List Msg
  | .normal p _ => p.ready
  | .conflate _ => []

def unfinished : UPipe → List Msg
  | .normal p _ => p.unfinished
  | .conflate _ => []

/-- Flushing to this queue asks for a wake-up. -/
def asleep : UPipe → Bool
  | .normal p _ => p.asleep
  | .conflate _ => true

/-- All complete messages the reader has not taken, flushed or not. -/
def complete (u : UPipe) : List Msg := u.readable ++ u.ready

@[simp] theorem isNormal_new (b : Bool) : (new b).isNormal = !b := by cases b <;> rfl
@[simp] theorem readable_new (b : Bool) : (new b).readable = [] := by cases b <;> rfl
@[simp] theorem ready_new (b : Bool) : (new b).ready = [] := by cases b <;> rfl
@[simp] theorem unfinished_new (b : Bool) : (new b).unfinished = [] := by cases b <;> rfl

variable {u : UPipe} {m : Msg}

theorem readable_of_asleep (hn : u.isNormal = true) (h : u.asleep = true) : u.readable = [] := by
  cases u with
  | normal p hord => exact YPipe.readable_of_asleep hord h
  | conflate => cases hn

/-! ## Operations of the reader -/

attribute [local simp] checkRead asleep read

theorem checkRead_spec (u : UPipe) :
    u.checkRead.1 = !u.readable.isEmpty ∧ u.checkRead.2.isNormal = u.isNormal ∧
      u.checkRead.2.readable = u.readable ∧ u.checkRead.2.ready = u.ready ∧
      u.checkRead.2.unfinished = u.unfinished ∧
      u.checkRead.2.asleep = (u.asleep || u.readable.isEmpty) := by
  cases u with
  | normal p h =>
    obtain ⟨h1, h2, h3⟩ := YPipe.checkRead_segments p
    refine ⟨YPipe.checkRead_eq h, rfl, h1, h2, h3, ?_⟩
    have hasleep : p.checkRead.2.asleep = p.readable.isEmpty := YPipe.asleep_checkRead h
    cases ha : p.asleep with
    | false => simpa [readable, ha] using hasleep
    | true =>
      have := YPipe.readable_of_asleep h ha
      simpa [ha, this] using hasleep
  | conflate p =>
    have hbuf := p.checkRead_dbuffer
    refine ⟨?_, rfl, ?_, rfl, rfl, by simp⟩
    · rw [show (conflate p).checkRead.1 = p.checkRead.1 from rfl, p.checkRead_fst]
      cases h : p.dbuffer.content <;> simp [readable, h]
    · simp [readable, hbuf]

theorem read_spec (u : UPipe) : u.read.1 = u.readable.head? ∧ u.read.2.isNormal = u.isNormal ∧
      u.read.2.readable = u.readable.tail ∧ u.read.2.ready = u.ready ∧
      u.read.2.unfinished = u.unfinished ∧
      u.read.2.asleep = (u.asleep || u.readable.isEmpty) := by
  cases u with
  | normal p h =>
    obtain ⟨h1, h2, h3, h4, h5⟩ := YPipe.read_segments h
    refine ⟨h1, rfl, h2, h3, h4, ?_⟩
    cases ha : p.asleep with
    | false => simpa [readable, ha] using h5
    | true =>
      have := YPipe.readable_of_asleep h ha
      simpa [ha, this] using h5
  | conflate p =>
    obtain ⟨h1, h2⟩ := p.read_content
    refine ⟨?_, rfl, ?_, rfl, rfl, by simp⟩
    · rw [show (conflate p).read.1 = p.read.1 from rfl, h1]
      cases h : p.dbuffer.content <;> simp [readable, h]
    · simp only [readable, read, h2]
      cases h : p.dbuffer.content <;> simp

/-- Probing a queue that is not empty looks at its first message. -/
theorem probe_spec (u : UPipe) (h : u.readable = m :: l)
    (fn : Msg → Bool) : u.probe fn = some (fn m, u.checkRead.2) ∨
      (u.isNormal = false ∧ u.probe fn = some (fn m, u)) := by
  cases u with
  | normal p hord =>
    left
    have hok : p.checkRead.1 = true := by
      rw [YPipe.checkRead_eq hord, show p.readable = m :: l from h]
      rfl
    have hhead : p.queue.values.head? = some m := by
      rw [← YPipe.segments_eq hord, show p.readable = m :: l from h]
      rfl
    simp [probe, hok, YPipe.checkRead_queue, hhead]
  | conflate p =>
    right
    simp only [readable] at h
    have hc : p.dbuffer.content = some m := by
      cases hcont : p.dbuffer.content <;> simp_all
    simp only [DBuffer.content] at hc
    split at hc
    · cases hc
      exact ⟨rfl, rfl⟩
    · cases hc

theorem isView_read : IsView read (fun _ => True) readable where
  ok _ _ := trivial
  head u _ := u.read_spec.1
  tail u _ := u.read_spec.2.2.1

theorem length_readable_le (u : UPipe) : u.readable.length ≤ u.size := by
  cases u with
  | normal p h => exact YPipe.length_readable_le h
  | conflate p =>
    simp only [readable, size]
    cases p.dbuffer.content <;> simp

/-! ## Operations of the writer -/

theorem unwrite_spec (u : UPipe) :
    u.unwrite.1 = u.unfinished.getLast? ∧ u.unwrite.2.isNormal = u.isNormal ∧
      u.unwrite.2.readable = u.readable ∧ u.unwrite.2.ready = u.ready ∧
      u.unwrite.2.unfinished = u.unfinished.dropLast ∧ u.unwrite.2.asleep = u.asleep := by
  cases u with
  | normal p h =>
    obtain ⟨h1, h2, h3, h4, h5⟩ := YPipe.unwrite_segments h
    exact ⟨h1, rfl, h2, h3, h4, h5⟩
  | conflate => exact ⟨rfl, rfl, rfl, rfl, rfl, rfl⟩

theorem isView_unwrite : IsView unwrite (fun _ => True) (fun u => u.unfinished.reverse) where
  ok _ _ := trivial
  head u _ := by rw [u.unwrite_spec.1, head?_reverse]
  tail u _ := by rw [u.unwrite_spec.2.2.2.2.1, tail_reverse]

theorem length_unfinished_le (u : UPipe) : u.unfinished.length ≤ u.size := by
  cases u with
  | normal p h =>
    simp only [unfinished, size]
    rw [← YPipe.segments_eq h]
    simp only [length_append]
    omega
  | conflate => simp [unfinished]

theorem isNormal_write (u : UPipe) (m : Msg) (b : Bool) : (u.write m b).isNormal = u.isNormal := by
  cases u <;> rfl

theorem asleep_write (u : UPipe) (m : Msg) (b : Bool) : (u.write m b).asleep = u.asleep := by
  cases u <;> rfl

/-- What is unfinished after a write: nothing, or one part more. -/
theorem unfinished_write (u : UPipe) (m : Msg) (incomplete : Bool) :
    (u.write m incomplete).unfinished =
      if u.isNormal && incomplete then u.unfinished ++ [m] else [] := by
  cases u with
  | normal p h =>
    cases incomplete with
    | false => exact YPipe.unfinished_write_complete h m
    | true => exact YPipe.unfinished_write_incomplete h m
  | conflate => rfl

theorem readable_write (hn : u.isNormal = true) (m : Msg) (incomplete : Bool) :
    (u.write m incomplete).readable = u.readable := by
  cases u with
  | normal p h => exact YPipe.readable_write h m incomplete
  | conflate => cases hn

theorem ready_write (hn : u.isNormal = true) (m : Msg) (incomplete : Bool) :
    (u.write m incomplete).ready =
      if incomplete then u.ready else u.ready ++ u.unfinished ++ [m] := by
  cases u with
  | normal p h =>
    cases incomplete with
    | false => exact YPipe.ready_write_complete h m
    | true => exact YPipe.ready_write_incomplete h m
  | conflate => cases hn

theorem flush_spec (hn : u.isNormal = true) :
    u.flush.1 = (u.ready.isEmpty || !u.asleep) ∧ u.flush.2.isNormal = true ∧
      u.flush.2.readable = u.readable ++ u.ready ∧ u.flush.2.ready = [] ∧
      u.flush.2.unfinished = u.unfinished ∧
      u.flush.2.asleep = (u.asleep && u.ready.isEmpty) := by
  cases u with
  | normal p h =>
    obtain ⟨h1, h2, h3⟩ := YPipe.flush_segments h
    exact ⟨YPipe.flush_fst h, rfl, h1, h2, h3, YPipe.asleep_flush h⟩
  | conflate => cases hn

theorem isNormal_flush (u : UPipe) : u.flush.2.isNormal = u.isNormal := by cases u <;> rfl

theorem unfinished_flush (u : UPipe) : u.flush.2.unfinished = u.unfinished := by
  cases u with
  | normal p h => exact (YPipe.flush_segments h).2.2
  | conflate => rfl

/-! ## Loops -/

/-- A reader that takes the messages `l`, in order, and leaves the rest alone. -/
structure Consumes (u : UPipe) (l : List Msg) (u' : UPipe) : Prop where
  isNormal : u'.isNormal = u.isNormal
  readable : u.readable = l ++ u'.readable
  ready : u'.ready = u.ready
  unfinished : u'.unfinished = u.unfinished

theorem Consumes.trans (h : Consumes u l v) (h' : Consumes v l' w) : Consumes u (l ++ l') w where
  isNormal := h'.isNormal.trans h.isNormal
  readable := by rw [h.readable, h'.readable, append_assoc]
  ready := h'.ready.trans h.ready
  unfinished := h'.unfinished.trans h.unfinished

theorem checkRead_consumes (u : UPipe) : Consumes u [] u.checkRead.2 := by
  obtain ⟨-, h1, h2, h3, h4, -⟩ := u.checkRead_spec
  exact ⟨h1, h2.symm, h3, h4⟩

theorem probe_consumes (h : u.readable = m :: l)
    (fn : Msg → Bool) : ∃ v, u.probe fn = some (fn m, v) ∧ Consumes u [] v := by
  rcases probe_spec u h fn with e | ⟨-, e⟩
  · exact ⟨_, e, u.checkRead_consumes⟩
  · exact ⟨u, e, rfl, rfl, rfl, rfl⟩

theorem read_consumes (h : u.readable = m :: l) : u.read.1 = some m ∧ Consumes u [m] u.read.2 := by
  obtain ⟨h1, h2, h3, h4, h5, -⟩ := u.read_spec
  rw [h] at h1 h3
  exact ⟨h1, h2, by rw [h, h3]; rfl, h4, h5⟩

theorem drain_consumes (u : UPipe) : u.drain.1 = u.readable ∧ Consumes u u.readable u.drain.2 := by
  have hle := u.length_readable_le
  obtain ⟨h1, -, h3⟩ := isView_read.collect_eq (u.size + 1) (s := u) trivial (by omega)
  have hkeep := isView_read.collect_preserves
    (P := fun v => v.isNormal = u.isNormal ∧ v.ready = u.ready ∧ v.unfinished = u.unfinished)
    (fun v _ ⟨a, b, c⟩ => ⟨v.read_spec.2.1.trans a, v.read_spec.2.2.2.1.trans b,
      v.read_spec.2.2.2.2.1.trans c⟩)
    (u.size + 1) trivial ⟨rfl, rfl, rfl⟩
  refine ⟨h1, hkeep.1, ?_, hkeep.2.1, hkeep.2.2⟩
  rw [drain, h3, append_nil]

theorem unwriteAll_spec (u : UPipe) :
    u.unwriteAll.1 = u.unfinished.reverse ∧ u.unwriteAll.2.isNormal = u.isNormal ∧
      u.unwriteAll.2.readable = u.readable ∧ u.unwriteAll.2.ready = u.ready ∧
      u.unwriteAll.2.unfinished = [] ∧ u.unwriteAll.2.asleep = u.asleep := by
  have hle := u.length_unfinished_le
  obtain ⟨h1, -, h3⟩ := isView_unwrite.collect_eq (u.size + 1) (s := u) trivial
    (by rw [length_reverse]; omega)
  have hkeep := isView_unwrite.collect_preserves
    (P := fun v => v.isNormal = u.isNormal ∧ v.readable = u.readable ∧ v.ready = u.ready ∧
      v.asleep = u.asleep)
    (fun v _ ⟨a, b, c, d⟩ => ⟨v.unwrite_spec.2.1.trans a, v.unwrite_spec.2.2.1.trans b,
      v.unwrite_spec.2.2.2.1.trans c, v.unwrite_spec.2.2.2.2.2.trans d⟩)
    (u.size + 1) trivial ⟨rfl, rfl, rfl, rfl⟩
  exact ⟨h1, hkeep.1, hkeep.2.1, hkeep.2.2.1, reverse_eq_nil_iff.mp h3, hkeep.2.2.2⟩

/-- Skipping credentials either finds a message behind some credentials, or takes
all there is and puts the reader to sleep. -/
theorem readSkipping_spec (u : UPipe) :
    (∃ m skipped, u.readSkipping.1 = some m ∧ m.isCredential = false ∧
        (∀ c ∈ skipped, c.isCredential = true) ∧
        Consumes u (skipped ++ [m]) u.readSkipping.2) ∨
      (u.readSkipping.1 = none ∧ (∀ c ∈ u.readable, c.isCredential = true) ∧
        Consumes u u.readable u.readSkipping.2 ∧ u.readSkipping.2.asleep = true) := by
  have hle := u.length_readable_le
  obtain ⟨h1, -, h3⟩ :=
    isView_read.seek_eq Msg.isCredential (u.size + 1) (s := u) trivial (by omega)
  -- what the writer has not made readable stays as it is
  have hkeep := isView_read.seek_preserves Msg.isCredential
    (P := fun v => v.isNormal = u.isNormal ∧ v.ready = u.ready ∧ v.unfinished = u.unfinished)
    (fun v _ ⟨a, b, c⟩ => ⟨v.read_spec.2.1.trans a, v.read_spec.2.2.2.1.trans b,
      v.read_spec.2.2.2.2.1.trans c⟩)
    (u.size + 1) trivial ⟨rfl, rfl, rfl⟩
  have hsplit := takeWhile_append_dropWhile (p := Msg.isCredential) (l := u.readable)
  cases hd : u.readable.dropWhile Msg.isCredential with
  | nil =>
    right
    rw [hd] at h1 h3 hsplit
    rw [append_nil] at hsplit
    refine ⟨h1, ?_, ⟨hkeep.1, ?_, hkeep.2.1, hkeep.2.2⟩, ?_⟩
    · intro c hc
      rw [← hsplit] at hc
      exact mem_takeWhile_imp hc
    · rw [readSkipping, h3, tail_nil, append_nil]
    · obtain ⟨t, -, hnil, hlast⟩ :=
        isView_read.seek_none Msg.isCredential (u.size + 1) trivial (by omega) h1
      rw [readSkipping, hlast, t.read_spec.2.2.2.2.2, hnil]
      simp
  | cons m =>
    left
    rw [hd] at h1 h3 hsplit
    refine ⟨m, u.readable.takeWhile Msg.isCredential, h1, ?_,
      fun c hc => mem_takeWhile_imp hc, hkeep.1, ?_, hkeep.2.1, hkeep.2.2⟩
    · have := head?_dropWhile_not Msg.isCredential u.readable
      simpa [hd] using this
    · rw [readSkipping, h3, append_assoc]
      exact hsplit.symm

end UPipe
end LibZmq
