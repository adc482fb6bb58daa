import LibZmq.Core.Loop

/-!
# `yqueue_t` and `ypipe_t`

The queue between a writer thread and a reader thread (`yqueue.hpp`,
`ypipe.hpp`). A pointer into the queue is modelled by the position of the slot
it points to, counted from the first slot ever pushed, and `NULL` by `none`.
All slots between the front and the back are allocated and have distinct
addresses, so that comparing positions is comparing pointers.

The pointers cut the stored values into three segments:

* `readable` — flushed, the reader may take them (`front` up to `w`);
* `ready` — completed but not flushed yet (`w` up to `f`);
* `unfinished` — parts of an item still to be completed (`f` up to the back).

`Ordered` says that the pointers stand in this order and that `c` is `NULL` or
equal to `w`; every operation preserves it, and the lemmas of the second half
say what each operation does to the three segments.
-/

namespace LibZmq

open LibZmq.Core List

universe u

variable {α : Type u}

/-! ## The chunked queue -/

/-- `yqueue_t`: the slots from the front one up to, not including, the back one.
The back slot is the terminator and holds no value yet. -/
structure YQueue (α : Type u) where
  beginPos : Nat
  values : List α
deriving DecidableEq, Repr

namespace YQueue

/-- Address of the front slot. -/
def front (q : YQueue α) : Nat := q.beginPos

/-- Address of the back slot. -/
def back (q : YQueue α) : Nat := q.beginPos + q.values.length

/-- `back () = value_` followed by `push ()`. -/
def push (q : YQueue α) (value : α) : YQueue α :=
  { q with values := q.values ++ [value] }

/-- `unpush ()`: the last value pushed is in the back slot again. -/
def unpush (q : YQueue α) : YQueue α :=
  { q with values := q.values.dropLast }

/-- `pop ()`. -/
def pop (q : YQueue α) : YQueue α :=
  { beginPos := q.beginPos + 1, values := q.values.tail }

end YQueue

/-! ## The pipe -/

/-- `atomic_ptr_t::cas`: the old value, and the value afterwards. -/
def atomicCas (ptr cmp val : Option Nat) : Option Nat × Option Nat :=
  (ptr, if ptr = cmp then val else ptr)

/-- `ypipe_t`. -/
structure YPipe (α : Type u) where
  queue : YQueue α
  /-- First un-flushed item; used by the writer only. -/
  w : Nat
  /-- First un-prefetched item; used by the reader only. -/
  r : Option Nat
  /-- First item to be flushed in the future; used by the writer only. -/
  f : Nat
  /-- The shared pointer past the last flushed item; `none` when the reader is
  asleep. -/
  c : Option Nat
deriving DecidableEq, Repr

/-- How the compare-and-swap of `flush` went. -/
inductive FlushCas where
  /-- `_w == _f`: there is nothing to flush and `c` is not accessed. -/
  | nothingToFlush
  /-- `c` was `w` and is now `f`. -/
  | published
  /-- `c` was not `w`: the reader is asleep. -/
  | readerAsleep
deriving DecidableEq, Repr

namespace YPipe

open YQueue (front back push pop unpush)

/-- The constructor: one terminator slot, all pointers to it. -/
def new : YPipe α :=
  { queue := { beginPos := 0, values := [] }, w := 0, r := some 0, f := 0, c := some 0 }

def write (p : YPipe α) (value : α) (incomplete : Bool) : YPipe α :=
  let queue := p.queue.push value
  { p with queue := queue, f := if incomplete then p.f else queue.back }

/-- `unwrite`: the removed item, if there is an incomplete one. -/
def unwrite (p : YPipe α) : Option α × YPipe α :=
  if p.f = p.queue.back then (none, p)
  else (p.queue.values.getLast?, { p with queue := p.queue.unpush })

/-- `flush` up to and including its compare-and-swap. -/
def flushCas (p : YPipe α) : FlushCas × YPipe α :=
  if p.w = p.f then (.nothingToFlush, p)
  else
    let (old, c) := atomicCas p.c (some p.w) (some p.f)
    if old ≠ some p.w then (.readerAsleep, { p with c := c })
    else (.published, { p with c := c, w := p.f })

/-- The rest of `flush` after a failed compare-and-swap: `c` is set in a
non-atomic manner. -/
def flushSet (p : YPipe α) : YPipe α :=
  { p with c := some p.f, w := p.f }

/-- `flush`: `false` when the reader has to be woken up. -/
def flush (p : YPipe α) : Bool × YPipe α :=
  match p.flushCas with
  | (.readerAsleep, p') => (false, p'.flushSet)
  | (_, p') => (true, p')

/-- `&_queue.front () != _r && _r`: some item has been prefetched. -/
def prefetched (p : YPipe α) : Bool :=
  decide (p.r ≠ some p.queue.front) && p.r.isSome

/-- `_r = _c.cas (&_queue.front (), NULL)`: fetch the flushed items, or go to
sleep when there are none. -/
def prefetch (p : YPipe α) : YPipe α :=
  let (old, c) := atomicCas p.c (some p.queue.front) none
  { p with r := old, c := c }

def checkRead (p : YPipe α) : Bool × YPipe α :=
  if p.prefetched then (true, p) else (p.prefetch.prefetched, p.prefetch)

def read (p : YPipe α) : Option α × YPipe α :=
  match p.checkRead with
  | (false, p') => (none, p')
  | (true, p') => (p'.queue.values.head?, { p' with queue := p'.queue.pop })

/-- `while (read (&value)) ...`: read until `read` fails. There are never more
rounds than stored values and the one that fails. -/
def drain (p : YPipe α) : List α × YPipe α := collect read (p.queue.values.length + 1) p

/-! ## Order of the pointers -/

/-- The pointers are in order, `c` is `NULL` or equal to `w`, and while `c` is
`NULL` nothing is left to read. -/
structure Ordered (p : YPipe α) : Prop where
  front_le_w : p.queue.front ≤ p.w
  w_le_f : p.w ≤ p.f
  f_le_back : p.f ≤ p.queue.back
  c_eq : p.c = none ∨ p.c = some p.w
  c_none : p.c = none → p.w = p.queue.front
  r_bound : ∀ n, p.r = some n → p.queue.front ≤ n ∧ n ≤ p.w

theorem ordered_new : (new : YPipe α).Ordered := by
  constructor <;> simp [new, front]

variable {p : YPipe α} {v : α} {l : List α}

attribute [local simp] atomicCas prefetched prefetch

section
variable (h : p.Ordered)
include h

theorem Ordered.write (value : α) (incomplete : Bool) : (p.write value incomplete).Ordered := by
  obtain ⟨h1, h2, h3, h4, h5, h6⟩ := h
  have hback : (p.queue.push value).back = p.queue.back + 1 := by
    simp [push, back, Nat.add_assoc]
  refine ⟨h1, ?_, ?_, h4, h5, h6⟩
  -- `f` moves past the new item, or stays where it is
  · cases incomplete
    · simp only [YPipe.write]; split <;> omega
    · simpa [YPipe.write] using h2
  · cases incomplete
    · simp [YPipe.write]
    · simp only [YPipe.write]; split <;> omega

theorem Ordered.unwrite : p.unwrite.2.Ordered := by
  obtain ⟨h1, h2, h3, h4, h5, h6⟩ := h
  unfold YPipe.unwrite
  split
  · exact ⟨h1, h2, h3, h4, h5, h6⟩
  rename_i hne
  -- `back` moves by one and was not at `f`
  refine ⟨h1, h2, ?_, h4, h5, h6⟩
  simp only [unpush, back, length_dropLast] at h3 hne ⊢
  omega

theorem Ordered.flushSet : p.flushSet.Ordered := by
  obtain ⟨h1, h2, h3, -, -, h6⟩ := h
  refine ⟨Nat.le_trans h1 h2, Nat.le.refl, h3, .inr rfl, by simp [YPipe.flushSet], ?_⟩
  intro n hn
  exact ⟨(h6 n hn).1, Nat.le_trans (h6 n hn).2 h2⟩

theorem Ordered.flushCas : p.flushCas.2.Ordered := by
  unfold YPipe.flushCas
  split
  · exact h
  simp only [atomicCas]
  split
  -- a failed compare-and-swap leaves `c` as it was
  · rename_i hne
    simpa using h
  -- a successful one does what `flushSet` does
  · rename_i heq
    simp only [not_not] at heq
    simpa [YPipe.flushSet, heq] using h.flushSet

theorem Ordered.flush : p.flush.2.Ordered := by
  have hcas := h.flushCas
  unfold YPipe.flush
  split
  · rename_i p' heq
    rw [heq] at hcas
    exact hcas.flushSet
  · rename_i p' _ heq
    rw [heq] at hcas
    exact hcas

theorem prefetched_iff : p.prefetched = true ↔ ∃ n, p.r = some n ∧ p.queue.front < n ∧ n ≤ p.w := by
  constructor
  · intro hp
    simp only [prefetched, Bool.and_eq_true, decide_eq_true_eq, Option.isSome_iff_exists] at hp
    obtain ⟨hne, n, hn⟩ := hp
    have hb := h.r_bound n hn
    have hnf : n ≠ p.queue.front := fun e => hne (by rw [hn, e])
    exact ⟨n, hn, by omega, hb.2⟩
  · rintro ⟨n, hn, hlt, -⟩
    have hnf : n ≠ p.queue.front := by omega
    simp [hn, hnf]

theorem Ordered.prefetch : p.prefetch.Ordered := by
  obtain ⟨h1, h2, h3, h4, h5, -⟩ := h
  rcases h4 with hc | hc
  · -- already asleep: the compare-and-swap changes nothing
    refine ⟨h1, h2, h3, ?_, ?_, ?_⟩ <;> simp [hc, h5 hc]
  -- `c` is `w`: the reader takes it, and leaves `NULL` behind if that is the front
  · refine ⟨h1, h2, h3, ?_, ?_, ?_⟩
    · simp only [YPipe.prefetch, atomicCas, hc]
      split <;> simp
    · simp only [YPipe.prefetch, atomicCas]
      split <;> simp_all
    · intro n hn
      simp only [YPipe.prefetch, atomicCas, hc, Option.some.injEq] at hn
      subst hn
      exact ⟨h1, Nat.le.refl⟩

/-- After the compare-and-swap, an item is prefetched iff one was flushed. -/
theorem prefetch_prefetched : p.prefetch.prefetched = decide (p.queue.front < p.w) := by
  obtain ⟨h1, -, -, h4, h5, -⟩ := h
  rcases h4 with hc | hc
  · have := h5 hc
    simp [hc, this]
  by_cases hw : p.w = p.queue.front
  · simp [hc, hw]
  · have : p.queue.front < p.w := by omega
    simp [hc, hw, this]

/-- Whether `check_read` finds something depends on `w` alone. -/
theorem checkRead_fst : p.checkRead.1 = decide (p.queue.front < p.w) := by
  unfold checkRead
  split
  · rename_i hp
    obtain ⟨n, -, hlt, hle⟩ := (prefetched_iff h).mp hp
    exact (decide_eq_true (Nat.lt_of_lt_of_le hlt hle)).symm
  · exact prefetch_prefetched h

theorem Ordered.checkRead : p.checkRead.2.Ordered := by
  unfold YPipe.checkRead
  split
  · exact h
  · exact h.prefetch

end

theorem checkRead_queue (p : YPipe α) : p.checkRead.2.queue = p.queue := by
  unfold checkRead
  split <;> rfl

theorem checkRead_w (p : YPipe α) : p.checkRead.2.w = p.w := by
  unfold checkRead
  split <;> rfl

theorem checkRead_f (p : YPipe α) : p.checkRead.2.f = p.f := by
  unfold checkRead
  split <;> rfl

theorem checkRead_prefetched (p : YPipe α) : p.checkRead.2.prefetched = p.checkRead.1 := by
  unfold checkRead
  split
  · assumption
  · rfl

theorem Ordered.read (h : p.Ordered) : p.read.2.Ordered := by
  have hc := h.checkRead
  have hp := checkRead_prefetched p
  unfold YPipe.read
  generalize p.checkRead = res at hc hp
  obtain ⟨ok, p'⟩ := res
  cases ok with
  | false => exact hc
  | true =>
    -- `r` and so `w` are beyond the item that is popped
    obtain ⟨n, hn, hlt, hle⟩ := (prefetched_iff hc).mp hp
    obtain ⟨-, h2, h3, h4, h5, -⟩ := hc
    simp only [front, back] at *
    refine ⟨?_, h2, ?_, h4, ?_, ?_⟩
    · simp only [pop, front]
      omega
    · simp only [pop, back, length_tail]
      omega
    · intro hnone
      have := h5 hnone
      omega
    · intro k hk
      rw [hn] at hk
      cases hk
      simp only [pop, front]
      omega

/-! ## The three segments -/

/-- Flushed items not read yet. -/
def readable (p : YPipe α) : List α :=
  p.queue.values.take (p.w - p.queue.front)

/-- Completed items not flushed yet. -/
def ready (p : YPipe α) : List α :=
  (p.queue.values.take (p.f - p.queue.front)).drop (p.w - p.queue.front)

/-- The parts of an incomplete item at the end of the pipe. -/
def unfinished (p : YPipe α) : List α :=
  p.queue.values.drop (p.f - p.queue.front)

/-- The reader has found the pipe empty and has to be woken up. -/
def asleep (p : YPipe α) : Bool := p.c.isNone

section
variable (h : p.Ordered)
include h

theorem readable_append_ready :
    p.readable ++ p.ready = p.queue.values.take (p.f - p.queue.front) := by
  have hle : p.w - p.queue.front ≤ p.f - p.queue.front := Nat.sub_le_sub_right h.w_le_f _
  have htake : p.readable =
      (p.queue.values.take (p.f - p.queue.front)).take (p.w - p.queue.front) := by
    rw [take_take, Nat.min_eq_left hle, readable]
  rw [htake, ready, take_append_drop]

/-- The segments partition the stored values. -/
theorem segments_eq : p.readable ++ p.ready ++ p.unfinished = p.queue.values := by
  rw [readable_append_ready h, unfinished, take_append_drop]

theorem length_readable : p.readable.length = p.w - p.queue.front := by
  have := h.w_le_f
  have := h.f_le_back
  simp only [back] at *
  simp only [readable, length_take, front]
  omega

theorem length_ready : p.ready.length = p.f - p.w := by
  have := h.front_le_w
  have := h.f_le_back
  simp only [back, front] at *
  simp only [ready, length_drop, length_take, front]
  omega

theorem length_unfinished : p.unfinished.length = p.queue.back - p.f := by
  have := h.front_le_w
  have := h.w_le_f
  simp only [back, front] at *
  simp only [unfinished, length_drop, front]
  omega

theorem readable_eq_nil_iff : p.readable = [] ↔ ¬ p.queue.front < p.w := by
  rw [← length_eq_zero_iff, length_readable h]
  omega

theorem ready_eq_nil_iff : p.ready = [] ↔ p.w = p.f := by
  rw [← length_eq_zero_iff, length_ready h]
  have := h.w_le_f
  omega

theorem unfinished_eq_nil_iff : p.unfinished = [] ↔ p.f = p.queue.back := by
  rw [← length_eq_zero_iff, length_unfinished h]
  have := h.f_le_back
  omega

/-- A sleeping reader has nothing to read. -/
theorem readable_of_asleep (hs : p.asleep = true) : p.readable = [] := by
  have := h.c_none (Option.isNone_iff_eq_none.mp hs)
  rw [readable_eq_nil_iff h]
  omega

end

@[simp] theorem readable_new : (new : YPipe α).readable = [] := rfl
@[simp] theorem ready_new : (new : YPipe α).ready = [] := rfl
@[simp] theorem unfinished_new : (new : YPipe α).unfinished = [] := rfl
@[simp] theorem asleep_new : (new : YPipe α).asleep = false := rfl

/-! ## Effect of the writer's operations -/

section
variable (h : p.Ordered)
include h

theorem readable_write (v : α) (incomplete : Bool) :
    (p.write v incomplete).readable = p.readable := by
  have := h.w_le_f
  have := h.f_le_back
  simp only [back] at *
  simp only [readable, write, push, front] at *
  rw [take_append_of_le_length (by omega)]

theorem ready_write_incomplete (v : α) : (p.write v true).ready = p.ready := by
  have := h.f_le_back
  simp only [back] at *
  simp only [ready, write, push, front, if_true] at *
  rw [take_append_of_le_length (by omega)]

theorem unfinished_write_incomplete (v : α) :
    (p.write v true).unfinished = p.unfinished ++ [v] := by
  have := h.f_le_back
  simp only [back] at *
  simp only [unfinished, write, push, front, if_true] at *
  rw [drop_append_of_le_length (by omega)]

theorem unfinished_write_complete (v : α) : (p.write v false).unfinished = [] := by
  rw [unfinished_eq_nil_iff (h.write v false)]
  simp [write]

theorem ready_write_complete (v : α) :
    (p.write v false).ready = p.ready ++ p.unfinished ++ [v] := by
  -- everything stored and not readable is complete now
  have hseg := segments_eq (h.write v false)
  have hvalues : (p.write v false).queue.values = p.queue.values ++ [v] := rfl
  rw [unfinished_write_complete h, readable_write h, append_nil, hvalues, ← segments_eq h] at hseg
  simpa using hseg

theorem unwrite_of_unfinished_nil (hu : p.unfinished = []) : p.unwrite = (none, p) := by
  rw [unfinished_eq_nil_iff h] at hu
  simp [unwrite, hu]

theorem unwrite_of_unfinished (hu : p.unfinished = l ++ [v]) :
    p.unwrite = (some v, { p with queue := p.queue.unpush }) := by
  have hne : ¬ p.f = p.queue.back := by
    rw [← unfinished_eq_nil_iff h, hu]
    simp
  have hlast : p.queue.values.getLast? = some v := by
    rw [← segments_eq h, hu, ← append_assoc, getLast?_concat]
  simp [unwrite, hne, hlast]

/-- `unwrite` removes the last part of the incomplete item and nothing else. -/
theorem unwrite_segments : p.unwrite.1 = p.unfinished.getLast? ∧ p.unwrite.2.readable = p.readable ∧
      p.unwrite.2.ready = p.ready ∧ p.unwrite.2.unfinished = p.unfinished.dropLast ∧
      p.unwrite.2.asleep = p.asleep := by
  rcases eq_nil_or_concat p.unfinished with hnil | ⟨l, v, hu⟩
  · rw [unwrite_of_unfinished_nil h hnil, hnil]
    exact ⟨rfl, rfl, rfl, rfl, rfl⟩
  rw [concat_eq_append] at hu
  have hlen := length_unfinished h
  rw [hu] at hlen
  have h1 := h.w_le_f
  simp only [length_append, length_cons, back] at *
  rw [unwrite_of_unfinished h hu]
  -- the last value lies beyond `f`, so the other segments do not see it go
  refine ⟨by simp [hu], ?_, ?_, ?_, rfl⟩
  · simp only [readable, unpush, front] at *
    rw [dropLast_eq_take, take_take, Nat.min_eq_left (by omega)]
  · simp only [ready, unpush, front] at *
    rw [dropLast_eq_take, take_take, Nat.min_eq_left (by omega)]
  · have hdrop : (p.queue.unpush).values.drop (p.f - p.queue.front) = (p.unfinished).dropLast := by
      simp only [unpush, unfinished, dropLast_eq_take, drop_take, length_drop]
      congr 1
      omega
    simpa [unfinished, unpush, front] using hdrop

/-! ## Effect of `flush` -/

/-- The outcome of the compare-and-swap depends only on whether there is
something to publish and whether the reader is asleep. -/
theorem flushCas_eq :
    p.flushCas = if p.ready = [] then (.nothingToFlush, p) else if p.asleep then (.readerAsleep, p)
      else (.published, p.flushSet) := by
  by_cases hr : p.ready = []
  · have hwf := (ready_eq_nil_iff h).mp hr
    simp [flushCas, hr, hwf]
  have hwf : ¬ p.w = p.f := fun e => hr ((ready_eq_nil_iff h).mpr e)
  rcases h.c_eq with hc | hc
  -- the compare-and-swap finds `NULL` where it expects `w`
  · have hp : ({ p with c := none } : YPipe α) = p := by cases p; simp_all
    simp [flushCas, hr, hwf, hc, asleep, hp]
  · simp [flushCas, hr, hwf, hc, asleep, flushSet]

theorem flush_of_ready_nil (hr : p.ready = []) : p.flush = (true, p) := by
  simp [flush, flushCas_eq h, hr]

/-- With something to publish, `flush` moves `w` and `c` to `f` and reports
whether the reader was awake. -/
theorem flush_of_ready (hr : p.ready ≠ []) : p.flush = (!p.asleep, p.flushSet) := by
  cases ha : p.asleep <;> simp [flush, flushCas_eq h, hr, ha]

theorem flushSet_segments : p.flushSet.readable = p.readable ++ p.ready ∧ p.flushSet.ready = [] ∧
      p.flushSet.unfinished = p.unfinished ∧ p.flushSet.asleep = false := by
  refine ⟨(readable_append_ready h).symm, ?_, rfl, rfl⟩
  rw [ready_eq_nil_iff h.flushSet]
  rfl

theorem flush_segments : p.flush.2.readable = p.readable ++ p.ready ∧ p.flush.2.ready = [] ∧
      p.flush.2.unfinished = p.unfinished := by
  by_cases hr : p.ready = []
  · rw [flush_of_ready_nil h hr]
    simp [hr]
  · rw [flush_of_ready h hr]
    have hs := flushSet_segments h
    exact ⟨hs.1, hs.2.1, hs.2.2.1⟩

/-- `flush` returns `false` iff it published something to a sleeping reader. -/
theorem flush_fst : p.flush.1 = (p.ready.isEmpty || !p.asleep) := by
  by_cases hr : p.ready = []
  · rw [flush_of_ready_nil h hr, hr]
    rfl
  · rw [flush_of_ready h hr]
    simp [hr]

theorem asleep_flush : p.flush.2.asleep = (p.asleep && p.ready.isEmpty) := by
  by_cases hr : p.ready = []
  · rw [flush_of_ready_nil h hr, hr]
    simp
  · rw [flush_of_ready h hr]
    simp [hr, (flushSet_segments h).2.2.2]

end

/-! ## Effect of the reader's operations -/

theorem checkRead_segments (p : YPipe α) :
    p.checkRead.2.readable = p.readable ∧ p.checkRead.2.ready = p.ready ∧
      p.checkRead.2.unfinished = p.unfinished := by
  simp [readable, ready, unfinished, checkRead_queue, checkRead_w, checkRead_f]

section
variable (h : p.Ordered)
include h

theorem checkRead_eq : p.checkRead.1 = !p.readable.isEmpty := by
  rw [checkRead_fst h]
  by_cases hr : p.readable = []
  · have := (readable_eq_nil_iff h).mp hr
    simp [hr, this]
  have hlt : p.queue.front < p.w := by
    by_contra hge
    exact hr ((readable_eq_nil_iff h).mpr hge)
  simp [hr, hlt]

/-- A failed `check_read` puts the reader to sleep; a successful one finds it
awake. -/
theorem asleep_checkRead : p.checkRead.2.asleep = p.readable.isEmpty := by
  have hiff := readable_eq_nil_iff h
  obtain ⟨h1, h2, h3, h4, h5, h6⟩ := h
  have hord : p.Ordered := ⟨h1, h2, h3, h4, h5, h6⟩
  unfold checkRead
  split
  · rename_i hp
    obtain ⟨n, -, hlt, hle⟩ := (prefetched_iff hord).mp hp
    have hw : p.queue.front < p.w := Nat.lt_of_lt_of_le hlt hle
    have hne : p.readable ≠ [] := fun e => hiff.mp e hw
    -- something is prefetched, so `c` cannot be `NULL`
    rcases h4 with hc | hc
    · have := h5 hc
      omega
    · simp [asleep, hc, hne]
  rcases h4 with hc | hc
  · have := h5 hc
    have hnil : p.readable = [] := hiff.mpr (by omega)
    simp [asleep, hc, hnil]
  -- the compare-and-swap succeeds iff nothing has been flushed
  · by_cases hw : p.w = p.queue.front
    · have hnil : p.readable = [] := hiff.mpr (by omega)
      simp [asleep, hc, hw, hnil]
    · have hne : p.readable ≠ [] := fun e => hiff.mp e (by omega)
      simp [asleep, hc, hw, hne]

theorem read_of_readable_nil (hr : p.readable = []) : p.read = (none, p.checkRead.2) := by
  have hok : p.checkRead.1 = false := by rw [checkRead_eq h, hr]; rfl
  unfold read
  generalize p.checkRead = res at hok
  obtain ⟨ok, p'⟩ := res
  cases hok
  rfl

theorem read_of_readable (hr : p.readable = v :: l) :
    p.read = (some v, { p.checkRead.2 with queue := p.queue.pop }) := by
  have hok : p.checkRead.1 = true := by rw [checkRead_eq h, hr]; rfl
  have hq := checkRead_queue p
  have hhead : p.queue.values.head? = some v := by
    rw [← segments_eq h, hr]
    rfl
  unfold read
  generalize p.checkRead = res at hok hq
  obtain ⟨ok, p'⟩ := res
  cases hok
  simp only at hq ⊢
  rw [hq, hhead]

/-- A successful `read` takes the first readable item and nothing else. -/
theorem read_segments :
    p.read.1 = p.readable.head? ∧ p.read.2.readable = p.readable.tail ∧
      p.read.2.ready = p.ready ∧ p.read.2.unfinished = p.unfinished ∧
      p.read.2.asleep = p.readable.isEmpty := by
  cases hr : p.readable with
  | nil =>
    have hseg := checkRead_segments p
    rw [read_of_readable_nil h hr]
    exact ⟨rfl, by simp [hseg.1, hr], hseg.2.1, hseg.2.2, by simp [asleep_checkRead h, hr]⟩
  | cons v l =>
    have hlen := length_readable h
    have h2 := h.w_le_f
    rw [hr] at hlen
    simp only [length_cons, front] at *
    -- popping moves the front by one, and every segment is measured from there
    have hw : p.w - (p.queue.beginPos + 1) = l.length := by omega
    have hf : p.f - p.queue.beginPos = p.f - (p.queue.beginPos + 1) + 1 := by omega
    have hsub : p.w - p.queue.beginPos = l.length + 1 := by omega
    rw [read_of_readable h hr]
    refine ⟨rfl, ?_, ?_, ?_, ?_⟩
    · simp only [readable, pop, front, checkRead_w, hw] at hr ⊢
      rw [hsub] at hr
      cases hv : p.queue.values with
      | nil => simp [hv] at hr
      | cons =>
        rw [hv, take_succ_cons, cons.injEq] at hr
        simpa using hr.2
    · simp only [ready, pop, front, checkRead_w, checkRead_f, hw, hf, hsub]
      cases hv : p.queue.values with
      | nil | cons => simp
    · simp only [unfinished, pop, front, checkRead_f, hf]
      cases hv : p.queue.values with
      | nil | cons => simp
    · have := asleep_checkRead h
      rw [hr] at this
      simpa [asleep] using this

end

theorem isView_read : IsView (read : YPipe α → Option α × YPipe α) Ordered readable where
  ok _ h := h.read
  head _ h := (read_segments h).1
  tail _ h := (read_segments h).2.1

theorem length_readable_le (h : p.Ordered) : p.readable.length ≤ p.queue.values.length := by
  rw [← segments_eq h]
  simp only [length_append]
  omega

/-- Reading until `read` fails returns the readable items in order. -/
theorem drain_segments (h : p.Ordered) :
    p.drain.1 = p.readable ∧ p.drain.2.Ordered ∧ p.drain.2.readable = [] := by
  apply isView_read.collect_eq _ h
  have := length_readable_le h
  omega

end YPipe
end LibZmq
