import LibZmq.Core.Execution
import LibZmq.Conflate.Basic

/-!
# Conflation under every interleaving of a writer and a reader

`dbuffer_t::write` copies the message to the back buffer, tries to take the lock
and gives up when it cannot: "which is ok since writes are many and redundant"
(`dbuffer.hpp`). Each of these is a step of its own here, and so are locking,
looking and unlocking in the reader.

* `kept_write_is_read` — between operations, the pipe holds the value of the
  last write that got the lock, unless it has been read since;
* `last_write_can_be_lost` — a write that meets the reader inside its critical
  section is lost, the delimiter included.
-/

namespace LibZmq.Conflate

open LibZmq.Core Exec DBuffer

/-! ## Steps -/

inductive Party where
  | writer
  | reader
deriving DecidableEq, Repr

/-- Where the writer stands in `write`. -/
inductive WriterPc where
  | idle
  /-- The back buffer holds the value; `try_lock` is next. -/
  | copied (v : Msg)
  | locked (v : Msg)
  /-- The front buffer holds the value; `unlock` is next. -/
  | moved (v : Msg)
deriving DecidableEq, Repr

/-- The reader's methods. `check` and `probe` are one critical section; `read`
is a `check_read` and, if that succeeds, a second section that takes the value. -/
inductive ReaderOp where
  | check
  | probe
  | read
deriving DecidableEq, Repr

/-- Where the reader stands. -/
inductive ReaderPc where
  | idle
  | holding (op : ReaderOp)
  /-- Has looked at `_has_msg`, still holding the lock. -/
  | looked (op : ReaderOp) (res : Bool)
  /-- Inside `read`, between its two critical sections. -/
  | between
  | taking
  /-- Has taken the value, still holding the lock. -/
  | taken (v : Option Msg)
deriving DecidableEq, Repr

/-- The buffer, its mutex and the two threads. `reader_awake` is left out: it is
false from the start. -/
structure Shared where
  buf : DBuffer
  lock : Option Party
  writer : WriterPc
  reader : ReaderPc
deriving DecidableEq, Repr

/-- Neither thread is inside an operation. -/
def Shared.Quiet (s : Shared) : Prop := s.writer = .idle ∧ s.reader = .idle

/-- The pipe between operations. -/
def Shared.pipe (s : Shared) : YPipeConflate := { dbuffer := s.buf, readerAwake := false }

def start : Shared := { buf := .new, lock := none, writer := .idle, reader := .idle }

/-- What the callers observe: a method has returned. -/
inductive Event where
  /-- Nothing returns in this step. -/
  | internal
  /-- `write` has returned; `locked` tells whether its `try_lock` succeeded. -/
  | wrote (v : Msg) (locked : Bool)
  | checked (res : Bool)
  | readDone (v : Option Msg)
deriving DecidableEq, Repr

inductive Step : Shared → Event → Shared → Prop where
  | copy (b : DBuffer) (k : Option Party) (r : ReaderPc) (v : Msg) :
      Step ⟨b, k, .idle, r⟩ .internal ⟨b.copyBack v, k, .copied v, r⟩
  | tryLock (b : DBuffer) (r : ReaderPc) (v : Msg) :
      Step ⟨b, none, .copied v, r⟩ .internal ⟨b, some .writer, .locked v, r⟩
  /-- `try_lock` fails: the write returns without moving the value. -/
  | giveUp (b : DBuffer) (r : ReaderPc) (v : Msg) :
      Step ⟨b, some .reader, .copied v, r⟩ (.wrote v false) ⟨b, some .reader, .idle, r⟩
  | move (b : DBuffer) (k : Option Party) (r : ReaderPc) (v : Msg) :
      Step ⟨b, k, .locked v, r⟩ .internal ⟨b.moveFront, k, .moved v, r⟩
  | writerUnlock (b : DBuffer) (k : Option Party) (r : ReaderPc) (v : Msg) :
      Step ⟨b, k, .moved v, r⟩ (.wrote v true) ⟨b, none, .idle, r⟩
  | readerLock (b : DBuffer) (w : WriterPc) (op : ReaderOp) :
      Step ⟨b, none, w, .idle⟩ .internal ⟨b, some .reader, w, .holding op⟩
  | look (b : DBuffer) (k : Option Party) (w : WriterPc) (op : ReaderOp) :
      Step ⟨b, k, w, .holding op⟩ .internal ⟨b, k, w, .looked op b.checkRead⟩
  | checkUnlock (b : DBuffer) (k : Option Party) (w : WriterPc) (op : ReaderOp) (res : Bool)
      (hop : op ≠ .read) :
      Step ⟨b, k, w, .looked op res⟩ (.checked res) ⟨b, none, w, .idle⟩
  | readMiss (b : DBuffer) (k : Option Party) (w : WriterPc) :
      Step ⟨b, k, w, .looked .read false⟩ (.readDone none) ⟨b, none, w, .idle⟩
  | readHit (b : DBuffer) (k : Option Party) (w : WriterPc) :
      Step ⟨b, k, w, .looked .read true⟩ .internal ⟨b, none, w, .between⟩
  | readLock (b : DBuffer) (w : WriterPc) :
      Step ⟨b, none, w, .between⟩ .internal ⟨b, some .reader, w, .taking⟩
  | take (b : DBuffer) (k : Option Party) (w : WriterPc) :
      Step ⟨b, k, w, .taking⟩ .internal ⟨b.take.2, k, w, .taken b.take.1⟩
  | readUnlock (b : DBuffer) (k : Option Party) (w : WriterPc) (v : Option Msg) :
      Step ⟨b, k, w, .taken v⟩ (.readDone v) ⟨b, none, w, .idle⟩

/-! ## The ledger of a trace -/

/-- What a trace amounts to for the callers. -/
structure Ledger where
  /-- Value of the last write that has completed since the last successful read. -/
  lastWrite : Option Msg := none
  /-- The same, counting only the writes that got the lock. -/
  lastKept : Option Msg := none
deriving DecidableEq, Repr

namespace Ledger

def record (l : Ledger) : Event → Ledger
  | .internal => l
  | .wrote v locked =>
      { lastWrite := some v, lastKept := if locked then some v else l.lastKept }
  | .checked _ => l
  | .readDone none => l
  | .readDone (some _) => {}

def ofTrace (tr : List Event) : Ledger := tr.foldl record {}

theorem ofTrace_snoc (tr : List Event) (e : Event) :
    ofTrace (tr ++ [e]) = (ofTrace tr).record e := by
  simp [ofTrace]

end Ledger

open Ledger (ofTrace record)

/-! ## The buffer agrees with the ledger -/

/-- The reader has taken a value and `read` has not returned. -/
def ReaderPc.hasTaken : ReaderPc → Bool
  | .taken v => v.isSome
  | _ => false

/-- The content the ledger predicts. A thread that has changed the buffer and
not released the lock yet is ahead of the ledger. -/
def expected (l : Ledger) (w : WriterPc) (r : ReaderPc) : Option Msg :=
  match w with
  | .moved v => some v
  | _ => if r.hasTaken then none else l.lastKept

/-- The reader is inside a critical section. -/
def ReaderPc.holdsLock : ReaderPc → Bool
  | .idle | .between => false
  | _ => true

/-- The writer is inside its critical section. -/
def WriterPc.holdsLock : WriterPc → Bool
  | .idle | .copied _ => false
  | _ => true

/-- The invariant: the mutex excludes, the back buffer holds what the writer is
about to move, and the content is the one the ledger predicts. -/
structure Tracks (l : Ledger) (s : Shared) : Prop where
  lock_writer : s.writer.holdsLock = true ↔ s.lock = some .writer
  lock_reader : s.reader.holdsLock = true ↔ s.lock = some .reader
  back : ∀ v, s.writer = .copied v ∨ s.writer = .locked v → s.buf.back = v
  content : s.buf.content = expected l s.writer s.reader

theorem tracks_start : Tracks (ofTrace []) start := by
  constructor <;> simp [start, WriterPc.holdsLock, ReaderPc.holdsLock, expected, ofTrace,
      ReaderPc.hasTaken]

section steps
variable {l : Ledger} {b : DBuffer} {k k' : Option Party} {w : WriterPc} {r r' : ReaderPc}

section
variable (h : Tracks l ⟨b, k, w, r⟩)
include h

/-- The reader gets on, with or without the lock, and does not touch the buffer. -/
theorem Tracks.reader (hlw : k = some .writer ↔ k' = some .writer)
    (hlr : r'.holdsLock = true ↔ k' = some .reader) (htaken : r'.hasTaken = r.hasTaken) :
    Tracks l ⟨b, k', w, r'⟩ where
  lock_writer := h.lock_writer.trans hlw
  lock_reader := hlr
  back := h.back
  content := by
    rw [h.content]
    cases w <;> simp [expected, htaken]

/-- The reader leaves its critical section. -/
theorem Tracks.reader_unlocks (hr : r.holdsLock = true) (hr' : r'.holdsLock = false)
    (htaken : r'.hasTaken = r.hasTaken) : Tracks l ⟨b, none, w, r'⟩ := by
  have hk : k = some .reader := h.lock_reader.mp hr
  exact h.reader (by simp [hk]) (by simp [hr']) htaken

/-- While the reader holds the lock, the writer has at most copied its value. -/
theorem Tracks.writer_outside (hr : r.holdsLock = true) : w.holdsLock = false := by
  have hk : k = some .reader := h.lock_reader.mp hr
  have hlw := h.lock_writer
  simpa [hk] using hlw

end

end steps

attribute [simp] WriterPc.holdsLock ReaderPc.holdsLock expected

attribute [local simp] record

theorem Tracks.step (h : Tracks l s) (hstep : Step s e s') : Tracks (l.record e) s' := by
  have hh := h
  obtain ⟨hlw, hlr, hback, hcont⟩ := h
  cases hstep with
  | copy =>
    exact ⟨by simpa using hlw, hlr, by simp [copyBack], by simpa using hcont⟩
  | tryLock =>
    exact ⟨by simp, by simpa using hlr, by simpa using hback, by simpa using hcont⟩
  | giveUp =>
    -- the value stays in the back buffer, and the next `copy` will overwrite it
    exact ⟨by simp, hlr, by simp, by simpa using hcont⟩
  | move b k r v =>
    refine ⟨by simpa using hlw, hlr, by simp, ?_⟩
    simpa using hback v (.inr rfl)
  | writerUnlock b k r =>
    -- the writer held the lock, so the reader is outside its critical sections
    have hk : k = some .writer := by simpa using hlw
    subst hk
    cases r with
    | idle | between => exact ⟨by simp, by simp, by simp, by simpa [ReaderPc.hasTaken] using hcont⟩
    | holding | looked | taking | taken => simp at hlr
  | readerLock | readLock => exact hh.reader (by simp) (by simp) rfl
  | look => exact hh.reader .rfl (by simpa using hlr) rfl
  | checkUnlock | readMiss | readHit =>
    exact hh.reader_unlocks rfl rfl rfl
  | take b k w =>
    have hw := hh.writer_outside rfl
    refine ⟨hlw, hlr, ?_, ?_⟩
    · intro v hv
      rw [← hback v hv]
      simp only [take]
      split <;> rfl
    · -- the buffer is empty now, and the ledger will know when `read` returns
      rw [take_fst, hcont]
      cases w with
      | idle | copied =>
        cases hl : l.lastKept <;> simp [ReaderPc.hasTaken, hl]
      | locked | moved => simp at hw
  | readUnlock b k w v =>
    have hw := hh.writer_outside rfl
    have hk : k = some .reader := hlr.mp rfl
    subst hk
    refine ⟨by simpa using hlw, by simp, hback, ?_⟩
    cases w with
    | idle | copied => cases v <;> simpa [ReaderPc.hasTaken] using hcont
    | locked | moved => simp at hw

variable {s : Shared}

theorem tracks_of_exec (h : Exec Step start tr s) : Tracks (ofTrace tr) s :=
  h.invariant_trace (fun tr s => Tracks (ofTrace tr) s)
    (fun _ _ e _ ht hs => by rw [Ledger.ofTrace_snoc]; exact ht.step hs) tracks_start

/-! ## Between operations -/

theorem Tracks.quiet (h : Tracks l s) (hq : s.Quiet) :
    s.lock = none ∧ s.buf.content = l.lastKept := by
  obtain ⟨b, k, w, r⟩ := s
  obtain ⟨hw, hr⟩ := hq
  subst hw hr
  refine ⟨?_, by simpa [ReaderPc.hasTaken] using h.content⟩
  -- the lock has no holder: neither thread is inside a critical section
  have hlw := h.lock_writer
  have hlr := h.lock_reader
  match k with
  | none => rfl
  | some .writer => simp at hlw
  | some .reader => simp at hlr

/-- The steps of a `read` that finds a message, with the writer at rest, return
what the sequential `read` returns. -/
theorem read_alone (hlock : s.lock = none) (hq : s.Quiet) (hcheck : s.pipe.checkRead.1 = true) :
    ∃ s', Exec Step s
      [.internal, .internal, .internal, .internal, .internal, .readDone s.pipe.read.1] s' := by
  obtain ⟨b, k, w, r⟩ := s
  obtain ⟨hw, hr⟩ := hq
  subst hw hr hlock
  have hb : b.checkRead = true := by
    rw [YPipeConflate.checkRead_fst, ← checkRead_eq] at hcheck
    exact hcheck
  have hread : (Shared.pipe ⟨b, none, .idle, .idle⟩).read.1 = b.take.1 := by
    rw [(YPipeConflate.read_content _).1, take_fst]
    rfl
  rw [hread]
  refine ⟨⟨b.take.2, none, .idle, .idle⟩, ?_⟩
  apply cons (Step.readerLock b .idle .read)
  apply cons (Step.look b _ .idle .read)
  rw [hb]
  apply cons (Step.readHit b _ .idle)
  apply cons (Step.readLock b .idle)
  apply cons (Step.take b _ .idle)
  exact single (Step.readUnlock _ _ .idle _)

/-- **Conflation keeps the last message that got the lock.**  Whenever no operation
is in progress and a write that obtained the lock has completed since the last
successful read, `check_read` is true and the next read returns the value of the
last such write. -/
theorem kept_write_is_read {tr : List Event} {s : Shared} (h : Exec Step start tr s)
    (hq : s.Quiet) {v : Msg} (hv : (Ledger.ofTrace tr).lastKept = some v) :
    s.pipe.checkRead.1 = true ∧ s.pipe.read.1 = some v ∧
      ∃ s', Exec Step s
        [.internal, .internal, .internal, .internal, .internal, .readDone (some v)] s' := by
  obtain ⟨hlock, hcontent⟩ := (tracks_of_exec h).quiet hq
  have hsome : s.pipe.dbuffer.content = some v := hcontent.trans hv
  have hcheck : s.pipe.checkRead.1 = true := by
    rw [YPipeConflate.checkRead_fst, hsome]
    rfl
  have hread : s.pipe.read.1 = some v := by
    rw [(YPipeConflate.read_content _).1, hsome]
  refine ⟨hcheck, hread, ?_⟩
  have hrun := read_alone hlock hq hcheck
  rwa [hread] at hrun

/-- The run of a write that meets no reader. -/
private theorem exec_undisturbed_write (v : Msg) :
    Exec Step start [.internal, .internal, .internal, .wrote v true]
      ⟨(new.copyBack v).moveFront, none, .idle, .idle⟩ := by
  apply cons (Step.copy .new none .idle v)
  apply cons (Step.tryLock _ .idle v)
  apply cons (Step.move _ _ .idle v)
  exact single (Step.writerUnlock _ _ .idle v)

/-- A delimiter written while the reader is elsewhere is there to be read. -/
theorem kept_delimiter_is_read :
    let s : Shared := ⟨(DBuffer.new.copyBack .initDelimiter).moveFront, none, .idle, .idle⟩
    s.pipe.checkRead.1 = true ∧ s.pipe.read.1 = some .initDelimiter ∧
      ∃ s', Exec Step s
        [.internal, .internal, .internal, .internal, .internal,
          .readDone (some .initDelimiter)] s' :=
  kept_write_is_read (exec_undisturbed_write _) ⟨rfl, rfl⟩ rfl

/-- A write that meets the reader inside `check_read` leaves no trace. -/
private theorem exec_disturbed_write (v : Msg) :
    Exec Step start [.internal, .internal, .wrote v false, .internal, .checked false]
      ⟨new.copyBack v, none, .idle, .idle⟩ := by
  apply cons (Step.readerLock .new .idle .check)
  apply cons (Step.copy _ _ _ v)
  apply cons (Step.giveUp _ _ v)
  apply cons (Step.look _ _ _ .check)
  exact single (Step.checkUnlock _ _ _ .check false (by decide))

/-- Without the lock the last write is not kept: the delimiter can be lost. -/
theorem last_write_can_be_lost :
    ¬ ∀ (tr : List Event) (s : Shared) (v : Msg), Exec Step start tr s → s.Quiet →
      (Ledger.ofTrace tr).lastWrite = some v →
      s.pipe.checkRead.1 = true ∧ s.pipe.read.1 = some v := by
  intro hall
  have hlost := hall _ _ .initDelimiter (exec_disturbed_write _) ⟨rfl, rfl⟩ rfl
  simp [Shared.pipe, YPipeConflate.checkRead_fst] at hlost

end LibZmq.Conflate
