import LibZmq.Core.Execution
import LibZmq.YPipe.Basic

/-!
# `ypipe_t` under every interleaving of a writer and a reader

The only access the two threads share is the single atomic operation on `c`
that `flush` and `check_read` perform. Every method is therefore one step,
except `flush`: when its compare-and-swap fails it goes on to set `c` in a
non-atomic manner, and the reader may run between the two.

The specification is a ledger of what the callers have seen so far, computed
from the trace alone (`Ledger`). `Tracks` relates it to the pointers, and the
results are read off at the end:

* `fifo_with_sleep_detection` — order, completeness, `unwrite`, the
  result of `flush` and the number of wake-ups.
-/

namespace LibZmq.YPipe

open LibZmq.Core

universe u

variable {α : Type u}

/-! ## Steps -/

/-- The pipe, and whether the writer stands between a failed compare-and-swap
of `flush` and the assignment to `c`. -/
structure Shared (α : Type u) where
  pipe : YPipe α
  flushing : Bool

/-- What the two callers observe. -/
inductive Event (α : Type u) where
  | wrote (value : α) (incomplete : Bool)
  | unwrote (value : Option α)
  /-- `flush` has returned `awake`; `published` tells whether it moved `c`. -/
  | flushed (published awake : Bool)
  /-- The compare-and-swap of `flush` has failed; `flush` has not returned. -/
  | flushFailed
  | checked (found : Bool)
  | readDone (value : Option α)

/-- One step of the writer or of the reader. The writer does nothing else while
it is inside `flush`. -/
inductive Step : Shared α → Event α → Shared α → Prop where
  | write (p : YPipe α) (v : α) (incomplete : Bool) :
      Step ⟨p, false⟩ (.wrote v incomplete) ⟨p.write v incomplete, false⟩
  | unwrite (p : YPipe α) :
      Step ⟨p, false⟩ (.unwrote p.unwrite.1) ⟨p.unwrite.2, false⟩
  | flushNothing (p p' : YPipe α) (h : p.flushCas = (.nothingToFlush, p')) :
      Step ⟨p, false⟩ (.flushed false true) ⟨p', false⟩
  | flushPublish (p p' : YPipe α) (h : p.flushCas = (.published, p')) :
      Step ⟨p, false⟩ (.flushed true true) ⟨p', false⟩
  | flushFail (p p' : YPipe α) (h : p.flushCas = (.readerAsleep, p')) :
      Step ⟨p, false⟩ .flushFailed ⟨p', true⟩
  | flushSet (p : YPipe α) :
      Step ⟨p, true⟩ (.flushed true false) ⟨p.flushSet, false⟩
  | checkRead (p : YPipe α) (flushing : Bool) :
      Step ⟨p, flushing⟩ (.checked p.checkRead.1) ⟨p.checkRead.2, flushing⟩
  | read (p : YPipe α) (flushing : Bool) :
      Step ⟨p, flushing⟩ (.readDone p.read.1) ⟨p.read.2, flushing⟩

/-! ## The ledger of a trace -/

/-- What a trace amounts to, without reference to the pipe. -/
structure Ledger (α : Type u) where
  /-- Values of completed items, in the order written. -/
  completed : List α := []
  /-- Parts written since the last completed item and not taken back. -/
  incomplete : List α := []
  /-- The completed values at the last flush that published something. -/
  published : List α := []
  /-- Values returned by `read`. -/
  consumed : List α := []
  /-- Result of the reader's last `check_read`. -/
  lastCheck : Option Bool := none
  /-- A flush has published something since that `check_read`. -/
  publishedSince : Bool := false
  /-- Number of flushes that have returned `false` since that `check_read`. -/
  wakeups : Nat := 0

namespace Ledger

/-- Enter one event. `read` performs a `check_read`. -/
def record (l : Ledger α) : Event α → Ledger α
  | .wrote v true => { l with incomplete := l.incomplete ++ [v] }
  | .wrote v false =>
      { l with completed := l.completed ++ l.incomplete ++ [v], incomplete := [] }
  | .unwrote none => l
  | .unwrote (some _) => { l with incomplete := l.incomplete.dropLast }
  | .flushed published awake =>
      { l with
        published := if published then l.completed else l.published
        publishedSince := l.publishedSince || published
        wakeups := if awake then l.wakeups else l.wakeups + 1 }
  | .flushFailed => l
  | .checked found =>
      { l with lastCheck := some found, publishedSince := false, wakeups := 0 }
  | .readDone v =>
      { l with
        consumed := l.consumed ++ v.toList
        lastCheck := some v.isSome, publishedSince := false, wakeups := 0 }

/-- The ledger of a whole trace. -/
def ofTrace (tr : List (Event α)) : Ledger α := tr.foldl record {}

theorem ofTrace_snoc (tr : List (Event α)) (e : Event α) :
    ofTrace (tr ++ [e]) = (ofTrace tr).record e := by
  simp [ofTrace]

/-- By the ledger the reader is asleep: its last `check_read` failed and nothing
has been published since. -/
def ReaderAsleep (l : Ledger α) : Prop :=
  l.lastCheck = some false ∧ l.publishedSince = false

end Ledger

open Ledger (record ReaderAsleep ofTrace)

/-! ## The pointers agree with the ledger -/

/-- The invariant: the segments of the pipe are the differences of the lists of
the ledger, and `c` is `NULL` exactly when the ledger has the reader asleep. -/
structure Tracks (l : Ledger α) (s : Shared α) : Prop where
  ordered : s.pipe.Ordered
  consumed : l.consumed ++ s.pipe.readable = l.published
  published : l.published ++ s.pipe.ready = l.completed
  incomplete : s.pipe.unfinished = l.incomplete
  asleep : s.pipe.asleep = true ↔ l.ReaderAsleep
  flushing : s.flushing = true → s.pipe.asleep = true ∧ s.pipe.ready ≠ []
  wakeups : l.wakeups = if l.lastCheck = some false ∧ l.publishedSince = true then 1 else 0

theorem tracks_new : Tracks (ofTrace []) (⟨new, false⟩ : Shared α) := by
  constructor <;> simp [ofTrace, ReaderAsleep, ordered_new]

variable {p p' : YPipe α} {s : Shared α}

theorem flushCas_nothing (h : p.Ordered)
    (hc : p.flushCas = (.nothingToFlush, p')) : p' = p ∧ p.ready = [] := by
  rw [flushCas_eq h] at hc
  split_ifs at hc <;> simp_all

theorem flushCas_published (h : p.Ordered) (hc : p.flushCas = (.published, p')) :
    p' = p.flushSet ∧ p.ready ≠ [] ∧ p.asleep = false := by
  rw [flushCas_eq h] at hc
  split_ifs at hc <;> simp_all

theorem flushCas_asleep (h : p.Ordered) (hc : p.flushCas = (.readerAsleep, p')) :
    p' = p ∧ p.ready ≠ [] ∧ p.asleep = true := by
  rw [flushCas_eq h] at hc
  split_ifs at hc <;> simp_all

/-- Publishing, seen from the ledger. Both ways `flush` can publish end in
`flushSet`; they differ in whether the reader was asleep. -/
theorem Tracks.flushSet {flushing : Bool} (h : Tracks l ⟨p, flushing⟩) :
    Tracks (l.record (.flushed true (!p.asleep))) ⟨p.flushSet, false⟩ := by
  obtain ⟨ord, hcons, hpub, hinc, hasleep, -⟩ := h
  obtain ⟨hread, hready, hunf, hawake⟩ := flushSet_segments ord
  refine ⟨ord.flushSet, ?_, ?_, ?_, ?_, by simp, ?_⟩
  · simp only [record, if_true]
    rw [hread, ← List.append_assoc, hcons, hpub]
  · simp [record, hready]
  · simpa [record, hunf] using hinc
  · simp [record, ReaderAsleep, hawake]
  · -- the reader was asleep exactly when this is the first flush since it looked
    simp only [record]
    simp only [ReaderAsleep] at hasleep
    cases ha : p.asleep <;> cases hs : l.publishedSince <;> simp_all

theorem Tracks.step (h : Tracks l s) (hstep : Step s e s') : Tracks (l.record e) s' := by
  have hh := h
  obtain ⟨ord, hcons, hpub, hinc, hasleep, hflush, hwake⟩ := h
  cases hstep with
  | write p v incomplete =>
    cases incomplete with
    | true =>
      refine ⟨ord.write v true, ?_, ?_, ?_, hasleep, by simp, hwake⟩
      · simpa [record, readable_write ord] using hcons
      · simpa [record, ready_write_incomplete ord] using hpub
      · simpa [record, unfinished_write_incomplete ord] using hinc
    | false =>
      refine ⟨ord.write v false, ?_, ?_, ?_, hasleep, by simp, hwake⟩
      · simpa [record, readable_write ord] using hcons
      -- the parts written before become completed together with `v`
      · have hready := ready_write_complete ord v
        simp only [record]
        rw [hready, ← hpub, ← hinc]
        simp
      · simpa [record] using unfinished_write_complete ord v
  | unwrite p =>
    obtain ⟨hval, hread, hready, hunf, hsame⟩ := unwrite_segments ord
    rw [hval]
    cases hlast : p.unfinished.getLast? with
    | none =>
      have hnil : p.unfinished = [] := List.getLast?_eq_none_iff.mp hlast
      rw [unwrite_of_unfinished_nil ord hnil]
      exact hh
    | some =>
      refine ⟨ord.unwrite, ?_, ?_, ?_, ?_, by simp, hwake⟩
      · simpa [record, hread] using hcons
      · simpa [record, hready] using hpub
      · simp [record, hunf, hinc]
      · simpa [record, hsame, ReaderAsleep] using hasleep
  | flushNothing p p' hc =>
    obtain ⟨rfl, -⟩ := flushCas_nothing ord hc
    simpa [record] using hh
  | flushPublish p p' hc =>
    -- the reader is awake: `flush` is done with the compare-and-swap
    obtain ⟨rfl, -, hawake⟩ := flushCas_published ord hc
    simpa [hawake] using hh.flushSet
  | flushFail p _ hc =>
    obtain ⟨rfl, hne, has⟩ := flushCas_asleep ord hc
    -- nothing has changed yet; the ledger hears of it at `flushSet`
    exact ⟨ord, hcons, hpub, hinc, hasleep, fun _ => ⟨has, hne⟩, hwake⟩
  | flushSet =>
    have has := (hflush rfl).1
    simpa [has] using hh.flushSet
  | checkRead p =>
    obtain ⟨hread, hready, hunf⟩ := checkRead_segments p
    have has := asleep_checkRead ord
    have hok := checkRead_eq ord
    refine ⟨ord.checkRead, ?_, ?_, ?_, ?_, ?_, by simp [record]⟩
    · simpa [record, hread] using hcons
    · simpa [record, hready] using hpub
    · simpa [record, hunf] using hinc
    · simp [record, ReaderAsleep, has, hok]
    · intro hf
      -- a reader that looks while `flush` is half-way finds nothing and stays asleep
      have := hflush hf
      rw [hready, has]
      exact ⟨by simp [readable_of_asleep ord this.1], this.2⟩
  | read p =>
    obtain ⟨hval, hread, hready, hunf, has⟩ := read_segments ord
    refine ⟨ord.read, ?_, ?_, ?_, ?_, ?_, by simp [record]⟩
    · simp only [record, hval, hread, ← hcons]
      cases p.readable <;> simp
    · simpa [record, hready] using hpub
    · simpa [record, hunf] using hinc
    · simp only [record, ReaderAsleep, has, hval]
      cases p.readable <;> simp
    · intro hf
      have := hflush hf
      simp only [hready, has]
      exact ⟨by simp [readable_of_asleep ord this.1], this.2⟩

theorem tracks_of_exec (h : Exec Step ⟨new, false⟩ tr s) : Tracks (ofTrace tr) s :=
  h.invariant_trace (fun tr s => Tracks (ofTrace tr) s)
    (fun _ _ e _ ht hs => by rw [Ledger.ofTrace_snoc]; exact ht.step hs) tracks_new

/-! ## The pipe as a FIFO with sleep detection -/

/-- What the callers may rely on in a state `s` reached by a trace with ledger `l`. -/
structure FifoWithSleepDetection (l : Ledger α) (s : Shared α) : Prop where
  /-- What has been read, followed by what reading until failure would return, is
  a prefix of the completed values in the order written. -/
  read_prefix : l.consumed ++ s.pipe.drain.1 <+: l.completed
  /-- Only what a flush has published is readable: neither incomplete items nor
  completed ones that have not been flushed. -/
  read_published : l.consumed ++ s.pipe.drain.1 = l.published
  /-- `unwrite` takes the last incomplete item, if there is one, and leaves all
  other stored items where they are. -/
  unwrite_last : ∀ v s', Step s (.unwrote v) s' →
    v = l.incomplete.getLast? ∧
      ∃ kept, l.consumed ++ kept = l.completed ∧
        s.pipe.queue.values = kept ++ l.incomplete ∧
        s'.pipe.queue.values = kept ++ l.incomplete.dropLast
  /-- A flush publishes iff there are completed items not published yet. -/
  flush_publishes : ∀ published awake s', Step s (.flushed published awake) s' →
    (published = true ↔ l.published ≠ l.completed)
  /-- A flush that publishes returns `false` iff the reader is asleep. -/
  flush_result : ∀ awake s', Step s (.flushed true awake) s' →
    (awake = false ↔ l.ReaderAsleep)
  /-- A flush that takes the slow path does so because the reader is asleep. -/
  flush_failed : ∀ s', Step s .flushFailed s' → l.ReaderAsleep ∧ l.published ≠ l.completed
  /-- A flush with nothing to publish returns `true` and changes nothing. -/
  flush_nothing : ∀ awake s', Step s (.flushed false awake) s' → awake = true ∧ s' = s
  /-- If the reader's last look failed and there is something to read now, it has
  been woken up exactly once. -/
  one_wakeup : l.lastCheck = some false → s.pipe.drain.1 ≠ [] → l.wakeups = 1

theorem Tracks.published_eq_iff (h : Tracks l s) :
    l.published = l.completed ↔ s.pipe.ready = [] := by
  rw [← h.published]
  simp

theorem Tracks.fifoWithSleepDetection (h : Tracks l s) : FifoWithSleepDetection l s := by
  have hdrain := (drain_segments h.ordered).1
  refine ⟨?_, ?_, ?_, ?_, ?_, ?_, ?_, ?_⟩
  · rw [hdrain, h.consumed, ← h.published]
    exact List.prefix_append _ _
  · rw [hdrain, h.consumed]
  · rintro v s' hstep
    cases hstep with
    | unwrite p =>
      have hinc := h.incomplete
      have hseg := segments_eq h.ordered
      have hseg' := segments_eq h.ordered.unwrite
      obtain ⟨hval, hread, hready, hunf, -⟩ := unwrite_segments h.ordered
      refine ⟨by rw [hval, hinc], p.readable ++ p.ready, ?_, ?_, ?_⟩
      · rw [← List.append_assoc, h.consumed, h.published]
      · rw [← hinc, hseg]
      · rw [← hinc, ← hunf, ← hread, ← hready, hseg']
  · rintro published awake s' hstep
    rw [ne_eq, h.published_eq_iff]
    cases hstep with
    | flushNothing p p' hc => simp [(flushCas_nothing h.ordered hc).2]
    | flushPublish p p' hc => simp [(flushCas_published h.ordered hc).2.1]
    | flushSet => simpa using (h.flushing rfl).2
  · rintro awake s' hstep
    rw [← h.asleep]
    cases hstep with
    | flushPublish p p' hc => simp [(flushCas_published h.ordered hc).2.2]
    | flushSet => simpa using (h.flushing rfl).1
  · rintro s' hstep
    rw [← h.asleep, ne_eq, h.published_eq_iff]
    cases hstep with
    | flushFail p p' hc =>
      obtain ⟨-, hne, has⟩ := flushCas_asleep h.ordered hc
      exact ⟨has, hne⟩
  · rintro awake s' hstep
    cases hstep with
    | flushNothing p _ hc =>
      obtain ⟨rfl, -⟩ := flushCas_nothing h.ordered hc
      exact ⟨rfl, rfl⟩
  · intro hlast hne
    rw [hdrain] at hne
    -- something is readable, so `c` is not `NULL`: a flush has published since
    have hawake : ¬ s.pipe.asleep = true := fun ha => hne (readable_of_asleep h.ordered ha)
    rw [h.asleep] at hawake
    have hsince : l.publishedSince = true := by
      by_contra hns
      exact hawake ⟨hlast, by simpa using hns⟩
    rw [h.wakeups, if_pos ⟨hlast, hsince⟩]

/-- **`ypipe_t` is a FIFO with sleep detection.**  Along every interleaving of a
writer and a reader, the values read and readable are the published prefix of
the completed values, and wake-ups are neither lost nor duplicated. -/
theorem fifo_with_sleep_detection {tr : List (Event α)} {s : Shared α}
    (h : Exec Step ⟨new, false⟩ tr s) : FifoWithSleepDetection (Ledger.ofTrace tr) s :=
  (tracks_of_exec h).fifoWithSleepDetection

/-- The slow path of `flush`: the reader looks, finds nothing and falls asleep,
and the first flush afterwards wakes it up. -/
theorem fifo_after_slow_flush :
    FifoWithSleepDetection
      (Ledger.ofTrace [.checked false, .wrote 7 false, .flushFailed, .flushed true false])
      (⟨((new : YPipe Nat).checkRead.2.write 7 false).flushSet, false⟩ : Shared Nat) := by
  apply fifo_with_sleep_detection
  apply Exec.cons (Step.checkRead new false)
  apply Exec.cons (Step.write _ 7 false)
  apply Exec.cons (Step.flushFail _ _ rfl)
  apply Exec.single
  exact Step.flushSet _

end LibZmq.YPipe
