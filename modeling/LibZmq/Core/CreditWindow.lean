import Mathlib.Data.List.Basic
import Mathlib.Order.Nat
import Mathlib.Tactic.Common

/-!
# Flow control by reports

A writer and a reader share a queue. The writer counts what it has written, the
reader what it has read, and from time to time the reader sends its count to the
writer, over a channel that keeps the order. The writer stops when too much is
outstanding, that is, written and not reported as read, and goes on when a report
arrives.

All counts are totals, natural numbers that never wrap. When the writer has to stop
is given by a predicate `full` of the outstanding amount, when the reader reports by
a predicate `due` of its count.

* `CreditWindow.Step` — everything the two parties can do;
* `CreditWindow.Ordered` — reports arrive in order and never run ahead of the reader;
* `CreditWindow.Live` — the reader will report, and the writer will be woken, in time;
* `CreditWindow.Committed` — a writer in the middle of a message can go on.
-/

namespace LibZmq.Core

open List

/-- The state of a queue under flow control. -/
structure CreditWindow where
  written : ℕ
  read : ℕ
  /-- The last count of the reader that the writer has seen. -/
  seen : ℕ
  /-- The counts on the way to the writer, oldest first. -/
  reports : List ℕ
  stopped : Bool
  /-- The writer is in the middle of a message. -/
  begun : Bool

namespace CreditWindow

/-- The last count that the reader has sent. -/
def lastReport (v : CreditWindow) : ℕ := v.reports.getLastD v.seen

/-- Written, and not known to be read. -/
def outstanding (v : CreditWindow) : ℕ := v.written - v.seen

/-- One step. `lossy` says whether messages may be discarded on the way. -/
inductive Step (full due : ℕ → Prop) [DecidablePred due] (lossy : Prop) (v : CreditWindow) :
    CreditWindow → Prop where
  | idle : Step full due lossy v v
  | write : v.stopped = false → ¬ full v.outstanding →
      Step full due lossy v { v with written := v.written + 1, begun := false }
  /-- Write a part that does not count. -/
  | writePart (more : Bool) : v.stopped = false → ¬ full v.outstanding →
      Step full due lossy v { v with begun := more }
  | abandon : Step full due lossy v { v with begun := false }
  | stop : full v.outstanding → Step full due lossy v { v with stopped := true }
  | read : v.read < v.written →
      Step full due lossy v
        { v with
          read := v.read + 1
          reports := v.reports ++ if due (v.read + 1) then [v.read + 1] else [] }
  /-- Read a part that does not count. -/
  | readPart :
      Step full due lossy v
        { v with reports := v.reports ++ if due v.read then [v.read] else [] }
  | discard : lossy →
      Step full due lossy v { v with written := v.read, stopped := false, begun := false }
  | credit {n rest} : v.reports = n :: rest →
      Step full due lossy v { v with seen := n, reports := rest, stopped := false }

variable {full due : ℕ → Prop} [DecidablePred due] {lossy : Prop} {v v' : CreditWindow}
  {rest : List ℕ}

theorem Step.lossless (hs : Step full due lossy v v') (h : ¬ lossy) : Step full due False v v' := by
  cases hs with
  | idle => exact .idle
  | write h1 h2 => exact .write h1 h2
  | writePart more h1 h2 => exact .writePart more h1 h2
  | abandon => exact .abandon
  | stop h1 => exact .stop h1
  | read h1 => exact .read h1
  | readPart => exact .readPart
  | discard hl => exact absurd hl h
  | credit h1 => exact .credit h1

/-! ## The last report -/

theorem lastReport_nil (h : v.reports = []) : v.lastReport = v.seen := by
  rw [lastReport, h]
  rfl

theorem lastReport_credit {n : ℕ} (h : v.reports = n :: rest) : rest.getLastD n = v.lastReport := by
  rw [lastReport, h, getLastD_cons]

theorem lastReport_mem : v.lastReport ∈ v.seen :: v.reports := by
  cases hr : v.reports with
  | nil => simp [lastReport_nil hr]
  | cons n rest =>
    rw [lastReport, hr, getLastD_cons, ← getLast_eq_getLastD (cons_ne_nil n rest)]
    exact mem_cons_of_mem _ (getLast_mem _)

/-! ## Order of the counts -/

/-- The reports arrive in order, and nothing is reported or read too early. -/
structure Ordered (v : CreditWindow) : Prop where
  sorted : (v.seen :: v.reports).Pairwise (· ≤ ·)
  le_read : ∀ n ∈ v.seen :: v.reports, n ≤ v.read
  read_le : v.read ≤ v.written

namespace Ordered

section
variable (h : Ordered v)
include h

theorem seen_le : v.seen ≤ v.read := h.le_read _ mem_cons_self

theorem lastReport_le : v.lastReport ≤ v.read := h.le_read _ lastReport_mem

theorem seen_le_lastReport : v.seen ≤ v.lastReport := by
  rcases mem_cons.mp (lastReport_mem) with e | hmem
  · exact e.ge
  · exact rel_of_pairwise_cons h.sorted hmem

private theorem report {n : ℕ} {r : List ℕ} (hn : v.read ≤ n)
    (hr : r = [n] ∨ r = []) : (v.seen :: (v.reports ++ r)).Pairwise (· ≤ ·) := by
  rw [← cons_append]
  rcases hr with rfl | rfl
  · rw [pairwise_append]
    refine ⟨h.sorted, pairwise_singleton _ _, ?_⟩
    intro a ha b hb
    rw [mem_singleton.mp hb]
    exact (h.le_read a ha).trans hn
  · simpa using h.sorted

private theorem le_of_report {n : ℕ} {r : List ℕ} (hn : v.read ≤ n)
    (hr : r = [n] ∨ r = []) : ∀ a ∈ v.seen :: (v.reports ++ r), a ≤ n := by
  rw [← cons_append]
  intro a ha
  rcases mem_append.mp ha with ha | ha
  · exact (h.le_read a ha).trans hn
  · rcases hr with rfl | rfl
    · exact (mem_singleton.mp ha).le
    · cases ha

theorem step (hs : Step full due lossy v v') : Ordered v' := by
  cases hs with
  | idle => exact h
  | write => exact ⟨h.sorted, h.le_read, Nat.le_succ_of_le h.read_le⟩
  | writePart | abandon | stop => exact { h with }
  | read hlt =>
    have hr := ite_eq_or_eq (due (v.read + 1)) [v.read + 1] []
    exact ⟨h.report (Nat.le_succ _) hr, h.le_of_report (Nat.le_succ _) hr, hlt⟩
  | readPart =>
    have hr := ite_eq_or_eq (due v.read) [v.read] []
    exact ⟨h.report le_rfl hr, h.le_of_report le_rfl hr, h.read_le⟩
  | discard => exact ⟨h.sorted, h.le_read, le_rfl⟩
  | credit hn =>
    have hsorted := h.sorted
    rw [hn] at hsorted
    refine ⟨hsorted.tail, fun a ha => h.le_read a ?_, h.read_le⟩
    rw [hn]
    exact mem_cons_of_mem _ ha

end

end Ordered

/-! ## How much is outstanding -/

theorem Step.written_le (hs : Step full due lossy v v') (ho : Ordered v) :
    v'.written ≤ v.written + 1 := by
  cases hs with
  | write => exact le_rfl
  | discard => exact Nat.le_succ_of_le ho.read_le
  | idle | writePart | abandon | stop | read | readPart | credit => exact Nat.le_succ _

/-- A report can only lower what is outstanding. -/
theorem outstanding_credit (ho : Ordered v) {n : ℕ} (h : v.reports = n :: rest) :
    v.written - n ≤ v.outstanding := by
  have hsorted := ho.sorted
  rw [h] at hsorted
  exact Nat.sub_le_sub_left (rel_of_pairwise_cons hsorted mem_cons_self) _

/-- The writer keeps to a bound that `full` enforces. -/
theorem Step.outstanding_le (hs : Step full due lossy v v') (ho : Ordered v) {B : ℕ}
    (hfull : ¬ full v.outstanding → v.outstanding < B) (h : v.outstanding ≤ B) :
    v'.outstanding ≤ B := by
  cases hs with
  | write _ hroom =>
    have hlt := hfull hroom
    simp only [outstanding] at hlt ⊢
    omega
  | idle | writePart | abandon | stop | read | readPart => exact h
  | discard => exact (Nat.sub_le_sub_right ho.read_le _).trans h
  | credit hn => exact (outstanding_credit ho hn).trans h

/-! ## Nobody waits for ever -/

/-- The reader will report before the writer has to stop, and a writer that has stopped
will get a report. `H` is the amount the writer may have outstanding. -/
structure Live (due : ℕ → Prop) (H : ℕ) (v : CreditWindow) : Prop where
  /-- The next report is due before the writer stops, or is among what is written. -/
  willReport : ∃ d, v.read < d ∧ due d ∧ (d ≤ v.lastReport + H ∨ d ≤ v.written)
  willWake : v.stopped = false ∨ v.reports ≠ [] ∨ ∃ d, v.read < d ∧ d ≤ v.written ∧ due d

namespace Live

variable {H : ℕ}

omit [DecidablePred due] in
/-- A count that is not due is not the next one to be reported. -/
private theorem next {d : ℕ} (hd : due d) (hlt : v.read < d) (hnot : ¬ due (v.read + 1)) :
    v.read + 1 < d :=
  lt_of_le_of_ne hlt fun e => hnot (by rwa [← e] at hd)

omit [DecidablePred due] in
private theorem of_report (hdense : ∀ n, ∃ d, n < d ∧ d ≤ n + H ∧ due d) (n : ℕ)
    (hread : v.read = n) (hr : v.reports ≠ []) (hlast : v.lastReport = n) : Live due H v := by
  obtain ⟨d, h1, h2, h3⟩ := hdense n
  exact ⟨⟨d, hread ▸ h1, h3, .inl (hlast ▸ h2)⟩, .inr (.inl hr)⟩

/-- **No step makes a party wait for ever**, when the writer only stops at `H` and among
any `H` consecutive counts one is reported. -/
theorem step (h : Live due H v) (hs : Step full due False v v') (ho : Ordered v)
    (hfull : full v.outstanding → H ≤ v.outstanding)
    (hdense : ∀ n, ∃ d, n < d ∧ d ≤ n + H ∧ due d) : Live due H v' := by
  obtain ⟨⟨d, hlt, hdue, hd⟩, hwake⟩ := h
  cases hs with
  | idle | writePart | abandon => exact ⟨⟨d, hlt, hdue, hd⟩, hwake⟩
  | write hstop => exact ⟨⟨d, hlt, hdue, hd.imp_right Nat.le_succ_of_le⟩, .inl hstop⟩
  | stop hcond =>
    refine ⟨⟨d, hlt, hdue, hd⟩, .inr ?_⟩
    -- with no report on the way, the next one is among what is written
    by_cases hr : v.reports = []
    · rw [lastReport_nil hr] at hd
      have hseen := ho.seen_le
      have hH := hfull hcond
      simp only [outstanding] at hH
      have hle : d ≤ v.written := by omega
      exact .inr ⟨d, hlt, hle, hdue⟩
    · exact .inl hr
  | read =>
    by_cases hnow : due (v.read + 1)
    · exact of_report hdense (v.read + 1) rfl (by simp [hnow]) (by simp [lastReport, hnow])
    have hlt' := next hdue hlt hnow
    refine ⟨⟨d, hlt', hdue, by simpa [lastReport, hnow] using hd⟩, ?_⟩
    refine hwake.imp_right (Or.imp (by simp [hnow]) ?_)
    rintro ⟨e, he, hle, hde⟩
    exact ⟨e, next hde he hnow, hle, hde⟩
  | readPart =>
    by_cases hnow : due v.read
    · exact of_report hdense v.read rfl (by simp [hnow]) (by simp [lastReport, hnow])
    · exact ⟨⟨d, hlt, hdue, by simpa [hnow] using hd⟩, by simpa [hnow] using hwake⟩
  | discard hno => exact hno.elim
  | credit hn =>
    refine ⟨⟨d, hlt, hdue, ?_⟩, .inl rfl⟩
    rwa [← lastReport_credit hn] at hd

omit [DecidablePred due] in
/-- Once everything is read and every report has arrived, the writer can write. -/
theorem not_stalled (h : Live due H v) (ho : Ordered v) (hread : v.read = v.written)
    (hr : v.reports = []) : v.outstanding < H ∧ v.stopped = false := by
  obtain ⟨⟨d, hlt, -, hd⟩, hwake⟩ := h
  rw [lastReport_nil hr] at hd
  constructor
  · have hseen := ho.seen_le
    simp only [outstanding]
    omega
  · rcases hwake with hwake | hwake | ⟨e, he, hle, -⟩
    · exact hwake
    · exact absurd hr hwake
    · omega

end Live

/-! ## The reader's last count -/

/-- A count that is due has been reported. -/
def CaughtUp (due : ℕ → Prop) (v : CreditWindow) : Prop := due v.read → v.lastReport = v.read

theorem CaughtUp.step (h : CaughtUp due v) (hs : Step full due lossy v v') : CaughtUp due v' := by
  cases hs with
  | idle | write | writePart | abandon | stop | discard => exact h
  | read =>
    intro hdue
    have hdue' : due (v.read + 1) := hdue
    simp [lastReport, hdue']
  | readPart =>
    intro hdue
    have hdue' : due v.read := hdue
    simp [lastReport, hdue']
  | credit hn =>
    intro hdue
    exact (lastReport_credit hn).trans (h hdue)

/-! ## Messages of several parts -/

/-- A writer in the middle of a message may write the next part. -/
def Committed (full : ℕ → Prop) (v : CreditWindow) : Prop :=
  v.begun = true → v.stopped = false ∧ ¬ full v.outstanding

theorem Committed.step (h : Committed full v) (hs : Step full due False v v') (ho : Ordered v)
    (hmono : ∀ a ≤ v.outstanding, full a → full v.outstanding) : Committed full v' := by
  cases hs with
  | idle | read | readPart => exact h
  | write | abandon =>
    intro hbegun
    cases hbegun
  | writePart _ hstop hroom => exact fun _ => ⟨hstop, hroom⟩
  | stop hcond => exact fun hbegun => absurd hcond (h hbegun).2
  | discard hno => exact hno.elim
  | credit hn =>
    intro hbegun
    exact ⟨rfl, fun hcond => (h hbegun).2 (hmono _ (outstanding_credit ho hn) hcond)⟩

end CreditWindow
end LibZmq.Core
