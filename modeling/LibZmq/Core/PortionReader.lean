import Mathlib.Data.List.Basic

/-!
# Machines that read portions of known size

A parser for a size-prefixed format knows at any moment how many more items it needs before it
can do something. Such a parser is given by the size of the next portion (`need`) and by what it
does when the portion is complete (`next`). It can be fed item by item (`feed`), so that the
outcome does not depend on how the input is cut into pieces (`feed_append`).
-/

namespace LibZmq.Core

open List

variable {α σ ε μ : Type*}

/-- A machine that reads items of type `α` and produces messages of type `μ`. -/
structure PortionReader (α σ ε μ : Type*) where
  /-- The size of the next portion. -/
  need : σ → Nat
  /-- What happens when the portion is complete. -/
  next : σ → List α → Except ε (Option μ × σ)

/-- A state, and what has arrived of the next portion. -/
@[ext]
structure Cursor (α σ : Type*) where
  state : σ
  got : List α

namespace PortionReader

variable (R : PortionReader α σ ε μ)

/-- The portion is complete. A state that needs nothing is left at once. -/
def complete (s : σ) (portion : List α) : Except ε (Option μ × σ) :=
  match R.next s portion with
  | .ok (none, s') => if R.need s' = 0 then R.next s' [] else .ok (none, s')
  | r => r

/-- One more item. -/
def push (c : Cursor α σ) (a : α) : Except ε (Option μ × Cursor α σ) :=
  if c.got.length + 1 < R.need c.state then .ok (none, ⟨c.state, c.got ++ [a]⟩)
  else (R.complete c.state (c.got ++ [a])).map fun r => (r.1, ⟨r.2, []⟩)

/-- All items in turn: the messages, and how it ends. -/
def feed (c : Cursor α σ) : List α → List μ × Except ε (Cursor α σ)
  | [] => ([], .ok c)
  | a :: as =>
      match R.push c a with
      | .error e => ([], .error e)
      | .ok (m, c') => (m.toList ++ (feed c' as).1, (feed c' as).2)

/-- The machine never waits for nothing: a state that needs nothing gives a message or fails, and
after a message something is needed. -/
structure Progressive : Prop where
  zero : ∀ s s', R.need s = 0 → R.next s [] ≠ .ok (none, s')
  message : ∀ s portion m s', R.next s portion = .ok (some m, s') → 0 < R.need s'

variable {R} {c c' : Cursor α σ} {s : σ} {m : μ} {e : ε} {xs ys : List α} {ms : List μ}

/-- What follows is fed to the state in which the first part ends. -/
theorem feed_append (xs ys : List α) : R.feed c (xs ++ ys) = match R.feed c xs with
    | (ms, .error e) => (ms, .error e)
    | (ms, .ok c') => (ms ++ (R.feed c' ys).1, (R.feed c' ys).2) := by
  induction xs generalizing c with
  | nil => simp [feed]
  | cons a xs ih =>
    rw [cons_append, feed, feed]
    cases R.push c a with
    | error => rfl
    | ok r =>
      obtain ⟨-, c'⟩ := r
      simp only [ih]
      cases hrest : R.feed c' xs with
      | mk _ o => cases o <;> simp

theorem feed_append_of_ok (h : R.feed c xs = (ms, .ok c')) :
    R.feed c (xs ++ ys) = (ms ++ (R.feed c' ys).1, (R.feed c' ys).2) := by
  rw [feed_append, h]

theorem feed_append_of_error (h : R.feed c xs = (ms, .error e)) :
    R.feed c (xs ++ ys) = (ms, .error e) := by
  rw [feed_append, h]

theorem feed_short (xs : List α) (h : c.got.length + xs.length < R.need c.state) :
    R.feed c xs = ([], .ok ⟨c.state, c.got ++ xs⟩) := by
  induction xs generalizing c with
  | nil => simp [feed]
  | cons a _ ih =>
    simp only [length_cons] at h
    have hpush : R.push c a = .ok (none, ⟨c.state, c.got ++ [a]⟩) := by
      rw [push, if_pos (by omega)]
    have hrest := ih (c := ⟨c.state, c.got ++ [a]⟩) (by simp; omega)
    rw [feed, hpush]
    simp [hrest]

theorem feed_portion {xs : List α} (hne : xs ≠ []) (h : c.got.length + xs.length = R.need c.state) :
    R.feed c xs = match R.complete c.state (c.got ++ xs) with
      | .error e => ([], .error e)
      | .ok (m, s') => (m.toList, .ok ⟨s', []⟩) := by
  obtain ⟨ys, a, rfl⟩ := eq_nil_or_concat xs |>.resolve_left hne
  rw [concat_eq_append] at h ⊢
  simp only [length_append, length_singleton] at h
  rw [feed_append_of_ok (feed_short ys (by omega))]
  simp only [feed, push, length_append, append_assoc]
  rw [if_neg (by omega)]
  cases R.complete c.state (c.got ++ (ys ++ [a])) with
  | error => rfl
  | ok => simp [Except.map]

section whole

/-! ### A whole portion -/

variable {s' s'' : σ} {xs : List α}

section
variable (hneed : xs.length = R.need s) (hpos : 0 < R.need s)
include hneed hpos

theorem feed_whole : R.feed ⟨s, []⟩ xs = match R.complete s xs with
    | .error e => ([], .error e)
    | .ok (m, s') => (m.toList, .ok ⟨s', []⟩) :=
  feed_portion (ne_nil_of_length_pos (hneed ▸ hpos)) (by simpa using hneed)

theorem feed_of_error (h : R.next s xs = .error e) : R.feed ⟨s, []⟩ xs = ([], .error e) := by
  rw [feed_whole hneed hpos, complete, h]

theorem feed_of_step (h : R.next s xs = .ok (none, s')) (hpos' : 0 < R.need s') :
    R.feed ⟨s, []⟩ xs = ([], .ok ⟨s', []⟩) := by
  rw [feed_whole hneed hpos, complete, h]
  simp only
  rw [if_neg (Nat.ne_of_gt hpos')]
  rfl

theorem feed_of_message (h : R.next s xs = .ok (some m, s')) :
    R.feed ⟨s, []⟩ xs = ([m], .ok ⟨s', []⟩) := by
  rw [feed_whole hneed hpos, complete, h]
  rfl

/-- The portion that follows may be empty. -/
theorem feed_of_step_message {ys : List α} (h : R.next s xs = .ok (none, s'))
    (hneed' : ys.length = R.need s') (h' : R.next s' ys = .ok (some m, s'')) :
    R.feed ⟨s, []⟩ (xs ++ ys) = ([m], .ok ⟨s'', []⟩) := by
  by_cases hpos' : 0 < R.need s'
  · rw [feed_append_of_ok (feed_of_step hneed hpos h hpos'), feed_of_message hneed' hpos' h']
    rfl
  have hzero : R.need s' = 0 := Nat.eq_zero_of_not_pos hpos'
  obtain rfl : ys = [] := length_eq_zero_iff.mp (hneed'.trans hzero)
  rw [append_nil, feed_whole hneed hpos, complete, h]
  simp [if_pos hzero, h']

end
end whole

/-- A sequence of frames, each of which leads back to the start. -/
theorem feed_flatMap {ι : Type*} {frame : ι → List α} {result : ι → μ} (items : List ι)
    (h : ∀ i ∈ items, R.feed c (frame i) = ([result i], .ok c)) :
    R.feed c (items.flatMap frame) = (items.map result, .ok c) := by
  induction items with
  | nil => rfl
  | cons i _ ih =>
    rw [flatMap_cons, feed_append_of_ok (h i mem_cons_self),
      ih fun j hj => h j (mem_cons_of_mem i hj)]
    rfl

end PortionReader
end LibZmq.Core
