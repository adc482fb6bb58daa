import Mathlib.Data.List.Basic

/-!
# Loops over a source of values

`while (source.next (&v)) ...`: a loop that asks a stateful source for values
until it has none left. The source is any function that returns a value, or
`none`, and its next state; the number of rounds is bounded explicitly.

A *view* of the source says which values it is going to return. The rules below
reduce a loop to its view.
-/

namespace LibZmq.Core

variable {σ α : Type*}

/-- The values returned until the source fails, in at most `n` rounds. -/
def collect (next : σ → Option α × σ) : Nat → σ → List α × σ
  | 0, s => ([], s)
  | n + 1, s =>
      match next s with
      | (none, s') => ([], s')
      | (some v, s') =>
          let (vs, s'') := collect next n s'
          (v :: vs, s'')

/-- The first value that is not to be skipped, in at most `n` rounds. -/
def seek (next : σ → Option α × σ) (skip : α → Bool) : Nat → σ → Option α × σ
  | 0, s => (none, s)
  | n + 1, s =>
      match next s with
      | (none, s') => (none, s')
      | (some v, s') => if skip v then seek next skip n s' else (some v, s')

/-- `view` lists the values that `next` is going to return, in every state that
satisfies `Ok`. -/
structure IsView (next : σ → Option α × σ) (Ok : σ → Prop) (view : σ → List α) : Prop where
  ok : ∀ s, Ok s → Ok (next s).2
  head : ∀ s, Ok s → (next s).1 = (view s).head?
  tail : ∀ s, Ok s → view (next s).2 = (view s).tail

namespace IsView

variable {next : σ → Option α × σ} {Ok : σ → Prop} {view : σ → List α}

section
variable (h : IsView next Ok view) {s : σ} {P : σ → Prop}
include h

theorem next_of_nil (hs : Ok s) (hv : view s = []) : next s = (none, (next s).2) := by
  have hhead := h.head s hs
  rw [hv] at hhead
  exact Prod.ext hhead rfl

theorem next_of_cons (hs : Ok s) {v : α} {vs : List α}
    (hv : view s = v :: vs) : next s = (some v, (next s).2) ∧ view (next s).2 = vs := by
  have hhead := h.head s hs
  have htail := h.tail s hs
  rw [hv] at hhead htail
  exact ⟨Prod.ext hhead rfl, htail⟩

/-- Collecting returns the whole view. The last round is the one that fails. -/
theorem collect_eq (n : Nat) (hs : Ok s) (hn : (view s).length < n) :
    (collect next n s).1 = view s ∧ Ok (collect next n s).2 ∧ view (collect next n s).2 = [] := by
  induction n generalizing s with
  | zero => omega
  | succ n ih =>
    cases hv : view s with
    | nil =>
      have hnext := h.next_of_nil hs hv
      have htail := h.tail s hs
      rw [hv] at htail
      unfold collect
      rw [hnext]
      exact ⟨rfl, h.ok s hs, htail⟩
    | cons =>
      obtain ⟨hnext, hrest⟩ := h.next_of_cons hs hv
      rw [hv, List.length_cons] at hn
      obtain ⟨h1, h2, h3⟩ := ih (h.ok s hs) (by rw [hrest]; omega)
      unfold collect
      rw [hnext]
      exact ⟨by simp [h1, hrest], h2, h3⟩

/-- Collecting preserves whatever one round preserves. -/
theorem collect_preserves (hP : ∀ s, Ok s → P s → P (next s).2) (n : Nat) (hs : Ok s) (hp : P s) :
    P (collect next n s).2 := by
  induction n generalizing s with
  | zero => exact hp
  | succ n ih =>
    have hnext := hP s hs hp
    have hok := h.ok s hs
    unfold collect
    generalize next s = res at hnext hok
    obtain ⟨_ | v, s'⟩ := res
    · exact hnext
    · exact ih hok hnext

/-- Seeking splits the view at the first value that is not skipped. -/
theorem seek_eq (skip : α → Bool) (n : Nat) (hs : Ok s) (hn : (view s).length < n) :
    (seek next skip n s).1 = ((view s).dropWhile skip).head? ∧ Ok (seek next skip n s).2 ∧
      view (seek next skip n s).2 = ((view s).dropWhile skip).tail := by
  induction n generalizing s with
  | zero => omega
  | succ n ih =>
    cases hv : view s with
    | nil =>
      have hnext := h.next_of_nil hs hv
      have htail := h.tail s hs
      rw [hv] at htail
      unfold seek
      rw [hnext]
      exact ⟨rfl, h.ok s hs, htail⟩
    | cons v =>
      obtain ⟨hnext, hrest⟩ := h.next_of_cons hs hv
      rw [hv, List.length_cons] at hn
      unfold seek
      rw [hnext]
      by_cases hskip : skip v = true
      · have := ih (h.ok s hs) (by rw [hrest]; omega)
        rw [hrest] at this
        simpa [hskip] using this
      · simpa [hskip, hrest] using h.ok s hs

/-- A search that finds nothing ends with a round that fails. -/
theorem seek_none (skip : α → Bool) (n : Nat) (hs : Ok s)
    (hn : (view s).length < n) (hnone : (seek next skip n s).1 = none) :
    ∃ t, Ok t ∧ view t = [] ∧ (seek next skip n s).2 = (next t).2 := by
  induction n generalizing s with
  | zero => omega
  | succ n ih =>
    cases hv : view s with
    | nil =>
      have hnext := h.next_of_nil hs hv
      refine ⟨s, hs, hv, ?_⟩
      unfold seek
      rw [hnext]
    | cons v =>
      obtain ⟨hnext, hrest⟩ := h.next_of_cons hs hv
      rw [hv, List.length_cons] at hn
      unfold seek at hnone ⊢
      rw [hnext] at hnone ⊢
      by_cases hskip : skip v = true
      · simp only [hskip] at hnone ⊢
        exact ih (h.ok s hs) (by rw [hrest]; omega) hnone
      · simp [hskip] at hnone

/-- Seeking preserves whatever one round preserves. -/
theorem seek_preserves (skip : α → Bool) (hP : ∀ s, Ok s → P s → P (next s).2) (n : Nat) (hs : Ok s)
    (hp : P s) : P (seek next skip n s).2 := by
  induction n generalizing s with
  | zero => exact hp
  | succ n ih =>
    have hnext := hP s hs hp
    have hok := h.ok s hs
    unfold seek
    generalize next s = res at hnext hok
    obtain ⟨_ | v, s'⟩ := res
    · exact hnext
    simp only
    split
    · exact ih hok hnext
    · exact hnext

end
end IsView
end LibZmq.Core
