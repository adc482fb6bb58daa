import Mathlib.Logic.Relation

/-!
# Finite executions of a labelled step relation

Interleaving models are given as a step relation `step s e t`: from `s`, the
event `e` leads to `t`. An execution records the events it went through, so
that properties of the whole history can be stated about the trace and not
only about the last state.

* `Exec` — finite executions with their trace, oldest event first;
* `Guarded` — the same steps, restricted to those that meet a side condition;
* `Exec.invariant`, `Exec.invariant_trace` — the induction rules;
* `replay` — carrying out a list of inputs, for concrete executions;
* `bind_ok` — taking a sequence of calls apart.
-/

namespace LibZmq.Core

variable {σ ε : Type*}

/-- `Exec step s tr t`: some sequence of steps leads from `s` to `t`, and `tr`
lists its events in order. -/
inductive Exec (step : σ → ε → σ → Prop) : σ → List ε → σ → Prop where
  | nil (s : σ) : Exec step s [] s
  | snoc {s t u : σ} {tr : List ε} {e : ε} :
      Exec step s tr t → step t e u → Exec step s (tr ++ [e]) u

/-- The steps of `step` that meet the condition `guard` on the state before the
step and its event. -/
def Guarded (step : σ → ε → σ → Prop) (guard : σ → ε → Prop) (s : σ) (e : ε) (t : σ) : Prop :=
  step s e t ∧ guard s e

namespace Exec

variable {step : σ → ε → σ → Prop} {s t u : σ} {tr tr' : List ε}

theorem single {e : ε} (h : step s e t) : Exec step s [e] t :=
  .snoc (.nil s) h

theorem trans (h : Exec step s tr t) (h' : Exec step t tr' u) : Exec step s (tr ++ tr') u := by
  induction h' with
  | nil => simpa using h
  | snoc _ last ih =>
    rw [← List.append_assoc]
    exact .snoc ih last

theorem cons {e : ε} (h : step s e t) (h' : Exec step t tr u) : Exec step s (e :: tr) u :=
  (single h).trans h'

/-- Weaken the step relation along an execution. -/
theorem mono {step' : σ → ε → σ → Prop} (himp : ∀ a e b, step a e b → step' a e b)
    (h : Exec step s tr t) : Exec step' s tr t := by
  induction h with
  | nil => exact .nil _
  | snoc _ last ih => exact .snoc ih (himp _ _ _ last)

/-- A property of states that every step preserves holds along an execution. -/
theorem invariant (Inv : σ → Prop) (hstep : ∀ a e b, Inv a → step a e b → Inv b)
    (h : Exec step s tr t) (hs : Inv s) : Inv t := by
  induction h with
  | nil => exact hs
  | snoc _ last ih => exact hstep _ _ _ ih last

/-- The same rule for a property of the state and the trace that led to it. -/
theorem invariant_trace (Inv : List ε → σ → Prop)
    (hstep : ∀ l a e b, Inv l a → step a e b → Inv (l ++ [e]) b)
    (h : Exec step s tr t) (hs : Inv [] s) : Inv tr t := by
  induction h with
  | nil => exact hs
  | snoc _ last ih => exact hstep _ _ _ _ ih last

end Exec

/-! ## Concrete executions -/

section replay
variable {ι : Type*} {step : σ → ε → σ → Prop} {next : σ → ι → Option (ε × σ)}
  {enabled guard : σ → ι → Prop} {φ : Type*}

/-- Carry out the inputs one after the other, as `next` says. -/
def replay (next : σ → ι → Option (ε × σ)) (s : σ) : List ι → Option (List ε × σ)
  | [] => some ([], s)
  | a :: inputs =>
      match next s a with
      | none => none
      | some (e, t) => (replay next t inputs).map fun p => (e :: p.1, p.2)

section
variable (hnext : ∀ s a e t, next s a = some (e, t) → step s e t) {s : σ}
include hnext

theorem exec_of_replay (inputs : List ι) {t : σ} {tr : List ε}
    (h : replay next s inputs = some (tr, t)) : Exec step s tr t := by
  induction inputs generalizing s tr with
  | nil =>
    cases h
    exact .nil _
  | cons a _ ih =>
    unfold replay at h
    split at h
    · cases h
    rename_i e t' hfirst
    obtain ⟨⟨tr', u⟩, hrest, ⟨⟩⟩ := Option.map_eq_some_iff.mp h
    exact .cons (hnext _ _ _ _ hfirst) (ih hrest)

/-- The inputs lead to a state with the property `Q`. -/
theorem exists_exec_of_replay {Q : σ → Prop} [DecidablePred Q] (inputs : List ι)
    (h : (replay next s inputs).any (fun p => decide (Q p.2)) = true) :
    ∃ tr t, Exec step s tr t ∧ Q t := by
  cases hreplay : replay next s inputs with
  | none =>
    rw [hreplay] at h
    cases h
  | some p =>
    rw [hreplay] at h
    exact ⟨p.1, p.2, exec_of_replay hnext inputs hreplay, of_decide_eq_true h⟩

/-- The inputs lead to a state with the property `Q`, and with what follows from it. -/
theorem exists_exec_with (Q : σ → Prop) [DecidablePred Q] {R : List ε → σ → Prop} (inputs : List ι)
    (h : (replay next s inputs).any (fun p => decide (Q p.2)) = true)
    (hR : ∀ tr t, Exec step s tr t → Q t → R tr t) : ∃ tr t, Exec step s tr t ∧ R tr t := by
  obtain ⟨tr, t, hexec, hQ⟩ := exists_exec_of_replay hnext inputs h
  exact ⟨tr, t, hexec, hR tr t hexec hQ⟩

end

/-- Carry out an input that is allowed and does not fail. -/
def attempt {φ : Type*} (run : σ → ι → Except φ σ) (allowed : σ → ι → Prop)
    [∀ s a, Decidable (allowed s a)] (s : σ) (a : ι) : Option (ι × σ) :=
  if allowed s a then (run s a).toOption.map fun t => (a, t) else none

theorem attempt_eq_some {run : σ → ι → Except φ σ} {allowed : σ → ι → Prop}
    [∀ s a, Decidable (allowed s a)] {s t : σ} {a b : ι}
    (h : attempt run allowed s a = some (b, t)) : allowed s b ∧ run s b = .ok t := by
  unfold attempt at h
  split at h
  · rename_i hallowed
    cases hrun : run s a with
    | error =>
      rw [hrun] at h
      cases h
    | ok =>
      rw [hrun] at h
      cases h
      exact ⟨hallowed, hrun⟩
  · cases h

/-- An input that is enabled is a step. -/
theorem step_of_attempt {run : σ → ι → Except φ σ} [∀ s a, Decidable (enabled s a)] (s : σ)
    (a b : ι) (t : σ) (h : attempt run enabled s a = some (b, t)) : enabled s b ∧ run s b = .ok t :=
  attempt_eq_some h

/-- An input that is enabled and meets a side condition is a step. -/
theorem guarded_of_attempt {run : σ → ι → Except φ σ}
    [∀ s a, Decidable (enabled s a)] [∀ s a, Decidable (guard s a)] (s : σ) (a b : ι) (t : σ)
    (h : attempt run (fun s a => enabled s a ∧ guard s a) s a = some (b, t)) :
    Guarded (fun s a t => enabled s a ∧ run s a = .ok t) guard s b t := by
  obtain ⟨⟨henabled, hguard⟩, hrun⟩ := attempt_eq_some h
  exact ⟨⟨henabled, hrun⟩, hguard⟩

/-- The same for steps that do not fail. -/
theorem step_of_pure {next : σ → ι → σ} [∀ s a, Decidable (enabled s a)] (s : σ) (a b : ι) (t : σ)
    (h : attempt (φ := Unit) (fun s a => .ok (next s a)) enabled s a = some (b, t)) :
    enabled s b ∧ next s b = t :=
  (attempt_eq_some h).imp_right Except.ok.inj

theorem guarded_of_pure {next : σ → ι → σ}
    [∀ s a, Decidable (enabled s a)] [∀ s a, Decidable (guard s a)] (s : σ) (a b : ι) (t : σ)
    (h : attempt (φ := Unit) (fun s a => .ok (next s a)) (fun s a => enabled s a ∧ guard s a) s a =
      some (b, t)) : Guarded (fun s a t => enabled s a ∧ next s a = t) guard s b t := by
  obtain ⟨⟨henabled, hguard⟩, heq⟩ := step_of_pure s a b t h
  exact ⟨⟨henabled, heq⟩, hguard⟩

end replay
end LibZmq.Core

namespace LibZmq

variable {ε β γ : Type} {g : β → Except ε γ}

@[simp] theorem ok_bind (b : β) : (Except.ok b >>= g) = g b := rfl

@[simp] theorem error_bind (e : ε) : (Except.error e >>= g) = .error e := rfl

theorem foldlM_singleton (f : γ → β → Except ε γ) (c : γ) (b : β) : [b].foldlM f c = f c b := by
  cases h : f c b <;> simp [h]

/-- Two calls in a row succeed if both do. -/
theorem bind_ok {f : Except ε β} {c : γ}
    (h : (f >>= g) = .ok c) : ∃ b, f = .ok b ∧ g b = .ok c := by
  cases f with
  | error => cases h
  | ok b => exact ⟨b, rfl, h⟩

/-- The result of a call is changed only if the call succeeds. -/
theorem map_ok {f : Except ε β} {g : β → γ} {c : γ} (h : f.map g = .ok c) :
    ∃ b, f = .ok b ∧ g b = c := by
  cases f with
  | error => cases h
  | ok b => exact ⟨b, rfl, Except.ok.inj h⟩

theorem map_ne_error {f : Except ε β} {g : β → γ} {e : ε} (hf : f ≠ .error e) :
    f.map g ≠ .error e := by
  cases f with
  | error => exact fun h => hf (congrArg Except.error (Except.error.inj h))
  | ok => nofun

/-- Two calls in a row fail in some way only if one of them does. -/
theorem bind_ne_error {f : Except ε β} {e : ε}
    (hf : f ≠ .error e) (hg : ∀ b, f = .ok b → g b ≠ .error e) : (f >>= g) ≠ .error e := by
  cases f with
  | error => exact fun h => hf (congrArg Except.error (Except.error.inj h))
  | ok b => exact hg b rfl

end LibZmq
