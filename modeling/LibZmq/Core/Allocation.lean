import Mathlib.Data.List.Nodup
import Mathlib.Logic.Function.Basic

/-!
# Objects with one owner

Objects are named `0, 1, 2, …` in the order of their creation. `held i` lists
the objects that owner `i` is responsible for, and `deleted q` counts how often
object `q` has been deleted.

`Allocated` says that every object has one owner until it is deleted, and is
deleted once. It survives creation, deletion by the owner, and every handover
that leaves the lists alone.
-/

namespace LibZmq.Core

open Function List

variable {ι : Type*}

structure Allocated (held : ι → List Nat) (created : Nat) (deleted : Nat → Nat) : Prop where
  nodup : ∀ i, (held i).Nodup
  disjoint : ∀ {i j q}, i ≠ j → q ∈ held i → q ∉ held j
  live : ∀ {i q}, q ∈ held i → q < created ∧ deleted q = 0
  gone : ∀ {q}, q < created → (∀ i, q ∉ held i) → deleted q = 1
  unborn : ∀ {q}, created ≤ q → deleted q = 0

namespace Allocated

variable [DecidableEq ι] {held : ι → List Nat} {created : Nat} {deleted : Nat → Nat}

/-- A new object goes to the end of its owner's list. -/
theorem create (h : Allocated held created deleted) (i : ι) :
    Allocated (update held i (held i ++ [created])) (created + 1) deleted := by
  -- the new name is in no list yet
  have hnew : ∀ j, created ∉ held j := fun j hj => Nat.lt_irrefl _ (h.live hj).1
  have hmem : ∀ {j q}, q ∈ update held i (held i ++ [created]) j →
      q ∈ held j ∨ q = created ∧ j = i := by
    intro j q hq
    by_cases hj : j = i
    · subst hj
      rw [update_self, mem_append, mem_singleton] at hq
      exact hq.imp id (fun e => ⟨e, rfl⟩)
    · rw [update_of_ne hj] at hq
      exact .inl hq
  have hmono : ∀ {j q}, q ∈ held j → q ∈ update held i (held i ++ [created]) j := by
    intro j q hq
    by_cases hj : j = i
    · subst hj
      rw [update_self]
      exact mem_append_left _ hq
    · rwa [update_of_ne hj]
  refine ⟨?_, ?_, ?_, ?_, ?_⟩
  · intro j
    by_cases hj : j = i
    · subst hj
      rw [update_self]
      exact nodup_append.mpr ⟨h.nodup j, nodup_singleton _, fun a ha b hb e =>
        hnew j (mem_singleton.mp hb ▸ e ▸ ha)⟩
    · rw [update_of_ne hj]
      exact h.nodup j
  · intro j k q hjk hj hk
    rcases hmem hj with hold | ⟨rfl, rfl⟩
    · rcases hmem hk with hold' | ⟨rfl, -⟩
      · exact h.disjoint hjk hold hold'
      · exact hnew j hold
    · rcases hmem hk with hold' | ⟨-, e⟩
      · exact hnew k hold'
      · exact hjk e.symm
  · intro j q hq
    rcases hmem hq with hq | ⟨rfl, -⟩
    · exact ⟨Nat.lt_succ_of_lt (h.live hq).1, (h.live hq).2⟩
    · exact ⟨Nat.lt_succ_self _, h.unborn Nat.le.refl⟩
  · intro q hq hnone
    rcases Nat.lt_succ_iff_lt_or_eq.mp hq with hq | rfl
    · exact h.gone hq fun j hj => hnone j (hmono hj)
    · exact absurd (by simp) (hnone i)
  · intro q hq
    exact h.unborn (Nat.le_of_succ_le hq)

/-- The owner deletes the first object of its list. -/
theorem delete (h : Allocated held created deleted) {i : ι} {q : Nat} {l : List Nat}
    (hi : held i = q :: l) :
    Allocated (update held i l) created (update deleted q (deleted q + 1)) := by
  have hq : q ∈ held i := hi ▸ mem_cons_self
  have hnodup := h.nodup i
  rw [hi, nodup_cons] at hnodup
  have hmem : ∀ {j p}, p ∈ update held i l j → p ∈ held j ∧ p ≠ q := by
    intro j p hp
    by_cases hj : j = i
    · subst hj
      rw [update_self] at hp
      exact ⟨hi ▸ mem_cons_of_mem _ hp, fun e => hnodup.1 (e ▸ hp)⟩
    · rw [update_of_ne hj] at hp
      exact ⟨hp, fun e => h.disjoint hj hp (e ▸ hq)⟩
  refine ⟨?_, ?_, ?_, ?_, ?_⟩
  · intro j
    by_cases hj : j = i
    · subst hj
      rw [update_self]
      exact hnodup.2
    · rw [update_of_ne hj]
      exact h.nodup j
  · intro j k p hjk hj hk
    exact h.disjoint hjk (hmem hj).1 (hmem hk).1
  · intro j p hp
    obtain ⟨hp, hne⟩ := hmem hp
    rw [update_of_ne hne]
    exact h.live hp
  · intro p hp hnone
    by_cases e : p = q
    · subst e
      rw [update_self, (h.live hq).2]
    rw [update_of_ne e]
    refine h.gone hp fun j hj => hnone j ?_
    by_cases hji : j = i
    · subst hji
      rw [hi] at hj
      rw [update_self]
      exact (mem_cons.mp hj).resolve_left e
    · rwa [update_of_ne hji]
  · intro p hp
    have hne : p ≠ q := by
      intro e
      have := (h.live hq).1
      omega
    rw [update_of_ne hne]
    exact h.unborn hp

end Allocated
end LibZmq.Core
