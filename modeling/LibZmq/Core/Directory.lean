import Mathlib.Data.Finset.Basic
import Mathlib.Data.Set.Function
import Mathlib.Data.List.AList

/-!
# Directories

A directory is a finite map from names to entries, each of which belongs to a member. Every
member keeps its own name, so the map and the names have to agree (`Registers`). Then names are
different, and a member is found under its name.
-/

namespace LibZmq.Core

open AList Finset Function

variable {κ ε π : Type*} [DecidableEq κ] [DecidableEq π]

/-- The map `t` has one entry for each member of `S`, under its name. -/
structure Registers (t : AList fun _ : κ => ε) (owner : ε → π) (name : π → κ) (S : Finset π) :
    Prop where
  sound : ∀ {k e}, t.lookup k = some e → owner e ∈ S ∧ name (owner e) = k
  complete : ∀ {p}, p ∈ S → ∃ e, t.lookup (name p) = some e ∧ owner e = p

namespace Registers

variable {t : AList fun _ : κ => ε} {owner : ε → π} {name : π → κ} {S : Finset π} {k : κ}
  {e e' : ε} {p : π}

omit [DecidableEq π] in
theorem empty (owner : ε → π) (name : π → κ) : Registers (∅ : AList fun _ : κ => ε) owner name ∅ :=
  ⟨fun h => by simp at h, nofun⟩

omit [DecidableEq π] in
theorem injOn (h : Registers t owner name S) : Set.InjOn name S := by
  intro p hp q hq hname
  obtain ⟨e, he, rfl⟩ := h.complete hp
  obtain ⟨e', he', rfl⟩ := h.complete hq
  rw [hname, he'] at he
  cases he
  rfl

section
variable (h : Registers t owner name S)
include h

omit [DecidableEq π] in
theorem mem_iff : k ∈ t ↔ ∃ p ∈ S, name p = k := by
  rw [← lookup_isSome, Option.isSome_iff_exists]
  constructor
  · rintro ⟨e, he⟩
    exact ⟨owner e, h.sound he⟩
  · rintro ⟨p, hp, rfl⟩
    obtain ⟨e, he, -⟩ := h.complete hp
    exact ⟨e, he⟩

theorem add (hk : k ∉ t) (hp : p ∉ S) (he : owner e = p) :
    Registers (t.insert k e) owner (update name p k) (insert p S) where
  sound {k' e'} hlook := by
    by_cases hkk : k' = k
    · subst hkk
      rw [lookup_insert] at hlook
      cases hlook
      subst he
      exact ⟨mem_insert_self .., update_self ..⟩
    · rw [lookup_insert_ne hkk] at hlook
      obtain ⟨hmem, hname⟩ := h.sound hlook
      have hne : owner e' ≠ p := fun heq => hp (heq ▸ hmem)
      exact ⟨mem_insert_of_mem hmem, by rw [update_of_ne hne, hname]⟩
  complete {q} hq := by
    by_cases hqp : q = p
    · subst hqp
      exact ⟨e, by rw [update_self, lookup_insert], he⟩
    have hmem := (mem_insert.mp hq).resolve_left hqp
    obtain ⟨e', he', howner⟩ := h.complete hmem
    have hne : name q ≠ k := by
      rintro rfl
      rw [lookup_eq_none.mpr hk] at he'
      cases he'
    exact ⟨e', by rw [update_of_ne hqp, lookup_insert_ne hne, he'], howner⟩

theorem remove (hp : p ∈ S) : Registers (t.erase (name p)) owner name (S.erase p) where
  sound {k e} hlook := by
    have hne : k ≠ name p := by
      rintro rfl
      rw [lookup_erase] at hlook
      cases hlook
    rw [lookup_erase_ne hne] at hlook
    obtain ⟨hmem, hname⟩ := h.sound hlook
    refine ⟨mem_erase.mpr ⟨?_, hmem⟩, hname⟩
    rintro rfl
    exact hne hname.symm
  complete {q} hq := by
    obtain ⟨hne, hmem⟩ := mem_erase.mp hq
    have hname : name q ≠ name p := fun heq => hne (h.injOn hmem hp heq)
    rw [lookup_erase_ne hname]
    exact h.complete hmem

end

omit [DecidableEq π] in
/-- An entry is replaced by another one of the same member. -/
theorem replace (h : Registers t owner name S) (hlook : t.lookup k = some e)
    (hsame : owner e' = owner e) : Registers (t.insert k e') owner name S where
  sound {k' e''} hlook' := by
    by_cases hkk : k' = k
    · subst hkk
      rw [lookup_insert] at hlook'
      cases hlook'
      rw [hsame]
      exact h.sound hlook
    · rw [lookup_insert_ne hkk] at hlook'
      exact h.sound hlook'
  complete {q} hq := by
    obtain ⟨e'', he, howner⟩ := h.complete hq
    by_cases hkk : name q = k
    · rw [hkk, hlook] at he
      cases he
      exact ⟨e', by rw [hkk, lookup_insert], hsame.trans howner⟩
    · exact ⟨e'', by rw [lookup_insert_ne hkk, he], howner⟩

end Registers
end LibZmq.Core
