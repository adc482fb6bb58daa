import LibZmq.Core.IndexedArray

/-!
# Arrays with an active part and a cursor

Some of the items of an array are active; they stand at its beginning. The cursor is the
position of the active item whose turn it is. Items become active and inactive by changing
places with the item at the border, so that nothing else moves.

* `Joins` — an item becomes active;
* `Leaves` — an active item becomes inactive, and the last active one takes its place;
* `Forgets` — an item is removed.

The cursor is a position and not an item. `Leaves.current` and `Forgets.current` say when
it still stands at the same item.
-/

namespace LibZmq.Core

open IndexedArray

variable {α : Type*}

/-- An array of items, the first `active` of which are active, and a cursor. -/
structure ActiveArray (α : Type*) where
  items : IndexedArray α
  active : Nat
  current : Nat

namespace ActiveArray

/-- The array without items. -/
def empty : ActiveArray α := { items := .empty, active := 0, current := 0 }

section operations
variable [DecidableEq α]

/-- `swap`; `none` when a position is out of range. -/
def swap (f : ActiveArray α) (i j : Nat) : Option (ActiveArray α) :=
  (f.items.swap i j).map fun items => { f with items := items }

/-- Make an item active: it changes places with the first inactive one. -/
def activate (f : ActiveArray α) (p : α) : Option (ActiveArray α) :=
  (f.swap (f.items.index p) f.active).map fun f => { f with active := f.active + 1 }

/-- Add an item and make it active. An item can be added once only. -/
def attach (f : ActiveArray α) (p : α) : Option (ActiveArray α) :=
  if h : p ∉ f.items then { f with items := f.items.push p h }.activate p else none

/-- Make the item at a position inactive: it changes places with the last active one. -/
def deactivate (f : ActiveArray α) (i : Nat) : Option (ActiveArray α) :=
  (ActiveArray.swap { f with active := f.active - 1 } i (f.active - 1)).map fun f =>
    { f with current := if f.current = f.active then 0 else f.current }

/-- Remove an item; the last one of the array takes its place. -/
def erase (f : ActiveArray α) (p : α) : Option (ActiveArray α) :=
  (f.items.erase p).map fun items => { f with items := items }

/-- Make an item inactive if it is not, and remove it. -/
def remove (f : ActiveArray α) (p : α) : Option (ActiveArray α) :=
  if f.items.index p < f.active then (f.deactivate (f.items.index p)).bind fun f => f.erase p
  else f.erase p

end operations

variable {f f' : ActiveArray α} {p q : α}

/-- `p` is one of the active items. -/
def IsActive (f : ActiveArray α) (p : α) : Prop := p ∈ f.items ∧ f.items.index p < f.active

/-- It is the turn of `p`. -/
def IsCurrent (f : ActiveArray α) (p : α) : Prop := f.IsActive p ∧ f.items.index p = f.current

/-- The counters are in range. -/
structure Placed (f : ActiveArray α) : Prop where
  active : f.active ≤ f.items.size
  current : f.current < f.active ∨ f.active = 0 ∧ f.current = 0

theorem placed_empty : (empty : ActiveArray α).Placed := ⟨Nat.le.refl, .inr ⟨rfl, rfl⟩⟩

theorem IsCurrent.unique (hp : f.IsCurrent p) (hq : f.IsCurrent q) : p = q :=
  eq_of_index_eq hp.1.1 hq.1.1 (hp.2.trans hq.2.symm)

theorem Placed.exists_current (h : f.Placed) (hpos : 0 < f.active) : ∃ p, f.IsCurrent p := by
  have hcur := h.current
  have hsize := h.active
  obtain ⟨p, hp, hidx⟩ := exists_index_eq (a := f.items) (i := f.current) (by omega)
  exact ⟨p, ⟨hp, by omega⟩, hidx⟩

theorem IsCurrent.get? (h : f.IsCurrent p) : f.items.get? f.current = some p :=
  get?_eq_some_iff.mpr ⟨h.1.1, h.2⟩

/-! ## Joining -/

/-- `p` becomes active. -/
structure Joins (f f' : ActiveArray α) (p : α) : Prop where
  placed : f'.Placed
  mem : ∀ {q}, q ∈ f'.items ↔ q ∈ f.items ∨ q = p
  active : ∀ {q}, f'.IsActive q ↔ f.IsActive q ∨ q = p
  current : ∀ {q}, f.IsCurrent q → f'.IsCurrent q

section operations
variable [DecidableEq α]

theorem activate_spec (h : f.Placed) (hp : p ∈ f.items) (hpassive : ¬ f.IsActive p) :
    ∃ f', f.activate p = some f' ∧ Joins f f' p := by
  have hcur := h.current
  have hltp := index_lt_size hp
  have hge : f.active ≤ f.items.index p := Nat.le_of_not_lt fun hlt => hpassive ⟨hp, hlt⟩
  obtain ⟨b, hb, hswap⟩ := exists_swap (j := f.active) hltp (by omega)
  refine ⟨{ f with items := b, active := f.active + 1 }, by simp [activate, swap, hb], ?_⟩
  have hmem : ∀ {q}, q ∈ b ↔ q ∈ f.items := hswap.mem
  have hidx := fun {q} (hq : q ∈ f.items) => hswap.index hq
  refine ⟨⟨?_, by grind⟩, by grind, ?_, ?_⟩
  · simp only [hswap.size]
    omega
  · intro q
    simp only [IsActive] at *
    grind
  · intro q _
    simp only [IsCurrent, IsActive] at *
    grind

/-- `activate` of an item that is active already makes another one active, but as long as it
returns, the counters stay in range and the cursor at its item. -/
theorem placed_of_activate (h : f.Placed) (hp : p ∈ f.items) (hf : f.activate p = some f') :
    f'.Placed ∧ (∀ {q}, q ∈ f'.items ↔ q ∈ f.items) ∧
      ∀ {q}, f.IsCurrent q → q ≠ p → f'.IsCurrent q := by
  have hcur := h.current
  obtain ⟨g, hg, rfl⟩ := Option.map_eq_some_iff.mp hf
  obtain ⟨b, hb, rfl⟩ := Option.map_eq_some_iff.mp hg
  obtain ⟨-, hj, hswap⟩ := swapped_of_swap hb
  have hmem : ∀ {q}, q ∈ b ↔ q ∈ f.items := hswap.mem
  refine ⟨⟨by simp only [hswap.size]; omega, by grind⟩, hmem, ?_⟩
  intro q hq _
  have hidx := hswap.index hq.1.1
  simp only [IsCurrent, IsActive] at *
  grind

theorem attach_spec (h : f.Placed) (hp : p ∉ f.items) :
    ∃ f', f.attach p = some f' ∧ Joins f f' p := by
  have hsize := h.active
  -- at first the new item stands at the end and is not active
  have hpush : ∀ {q}, q ∈ f.items → (f.items.push p hp).index q = f.items.index q :=
    (index_push_of_mem _ _ _)
  have hold : ∀ {q}, IsActive { f with items := f.items.push p hp } q ↔
      f.IsActive q := by
    intro q
    simp only [IsActive, mem_push]
    have hself := index_push_self f.items p hp
    grind
  have hplaced : Placed { f with items := f.items.push p hp } :=
    ⟨by simp only [size_push]; omega, h.current⟩
  obtain ⟨f', hf', hjoin⟩ := activate_spec hplaced (by simp) (fun hact => hp (hold.mp hact).1)
  refine ⟨f', by rw [attach, dif_pos hp, hf'], hjoin.placed, ?_, ?_, ?_⟩
  · intro q
    rw [hjoin.mem, mem_push]
    grind
  · intro q
    rw [hjoin.active, hold]
  · intro q hq
    exact hjoin.current ⟨hold.mpr hq.1, (hpush hq.1.1).trans hq.2⟩

/-! ## Leaving -/

/-- `p` stops being active. -/
structure Leaves (f f' : ActiveArray α) (p : α) : Prop where
  placed : f'.Placed
  fewer : f'.active + 1 = f.active
  mem : ∀ {q}, q ∈ f'.items ↔ q ∈ f.items
  active : ∀ {q}, f'.IsActive q ↔ f.IsActive q ∧ q ≠ p
  /-- `p` is now the first one that is not active. -/
  border : f'.items.index p = f'.active
  /-- The last active item takes the free place, and the cursor follows it only if this is
  the first place. -/
  current : ∀ {q}, f.IsCurrent q → q ≠ p →
    (f.current + 1 = f.active → f.items.index p = 0) → f'.IsCurrent q

theorem deactivate_spec (h : f.Placed) (hp : f.IsActive p) :
    ∃ f', f.deactivate (f.items.index p) = some f' ∧ Leaves f f' p := by
  have hsize := h.active
  have hcur := h.current
  obtain ⟨hmemp, hltp⟩ := hp
  obtain ⟨b, hb, hswap⟩ := exists_swap (a := f.items) (i := f.items.index p)
    (j := f.active - 1) (by omega) (by omega)
  refine ⟨{ f with
    items := b
    active := f.active - 1
    current := if f.current = f.active - 1 then 0 else f.current }, ?_, ?_⟩
  · simp [deactivate, swap, hb]
  have hmem : ∀ {q}, q ∈ b ↔ q ∈ f.items := hswap.mem
  have hidx := fun {q} (hq : q ∈ f.items) => hswap.index hq
  refine ⟨⟨?_, ?_⟩, ?_, hmem, ?_, ?_, ?_⟩
  · simp only [hswap.size]
    omega
  · simp only
    split <;> omega
  · simp only
    omega
  · intro q
    simp only [IsActive] at *
    grind
  · simp [hidx hmemp]
  · intro q _ _ _
    simp only [IsCurrent, IsActive] at *
    grind

omit [DecidableEq α] in
/-- The item whose turn it is, if it is the last active one, becomes inactive where it
stands. -/
theorem IsCurrent.leaves_last (hp : f.IsCurrent p) (h : f.Placed)
    (hlast : f.current + 1 = f.active) :
    Leaves f { f with active := f.active - 1, current := 0 } p := by
  have hsize := h.active
  obtain ⟨⟨hmem, -⟩, hidx⟩ := hp
  refine ⟨⟨by simp only; omega, ?_⟩, by simp only; omega, .rfl, ?_, ?_, ?_⟩
  · exact (Nat.eq_zero_or_pos (f.active - 1)).symm.imp_right fun e => ⟨e, rfl⟩
  · intro q
    simp only [IsActive]
    grind
  · simp only
    omega
  · intro q hq hne _
    exact absurd (eq_of_index_eq hq.1.1 hmem (hq.2.trans hidx.symm)) hne

/-! ## Removal -/

/-- `p` is removed. -/
structure Forgets (f f' : ActiveArray α) (p : α) : Prop where
  placed : f'.Placed
  mem : ∀ {q}, q ∈ f'.items ↔ q ∈ f.items ∧ q ≠ p
  active : ∀ {q}, f'.IsActive q ↔ f.IsActive q ∧ q ≠ p
  /-- The cursor stays at its item, unless this is the last active one and has to take a
  place other than the first. -/
  current : ∀ {q}, f.IsCurrent q → q ≠ p →
    (f.IsActive p → f.current + 1 = f.active → f.items.index p = 0) → f'.IsCurrent q

/-- An item that is not active can be removed without any effect on the others. -/
theorem erase_spec (h : f.Placed) (hp : p ∈ f.items) (hpassive : ¬ f.IsActive p) :
    ∃ f', f.erase p = some f' ∧ f'.active = f.active ∧ Forgets f f' p := by
  have hltp := index_lt_size hp
  have hge : f.active ≤ f.items.index p := Nat.le_of_not_lt fun hlt => hpassive ⟨hp, hlt⟩
  obtain ⟨b, hb, herase⟩ := exists_erase hp
  have hbsize := herase.size
  have hidx := fun {q} (hq : q ∈ f.items) (hne : q ≠ p) => herase.index hq hne
  have hactive : ∀ {q}, IsActive { f with items := b } q ↔ f.IsActive q ∧ q ≠ p := by
    intro q
    simp only [IsActive, herase.mem]
    grind
  refine ⟨{ f with items := b }, by simp [erase, hb], rfl, ⟨by simp only; omega, h.current⟩,
    herase.mem, hactive, ?_⟩
  intro q hq hne _
  refine ⟨hactive.mpr ⟨hq.1, hne⟩, ?_⟩
  obtain ⟨⟨hmem, hlt⟩, hcur⟩ := hq
  grind

theorem remove_spec (h : f.Placed) (hp : p ∈ f.items) :
    ∃ f', f.remove p = some f' ∧ Forgets f f' p := by
  by_cases hact : f.items.index p < f.active
  · obtain ⟨f₁, h₁, hleave⟩ := deactivate_spec h ⟨hp, hact⟩
    have hpassive : ¬ f₁.IsActive p := fun hact' => (hleave.active.mp hact').2 rfl
    obtain ⟨f₂, h₂, -, hforget⟩ := erase_spec hleave.placed (hleave.mem.mpr hp) hpassive
    refine ⟨f₂, by rw [remove, if_pos hact, h₁, Option.bind_some, h₂], hforget.placed, ?_, ?_, ?_⟩
    · intro q
      rw [hforget.mem, hleave.mem]
    · intro q
      rw [hforget.active, hleave.active]
      grind
    · intro q hq hne hfirst
      refine hforget.current (hleave.current hq hne (hfirst ⟨hp, hact⟩)) hne ?_
      exact fun hact' => absurd hact' hpassive
  · obtain ⟨f₁, h₁, -, hforget⟩ := erase_spec h hp fun hact' => hact hact'.2
    exact ⟨f₁, by rw [remove, if_neg hact, h₁], hforget⟩

end operations
end ActiveArray
end LibZmq.Core
