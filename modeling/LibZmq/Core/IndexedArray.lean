import Mathlib.Logic.Equiv.Basic
import Mathlib.Data.List.Basic

/-!
# Arrays whose items know their position

An array of distinct items together with the position of each item, so that an item
can be found, moved and removed without a search. Removal fills the gap with the last
item.

Positions are described by `index` alone: `getElem?_eq_some_iff` turns a statement about
the list of items into one about membership and positions, and every operation has a
lemma for each of the two.
-/

namespace LibZmq.Core

open List Function

variable {α : Type*}

/-- Items and their positions. Nothing is said about the position of other values. -/
structure IndexedArray (α : Type*) where
  items : List α
  index : α → Nat
  located : ∀ i p, items[i]? = some p → index p = i

namespace IndexedArray

/-- The array without items. -/
def empty : IndexedArray α := { items := [], index := fun _ => 0, located := by simp }

def size (a : IndexedArray α) : Nat := a.items.length

instance : Membership α (IndexedArray α) := ⟨fun a p => p ∈ a.items⟩

instance [DecidableEq α] (a : IndexedArray α) (p : α) : Decidable (p ∈ a) :=
  inferInstanceAs (Decidable (p ∈ a.items))

section positions
variable (a : IndexedArray α) {p q : α} {i : Nat}

theorem getElem?_eq_some_iff : a.items[i]? = some p ↔ p ∈ a ∧ a.index p = i := by
  constructor
  · intro h
    exact ⟨mem_of_getElem? h, a.located i p h⟩
  · rintro ⟨hmem, rfl⟩
    obtain ⟨k, hk⟩ := mem_iff_getElem?.mp hmem
    rwa [a.located k p hk]

variable {a}

theorem index_lt_size (h : p ∈ a) : a.index p < a.size := by
  have hp := (a.getElem?_eq_some_iff).mpr ⟨h, rfl⟩
  exact (List.getElem?_eq_some_iff.mp hp).1

@[grind →] theorem eq_of_index_eq (hp : p ∈ a) (hq : q ∈ a) (h : a.index p = a.index q) :
    p = q := by
  have h1 := (a.getElem?_eq_some_iff).mpr ⟨hp, h⟩
  have h2 := (a.getElem?_eq_some_iff).mpr ⟨hq, rfl⟩
  exact Option.some.inj (h1.symm.trans h2)

theorem exists_index_eq (h : i < a.size) : ∃ p ∈ a, a.index p = i :=
  ⟨a.items[i], (a.getElem?_eq_some_iff).mp (getElem?_eq_getElem h)⟩

theorem mem_take_iff {n : Nat} : p ∈ a.items.take n ↔ p ∈ a ∧ a.index p < n := by
  rw [mem_take_iff_getElem]
  constructor
  · rintro ⟨i, hi, rfl⟩
    have hget := getElem?_eq_getElem (Nat.lt_of_lt_of_le hi (Nat.min_le_right _ _))
    obtain ⟨hmem, hidx⟩ := (a.getElem?_eq_some_iff).mp hget
    exact ⟨hmem, by rw [hidx]; omega⟩
  · rintro ⟨hmem, hlt⟩
    have hsize := index_lt_size hmem
    refine ⟨a.index p, Nat.lt_min.mpr ⟨hlt, hsize⟩, ?_⟩
    have hget := (a.getElem?_eq_some_iff).mpr ⟨hmem, rfl⟩
    exact (List.getElem?_eq_some_iff.mp hget).2

end positions

/-! ## Operations -/

/-- The item at a position. -/
def get? (a : IndexedArray α) (i : Nat) : Option α := a.items[i]?

theorem get?_eq_some_iff {a : IndexedArray α} {i : Nat} {p : α} :
    a.get? i = some p ↔ p ∈ a ∧ a.index p = i :=
  a.getElem?_eq_some_iff

variable [DecidableEq α]

section push
variable (a : IndexedArray α) (p : α) (h : p ∉ a)

/-- Add an item at the end. -/
def push : IndexedArray α where
  items := a.items ++ [p]
  index := Function.update a.index p a.size
  located := by
    intro i q hq
    rcases Nat.lt_trichotomy i a.items.length with hi | rfl | hi
    · rw [List.getElem?_append_left hi] at hq
      have hne : q ≠ p := by
        rintro rfl
        exact h (List.mem_of_getElem? hq)
      rw [Function.update_of_ne hne, a.located i q hq]
    · rw [List.getElem?_concat_length] at hq
      cases hq
      exact Function.update_self ..
    · rw [List.getElem?_eq_none (by simpa using Nat.succ_le_of_lt hi)] at hq
      cases hq

@[simp] theorem mem_push {q : α} : q ∈ a.push p h ↔ q ∈ a ∨ q = p := by
  change q ∈ a.items ++ [p] ↔ q ∈ a.items ∨ q = p
  simp

@[simp] theorem size_push : (a.push p h).size = a.size + 1 := by
  simp [push, size]

@[simp] theorem index_push_self : (a.push p h).index p = a.size := update_self ..

theorem index_push_of_mem {q : α} (hq : q ∈ a) : (a.push p h).index q = a.index q := by
  have hne : q ≠ p := by
    rintro rfl
    exact h hq
  exact update_of_ne hne ..

end push

section swap
variable (a : IndexedArray α) (i j : Nat) (hi : i < a.items.length) (hj : j < a.items.length)

omit [DecidableEq α] in
theorem getElem?_exchange (k : Nat) :
    ((a.items.set i a.items[j]).set j a.items[i])[k]? = a.items[Equiv.swap i j k]? := by
  rw [Equiv.swap_apply_def]
  grind

/-- Exchange two items. -/
def swapAt : IndexedArray α where
  items := (a.items.set i a.items[j]).set j a.items[i]
  index := Function.update (Function.update a.index a.items[i] j) a.items[j] i
  located := by
    intro k q hq
    rw [getElem?_exchange a i j hi hj, getElem?_eq_some_iff] at hq
    obtain ⟨hmem, hidx⟩ := hq
    have hki := a.located i _ (List.getElem?_eq_getElem hi)
    have hkj := a.located j _ (List.getElem?_eq_getElem hj)
    -- an item that is neither of the two stays where it is
    by_cases hqj : q = a.items[j]
    · rw [hqj, Function.update_self]
      rw [hqj, hkj, Equiv.swap_apply_def] at hidx
      grind
    · rw [Function.update_of_ne hqj]
      by_cases hqi : q = a.items[i]
      · rw [hqi, Function.update_self]
        rw [hqi, hki, Equiv.swap_apply_def] at hidx
        grind
      · rw [Function.update_of_ne hqi]
        rw [Equiv.swap_apply_def] at hidx
        have hni : a.index q ≠ i :=
          fun e => hqi (eq_of_index_eq hmem (List.getElem_mem hi) (e.trans hki.symm))
        have hnj : a.index q ≠ j :=
          fun e => hqj (eq_of_index_eq hmem (List.getElem_mem hj) (e.trans hkj.symm))
        grind

/-- Exchange two items; `none` when a position is out of range. -/
def swap (a : IndexedArray α) (i j : Nat) : Option (IndexedArray α) :=
  if h : i < a.items.length ∧ j < a.items.length then some (a.swapAt i j h.1 h.2) else none

/-- The items at `i` and `j` have changed places. -/
structure Swapped (a b : IndexedArray α) (i j : Nat) : Prop where
  size : b.size = a.size
  mem : ∀ {p}, p ∈ b ↔ p ∈ a
  index : ∀ {p}, p ∈ a → b.index p = Equiv.swap i j (a.index p)

variable {a i j}

theorem swapped_swapAt : Swapped a (a.swapAt i j hi hj) i j := by
  have hmem : ∀ {p}, p ∈ a → p ∈ a.swapAt i j hi hj ∧
      (a.swapAt i j hi hj).index p = Equiv.swap i j (a.index p) := by
    intro p hp
    refine (getElem?_eq_some_iff _).mp ((getElem?_exchange a i j hi hj _).trans ?_)
    rw [Equiv.swap_apply_self]
    exact (a.getElem?_eq_some_iff).mpr ⟨hp, rfl⟩
  refine ⟨by simp [swapAt, size], fun {p} => ⟨fun hp => ?_, fun hp => (hmem hp).1⟩,
    fun hp => (hmem hp).2⟩
  obtain ⟨k, hk⟩ := mem_iff_getElem?.mp hp
  exact mem_of_getElem? ((getElem?_exchange a i j hi hj k).symm.trans hk)

theorem exists_swap (hi : i < a.size) (hj : j < a.size) :
    ∃ b, a.swap i j = some b ∧ Swapped a b i j :=
  ⟨a.swapAt i j hi hj, dif_pos ⟨hi, hj⟩, swapped_swapAt hi hj⟩

theorem swapped_of_swap {b : IndexedArray α} (h : a.swap i j = some b) :
    i < a.size ∧ j < a.size ∧ Swapped a b i j := by
  unfold swap at h
  split at h
  · rename_i hlt
    cases h
    exact ⟨hlt.1, hlt.2, swapped_swapAt hlt.1 hlt.2⟩
  · cases h

end swap

section erase
variable (a : IndexedArray α) (i : Nat) (hi : i < a.items.length)

omit [DecidableEq α] in
theorem getElem?_fill (k : Nat) :
    (a.items.set i (a.items.getLast (ne_nil_of_length_pos (Nat.zero_lt_of_lt hi)))).dropLast[k]?
      = if k < a.items.length - 1 then
          if k = i then a.items[a.items.length - 1]? else a.items[k]?
        else none := by
  rw [getElem?_dropLast, length_set, getElem?_set]
  grind

/-- Remove the item at a position; the last item takes its place. -/
def eraseAt : IndexedArray α where
  items :=
    (a.items.set i (a.items.getLast (List.ne_nil_of_length_pos (Nat.zero_lt_of_lt hi)))).dropLast
  index :=
    Function.update a.index
      (a.items.getLast (List.ne_nil_of_length_pos (Nat.zero_lt_of_lt hi))) i
  located := by
    intro k q hq
    rw [getElem?_fill a i hi] at hq
    have hlast := List.getLast_eq_getElem (List.ne_nil_of_length_pos (Nat.zero_lt_of_lt hi))
    split at hq
    · split at hq
      · rename_i hk
        have hq' : q = a.items.getLast (List.ne_nil_of_length_pos (Nat.zero_lt_of_lt hi)) := by
          grind
        rw [hq', Function.update_self, hk]
      · rename_i hlt hk
        have hidx := a.located k q hq
        rw [Function.update_of_ne, hidx]
        rintro rfl
        rw [hlast, a.located _ _ (List.getElem?_eq_getElem (by omega))] at hidx
        omega
    · cases hq

/-- Remove an item, wherever it is; `none` when its position is out of range. -/
def erase (a : IndexedArray α) (p : α) : Option (IndexedArray α) :=
  if h : a.index p < a.items.length then some (a.eraseAt (a.index p) h) else none

/-- `p` is gone and the last item has taken its place. -/
structure Erased (a b : IndexedArray α) (p : α) : Prop where
  size : b.size + 1 = a.size
  mem : ∀ {q}, q ∈ b ↔ q ∈ a ∧ q ≠ p
  index : ∀ {q}, q ∈ a → q ≠ p →
    b.index q = if a.index q = b.size then a.index p else a.index q

variable {a}

theorem exists_erase {p : α} (hp : p ∈ a) : ∃ b, a.erase p = some b ∧ Erased a b p := by
  have hi := index_lt_size hp
  have hget := fun k => getElem?_fill a (a.index p) hi k
  refine ⟨a.eraseAt (a.index p) hi, dif_pos hi, ?_⟩
  have hsize : (a.eraseAt (a.index p) hi).size = a.size - 1 := by
    simp [eraseAt, size]
  have hmem : ∀ {q}, q ∈ a → q ≠ p → q ∈ a.eraseAt (a.index p) hi ∧
      (a.eraseAt (a.index p) hi).index q =
        if a.index q = a.size - 1 then a.index p else a.index q := by
    intro q hq hne
    have hlt := index_lt_size hq
    have hidx : a.index q ≠ a.index p := fun e => hne (eq_of_index_eq hq hp e)
    have hself := (a.getElem?_eq_some_iff).mpr ⟨hq, rfl⟩
    refine (getElem?_eq_some_iff _).mp ((hget _).trans ?_)
    unfold size at hlt hi ⊢
    grind
  refine ⟨?_, fun {q} => ⟨fun hq => ?_, fun hq => (hmem hq.1 hq.2).1⟩, fun hq hne => ?_⟩
  · omega
  · obtain ⟨k, hk⟩ := mem_iff_getElem?.mp hq
    rw [show (a.eraseAt (a.index p) hi).items[k]? = _ from hget k] at hk
    split at hk
    · split at hk
      · refine ⟨mem_of_getElem? hk, ?_⟩
        rintro rfl
        have := a.located _ _ hk
        omega
      rename_i hkp
      refine ⟨mem_of_getElem? hk, ?_⟩
      rintro rfl
      exact hkp (a.located _ _ hk).symm
    · cases hk
  · rw [(hmem hq hne).2, hsize]

end erase

/-! ## Beginnings -/

/-- `p` is one of the first `n` items. -/
def Below (a : IndexedArray α) (n : Nat) (p : α) : Prop := p ∈ a ∧ a.index p < n

section below
variable {a b : IndexedArray α} {p q : α} {i j k n : Nat}

omit [DecidableEq α] in
theorem Below.mono (h : a.Below n p) (hle : n ≤ k) : a.Below k p :=
  ⟨h.1, Nat.lt_of_lt_of_le h.2 hle⟩

omit [DecidableEq α] in
theorem Swapped.comm (h : Swapped a b i j) : Swapped a b j i :=
  ⟨h.size, h.mem, fun hp => by rw [Equiv.swap_comm]; exact h.index hp⟩

theorem below_push (h : p ∉ a) (hk : k ≤ a.size) : (a.push p h).Below k q ↔ a.Below k q := by
  have hself := index_push_self a p h
  have hold : q ∈ a → (a.push p h).index q = a.index q := index_push_of_mem a p h
  simp only [Below, mem_push]
  grind

/-- `p` changes places with the first item after a beginning, which it joins. Beginnings that
do not end between the two places stay as they are. -/
structure Joined (a b : IndexedArray α) (p : α) (n : Nat) : Prop where
  size : b.size = a.size
  mem : ∀ {q}, q ∈ b ↔ q ∈ a
  index : b.index p = n
  below : ∀ {q}, b.Below (n + 1) q ↔ a.Below n q ∨ q = p
  others : ∀ {k q}, k ≤ n ∨ a.index p < k → (b.Below k q ↔ a.Below k q)

omit [DecidableEq α] in
theorem Swapped.joined (h : Swapped a b (a.index p) n) (hp : p ∈ a) (hle : n ≤ a.index p) :
    Joined a b p n := by
  refine ⟨h.size, h.mem, by rw [h.index hp, Equiv.swap_apply_left], ?_, ?_⟩
  · intro q
    simp only [Below, h.mem]
    grind [h.index]
  · intro k q _
    simp only [Below, h.mem]
    grind [h.index]

theorem exists_joined (hp : p ∈ a) (hle : n ≤ a.index p) :
    ∃ b, a.swap (a.index p) n = some b ∧ Joined a b p n := by
  have hlt := index_lt_size hp
  obtain ⟨b, hb, hs⟩ := exists_swap hlt (Nat.lt_of_le_of_lt hle hlt)
  exact ⟨b, hb, hs.joined hp hle⟩

theorem exists_joined_of_index (hp : p ∈ a) (hi : a.index p = i) (hle : n ≤ i) :
    ∃ b, a.swap n i = some b ∧ Joined a b p n := by
  subst hi
  have hlt := index_lt_size hp
  obtain ⟨b, hb, hs⟩ := exists_swap (Nat.lt_of_le_of_lt hle hlt) hlt
  exact ⟨b, hb, hs.comm.joined hp hle⟩

/-- `p` changes places with the last item of a beginning, which it leaves. -/
structure Left (a b : IndexedArray α) (p : α) (n : Nat) : Prop where
  size : b.size = a.size
  mem : ∀ {q}, q ∈ b ↔ q ∈ a
  index : b.index p = n - 1
  below : ∀ {q}, b.Below (n - 1) q ↔ a.Below n q ∧ q ≠ p
  others : ∀ {k q}, k ≤ a.index p ∨ n ≤ k → (b.Below k q ↔ a.Below k q)

omit [DecidableEq α] in
theorem Swapped.left (h : Swapped a b (a.index p) (n - 1)) (hp : a.Below n p) : Left a b p n := by
  obtain ⟨hp, hlt⟩ := hp
  refine ⟨h.size, h.mem, by rw [h.index hp, Equiv.swap_apply_left], ?_, ?_⟩
  · intro q
    simp only [Below, h.mem]
    grind [h.index]
  · intro k q _
    simp only [Below, h.mem]
    grind [h.index]

theorem exists_left (hp : a.Below n p) (hn : n ≤ a.size) :
    ∃ b, a.swap (a.index p) (n - 1) = some b ∧ Left a b p n := by
  have hlt := hp.2
  obtain ⟨b, hb, hs⟩ := exists_swap (index_lt_size hp.1) (show n - 1 < a.size by omega)
  exact ⟨b, hb, hs.left hp⟩

omit [DecidableEq α] in
/-- An item outside of a beginning can be removed without an effect on it. -/
theorem Erased.below (h : Erased a b p) (hp : p ∈ a) (hk : k ≤ a.index p) :
    b.Below k q ↔ a.Below k q := by
  have hsize := h.size
  have hltp := index_lt_size hp
  have hmem : q ∈ b ↔ q ∈ a ∧ q ≠ p := h.mem
  have hidx : q ∈ a → q ≠ p → b.index q = if a.index q = b.size then a.index p else a.index q :=
    fun hq hne => h.index hq hne
  simp only [Below]
  grind

end below
end IndexedArray
end LibZmq.Core
