import LibZmq.Trie.Links

/-!
# Compacting the table of a trie node

When a child has become redundant its pointer is set to null and the table is compacted.
`trie_t::rm` and `generic_mtrie_t::rm_helper` do this for one child and look for the new ends
in two different ways. `generic_mtrie_t::rm_helper_multiple_subnodes` does it once for all
children and gets the new ends from its loop.
-/

namespace LibZmq

open List Option

namespace Links

variable {ν : Type}

/-- `--_live_nodes`. -/
def decrement (n : Nat) : Nat := u16 (n + 65535)

/-- The loop `for (i = start; i < count; ++i) if (table[pos i]) break`, with `n` rounds to go. -/
def scan (slots : List (Option ν)) (pos : Nat → Nat) (i : Nat) : Nat → Except TrieFault Nat
  | 0 => .ok i
  | n + 1 => do
      match ← read slots (pos i) with
      | some _ => .ok i
      | none => scan slots pos (i + 1) n

/-- The `memmove` of `count` pointers into a new table. -/
def copy (slots : List (Option ν)) (start count : Nat) : Except TrieFault (List (Option ν)) :=
  if start + count ≤ slots.length then .ok ((slots.drop start).take count) else .error .outOfRange

/-- `trie_t::rm`: compact the table if possible. If one pointer is left, it is expected at the
end of the table that is opposite to `c`. -/
def compactEnds (l : Links ν) (slots : List (Option ν)) (c : Nat) : Except TrieFault (Links ν) :=
  if l.live = 1 then do
    let (node, min) ←
      if c = l.min then do
        let node ← read slots (l.count - 1)
        .ok (node, u8 (l.min + (l.count - 1)))
      else if c = l.min + l.count - 1 then do
        let node ← read slots 0
        .ok (node, l.min)
      else .ok (none, l.min)
    zmqAssert (node.isSome = true)
    .ok { l with min := min, count := 1, next := .node node }
  else if c = l.min then do
    let i ← scan slots id 1 (l.count - 1)
    let newMin := if i < l.count then u8 (i + l.min) else l.min
    zmqAssert (newMin ≠ l.min)
    zmqAssert (newMin > l.min)
    zmqAssert (l.count > newMin - l.min)
    let count := u16 (l.count - (newMin - l.min))
    let table ← copy slots (newMin - l.min) count
    .ok { l with min := newMin, count := count, next := .table table }
  else if c = l.min + l.count - 1 then do
    let i ← scan slots (l.count - 1 - ·) 1 (l.count - 1)
    let newCount := if i < l.count then u16 (l.count - i) else l.count
    zmqAssert (newCount ≠ l.count)
    let table ← copy slots 0 newCount
    .ok { l with count := newCount, next := .table table }
  else .ok { l with next := .table slots }

/-- `generic_mtrie_t::rm_helper`: compact the table if possible. -/
def compactScan (l : Links ν) (slots : List (Option ν)) (c : Nat) : Except TrieFault (Links ν) :=
  if l.live = 1 then do
    let i ← scan slots id 0 l.count
    zmqAssert (i < l.count)
    let node ← read slots i
    .ok { l with min := u8 (l.min + i), count := 1, next := .node node }
  else if c = l.min then do
    let i ← scan slots id 1 (l.count - 1)
    zmqAssert (i < l.count)
    let count := u16 (l.count - i)
    let table ← copy slots i count
    .ok { l with min := u8 (l.min + i), count := count, next := .table table }
  else if c = l.min + l.count - 1 then do
    let i ← scan slots (l.count - 1 - ·) 1 (l.count - 1)
    zmqAssert (i < l.count)
    let count := u16 (l.count - i)
    let table ← copy slots 0 count
    .ok { l with count := count, next := .table table }
  else .ok { l with next := .table slots }

/-- Remove the child for `c`. -/
def prune (compact : Links ν → List (Option ν) → Nat → Except TrieFault (Links ν)) (l : Links ν)
    (c : Nat) : Except TrieFault (Links ν) := do
  zmqAssert (l.count > 0)
  if l.count = 1 then
    -- the just pruned node was the only live node
    let live := decrement l.live
    zmqAssert (live = 0)
    .ok { l with count := 0, live := live, next := .node none }
  else
    let slots ← l.next.getTable
    let slots ← write slots (c - l.min) none
    zmqAssert (l.live > 1)
    compact { l with live := decrement l.live, next := .table slots } slots c

/-- `_live_nodes`, `new_min` and `new_max` in the loop of `rm_helper_multiple_subnodes`. -/
structure Remaining where
  live : Nat
  newMin : Nat
  newMax : Nat
deriving DecidableEq, Repr

/-- The end of `rm_helper_multiple_subnodes`, with the range that its loop has found. -/
def shrink (l : Links ν) (slots : List (Option ν)) (newMin newMax : Nat) :
    Except TrieFault (Links ν) := do
  zmqAssert (l.count > 1)
  if l.live = 0 then .ok { l with count := 0, next := .table [] }
  else if l.live = 1 then
    zmqAssert (newMin = newMax)
    zmqAssert (newMin ≥ l.min ∧ newMin < l.min + l.count)
    let node ← read slots (newMin - l.min)
    zmqAssert (node.isSome = true)
    .ok { l with min := newMin, count := 1, next := .node node }
  else if newMin > l.min ∨ newMax < l.min + l.count - 1 then
    zmqAssert (newMax - newMin + 1 > 1)
    zmqAssert (newMin > l.min ∨ newMax < l.min + l.count - 1)
    zmqAssert (newMin ≥ l.min)
    zmqAssert (newMax ≤ l.min + l.count - 1)
    zmqAssert (newMax - newMin + 1 < l.count)
    let count := u16 (newMax - newMin + 1)
    let table ← copy slots (newMin - l.min) count
    .ok { l with min := newMin, count := count, next := .table table }
  else .ok { l with next := .table slots }

/-! ## Tables with null pointers -/

section Tables
variable {min c i j : Nat} {t : ν} {slots : List (Option ν)}

/-- The pointers of a table, some of which may have become null. -/
def slotAt (min : Nat) (slots : List (Option ν)) (d : Nat) : Option ν :=
  if d < min then none else slots[d - min]?.join

@[simp] theorem zmqAssert_of [Decidable p] (h : p) : zmqAssert p = .ok () := if_pos h

theorem read_of_lt (h : i < slots.length) : read slots i = .ok slots[i]?.join := by
  simp [read, h]

theorem lt_of_isSome (h : slots[i]?.join.isSome = true) : i < slots.length := by
  by_contra hge
  rw [getElem?_eq_none (by omega)] at h
  cases h

theorem exists_of_countP_pos (h : 0 < slots.countP isSome) :
    ∃ i : Nat, slots[i]?.join.isSome = true := by
  obtain ⟨p, hp, hsome⟩ := countP_pos_iff.mp h
  obtain ⟨i, hi⟩ := mem_iff_getElem?.mp hp
  exact ⟨i, by rw [hi]; exact hsome⟩

/-- If one child is left, all other pointers are null. -/
theorem unique_of_countP_eq_one (h : slots.countP isSome = 1) :
    ∃ (i : Nat) (t : ν), slots[i]?.join = some t ∧ ∀ k, k ≠ i → slots[k]?.join = none := by
  induction slots with
  | nil => simp at h
  | cons p rest ih =>
    cases p with
    | none =>
      obtain ⟨i, t, hi, hothers⟩ := ih (by simpa using h)
      refine ⟨i + 1, t, hi, fun k hk => ?_⟩
      cases k with
      | zero => rfl
      | succ k => exact hothers k (by omega)
    | some t =>
      refine ⟨0, t, rfl, fun k hk => ?_⟩
      have hnone : ∀ q ∈ rest, ¬ isSome q = true := countP_eq_zero.mp (by simpa using h)
      cases k with
      | zero => exact absurd rfl hk
      | succ k =>
        rw [getElem?_cons_succ]
        cases hq : rest[k]? with
        | none => rfl
        | some q => simpa using hnone q (mem_of_getElem? hq)

theorem exists_only_child (h : slots.countP isSome = 1) :
    ∃ (i : Nat) (t : ν), slots[i]?.join = some t ∧ (∀ k, k ≠ i → slots[k]?.join = none) ∧
      slots[i]?.join.isSome = true ∧ i < slots.length ∧
      ∀ k, slots[k]?.join.isSome = true → k = i := by
  obtain ⟨i, t, hi, hothers⟩ := unique_of_countP_eq_one h
  have hisome : slots[i]?.join.isSome = true := by rw [hi]; rfl
  refine ⟨i, t, hi, hothers, hisome, lt_of_isSome hisome, fun k hk => ?_⟩
  by_contra hne
  rw [hothers k hne] at hk
  cases hk

/-- If more than one child is left, there is one besides any given position. -/
theorem exists_ne_of_one_lt_countP (h : 1 < slots.countP isSome) (j : Nat) :
    ∃ i : Nat, i ≠ j ∧ slots[i]?.join.isSome = true := by
  by_cases hj : j < slots.length
  · have hset := countP_set (p := isSome) (a := none) hj
    have hle : (if slots[j].isSome = true then 1 else 0) ≤ 1 := by split <;> omega
    have hpos : 0 < (slots.set j none).countP isSome := by omega
    obtain ⟨i, hi⟩ := exists_of_countP_pos hpos
    refine ⟨i, fun e => ?_, ?_⟩
    · rw [e, getElem?_set_self hj] at hi
      cases hi
    · by_cases e : i = j
      · rw [e, getElem?_set_self hj] at hi
        cases hi
      · rwa [getElem?_set_ne (by omega)] at hi
  · obtain ⟨i, hi⟩ := exists_of_countP_pos (Nat.zero_lt_of_lt h)
    have := lt_of_isSome hi
    exact ⟨i, by omega, hi⟩

theorem countP_eq_zero_of (h : ∀ k : Nat, slots[k]?.join = none) : slots.countP isSome = 0 := by
  by_contra hne
  obtain ⟨i, hi⟩ := exists_of_countP_pos (Nat.pos_of_ne_zero hne)
  rw [h i] at hi
  cases hi

/-- The scan stops at the first pointer that is not null. -/
theorem scan_spec (slots : List (Option ν)) (pos : Nat → Nat) (n i : Nat)
    (hpos : ∀ k, i ≤ k → k < i + n → pos k < slots.length) :
    ∃ j, scan slots pos i n = .ok j ∧ i ≤ j ∧ j ≤ i + n ∧
      (∀ k, i ≤ k → k < j → slots[pos k]?.join = none) ∧
      (j < i + n → slots[pos j]?.join.isSome = true) := by
  induction n generalizing i with
  | zero => exact ⟨i, rfl, by omega, by omega, by omega, by omega⟩
  | succ n ih =>
    have hread := read_of_lt (hpos i (by omega) (by omega))
    cases hp : slots[pos i]?.join with
    | some =>
      rw [hp] at hread
      exact ⟨i, by rw [scan, hread]; rfl, by omega, by omega, by omega, fun _ => by rw [hp]; rfl⟩
    | none =>
      rw [hp] at hread
      obtain ⟨j, hj, hle, hge, hnone, hsome⟩ := ih (i + 1) fun k h₁ h₂ => hpos k (by omega)
        (by omega)
      refine ⟨j, by rw [scan, hread]; exact hj, by omega, by omega, fun k _ h₂ => ?_,
        fun h => hsome (by omega)⟩
      by_cases e : k = i
      · rw [e, hp]
      · exact hnone k (by omega) h₂

/-- Only null pointers are outside the range. -/
structure Within (slots : List (Option ν)) (i j : Nat) : Prop where
  le : j ≤ slots.length
  low : ∀ k < i, slots[k]?.join = none
  high : ∀ k, j ≤ k → slots[k]?.join = none

theorem Within.countP (h : Within slots i j) (hij : i ≤ j) :
    ((slots.drop i).take (j - i)).countP isSome = slots.countP isSome := by
  have hlow : (slots.take i).countP isSome = 0 := by
    refine countP_eq_zero_of fun k => ?_
    rw [getElem?_take]
    split
    · exact h.low k (by assumption)
    · rfl
  have hhigh : (slots.drop j).countP isSome = 0 := by
    refine countP_eq_zero_of fun k => ?_
    rw [getElem?_drop]
    exact h.high _ (by omega)
  have hsplit : slots = slots.take i ++ ((slots.drop i).take (j - i) ++ slots.drop j) := by
    have : slots.drop j = (slots.drop i).drop (j - i) := by
      rw [drop_drop]
      congr 1
      omega
    rw [this, take_append_drop, take_append_drop]
  conv_rhs => rw [hsplit]
  rw [countP_append, countP_append]
  omega

/-- The slots from `i` to `j` are canonical links with all the children. -/
def Trims (min : Nat) (slots : List (Option ν)) (i j : Nat) : Prop :=
  ∃ l', l' = ⟨min + i, j - i, slots.countP Option.isSome, .table ((slots.drop i).take (j - i))⟩ ∧
    Canonical l' ∧ ∀ d, l'.child d = slotAt min slots d

/-- Null pointers at the ends of a table are cut off. -/
theorem Within.trim (h : Within slots i j) (hij : i + 2 ≤ j) (hmax : min + slots.length ≤ 256)
    (hfirst : slots[i]?.join.isSome = true) (hlast : slots[j - 1]?.join.isSome = true) :
    Trims min slots i j := by
  have hle := h.le
  have hlen : ((slots.drop i).take (j - i)).length = j - i := by
    rw [length_take, length_drop]
    omega
  have hget : ∀ k, k < j - i → ((slots.drop i).take (j - i))[k]? = slots[i + k]? := by
    intro k hk
    rw [getElem?_take_of_lt hk, getElem?_drop]
  refine ⟨ofTable (min + i) ((slots.drop i).take (j - i)), ?_, ?_, fun d => ?_⟩
  · rw [ofTable, hlen, h.countP (by omega)]
  · refine .table _ _ (by omega) (by omega) ?_ ?_
    · rw [hget 0 (by omega)]
      exact hfirst
    · rw [hlen, hget _ (by omega), show i + (j - i - 1) = j - 1 by omega]
      exact hlast
  · rw [child_ofTable, slotAt]
    by_cases hd : d < min + i
    · rw [if_pos hd]
      split
      · rfl
      · rw [h.low _ (by omega)]
    rw [if_neg hd, if_neg (by omega)]
    by_cases hk : d - (min + i) < j - i
    · rw [hget _ hk, show i + (d - (min + i)) = d - min by omega]
    · rw [getElem?_eq_none (by omega), h.high _ (by omega)]
      rfl

theorem child_of_unique (hi : slots[i]?.join = some t)
    (hothers : ∀ k, k ≠ i → slots[k]?.join = none) (d : Nat) :
    child ⟨min + i, 1, 1, .node (some t)⟩ d = slotAt min slots d := by
  rw [child_single, slotAt]
  by_cases hd : d = min + i
  · rw [if_pos hd, if_neg (by omega), show d - min = i by omega, hi]
  rw [if_neg hd]
  split
  · rfl
  · rw [hothers _ (by omega)]

end Tables

/-! ## One child -/

section Prune
variable {min c : Nat} {slots : List (Option ν)}

/-- The table after the pointer for `c` has been set to null. -/
structure Holed (min : Nat) (slots : List (Option ν)) (c : Nat) : Prop where
  two_le : 2 ≤ slots.length
  le : min + slots.length ≤ 256
  low : min ≤ c
  high : c < min + slots.length
  hole : slots[c - min]?.join = none
  first : c = min ∨ slots[0]?.join.isSome = true
  last : c = min + slots.length - 1 ∨ slots[slots.length - 1]?.join.isSome = true
  live : 0 < slots.countP Option.isSome

/-- What a compaction has to do. -/
def Compacts (compact : Links ν → List (Option ν) → Nat → Except TrieFault (Links ν)) : Prop :=
  ∀ min slots c, Holed min slots c →
    ∃ l', compact ⟨min, slots.length, slots.countP Option.isSome, .table slots⟩ slots c = .ok l' ∧
      l'.Canonical ∧ ∀ d, l'.child d = slotAt min slots d

/-- A pointer in the middle was set to null. -/
theorem Holed.middle (h : Holed min slots c) (hfirst : c ≠ min)
    (hlast : c ≠ min + slots.length - 1) : Canonical (ofTable min slots) :=
  .table min slots h.two_le h.le (h.first.resolve_left hfirst) (h.last.resolve_left hlast)

/-- The first pointer was set to null, and others are left. -/
theorem Holed.left (h : Holed min slots min) (hlive : 1 < slots.countP isSome) :
    ∃ i, scan slots id 1 (slots.length - 1) = .ok i ∧ 0 < i ∧ i + 2 ≤ slots.length ∧
      Trims min slots i slots.length := by
  obtain ⟨i, hscan, hle, _, hnone, hsome⟩ := scan_spec slots id (slots.length - 1) 1
    fun k _ _ => by simp; omega
  -- besides the last child there is another one, which is not the first one
  obtain ⟨k, hk, hksome⟩ := exists_ne_of_one_lt_countP hlive (slots.length - 1)
  have hklt := lt_of_isSome hksome
  have hkzero : k ≠ 0 := by
    rintro rfl
    have := h.hole
    rw [Nat.sub_self] at this
    rw [this] at hksome
    cases hksome
  have hik : i ≤ k := by
    by_contra hlt
    rw [show slots[k]?.join = none from hnone k (by omega) (by omega)] at hksome
    cases hksome
  refine ⟨i, hscan, by omega, by omega, Within.trim ⟨Nat.le.refl, fun k hk => ?_, fun k hk => ?_⟩
    (by omega) h.le (hsome (by omega)) (h.last.resolve_left (by omega))⟩
  · by_cases e : k = 0
    · rw [e, ← Nat.sub_self min]
      exact h.hole
    · exact hnone k (by omega) hk
  · rw [getElem?_eq_none hk]
    rfl

/-- The last pointer was set to null, and others are left. -/
theorem Holed.right (h : Holed min slots (min + slots.length - 1))
    (hlive : 1 < slots.countP isSome) :
    ∃ i, scan slots (slots.length - 1 - ·) 1 (slots.length - 1) = .ok i ∧ 0 < i ∧
      i + 2 ≤ slots.length ∧ Trims min slots 0 (slots.length - i) := by
  obtain ⟨i, hscan, hle, _, hnone, hsome⟩ :=
    scan_spec slots (slots.length - 1 - ·) (slots.length - 1) 1 fun k _ _ => by omega
  -- besides the first child there is another one, which is not the last one
  obtain ⟨k, hk, hksome⟩ := exists_ne_of_one_lt_countP hlive 0
  have hklt := lt_of_isSome hksome
  have hhole : slots[slots.length - 1]?.join = none := by
    have := h.hole
    rwa [show min + slots.length - 1 - min = slots.length - 1 by omega] at this
  have hklast : k ≠ slots.length - 1 := by
    rintro rfl
    rw [hhole] at hksome
    cases hksome
  have hik : i ≤ slots.length - 1 - k := by
    by_contra hlt
    have := hnone (slots.length - 1 - k) (by omega) (by omega)
    simp only [show slots.length - 1 - (slots.length - 1 - k) = k by omega] at this
    rw [this] at hksome
    cases hksome
  refine ⟨i, hscan, by omega, by omega, Within.trim ⟨by omega, nofun, fun k _ => ?_⟩ (by omega) h.le
    (h.first.resolve_left (by omega)) ?_⟩
  · by_cases hend : slots.length ≤ k
    · rw [getElem?_eq_none hend]
      rfl
    by_cases e : k = slots.length - 1
    · rw [e, hhole]
    · have := hnone (slots.length - 1 - k) (by omega) (by omega)
      simpa [show slots.length - 1 - (slots.length - 1 - k) = k by omega] using this
  · rw [show slots.length - i - 1 = slots.length - 1 - i by omega]
    exact hsome (by omega)

/-- If one child is left, the null pointers are at one end of the table. -/
theorem Holed.opposite (h : Holed min slots c) (hlive : slots.countP isSome = 1) :
    ∃ i t, slots[i]?.join = some t ∧ (∀ k, k ≠ i → slots[k]?.join = none) ∧ i < slots.length ∧
      (c = min ∧ i = slots.length - 1 ∨ c ≠ min ∧ c = min + slots.length - 1 ∧ i = 0) := by
  have hlen := h.two_le
  obtain ⟨i, t, hi, hothers, -, hilt, hat⟩ := exists_only_child hlive
  refine ⟨i, t, hi, hothers, hilt, ?_⟩
  by_cases hc : c = min
  · exact .inl ⟨hc, (hat _ (h.last.resolve_left (by omega))).symm⟩
  have hzero := hat 0 (h.first.resolve_left hc)
  refine .inr ⟨hc, ?_, hzero.symm⟩
  by_contra hne
  have := hat _ (h.last.resolve_left hne)
  omega

theorem u8_of_lt (h : n < 256) : u8 n = n := Nat.mod_eq_of_lt h

theorem u16_of_lt (h : n < 65536) : u16 n = n := Nat.mod_eq_of_lt h

theorem copy_of_le (h : i + n ≤ slots.length) : copy slots i n = .ok ((slots.drop i).take n) :=
  if_pos h

/-- The child that is left is found at the end opposite to the pruned one. -/
theorem compactEnds_compacts : Compacts (compactEnds (ν := ν)) := by
  intro min slots c h
  have hmax := h.le
  have hpos := h.live
  by_cases hone : slots.countP isSome = 1
  · obtain ⟨i, t, hi, hothers, hilt, hend⟩ := h.opposite hone
    refine ⟨⟨min + i, 1, 1, .node (some t)⟩, ?_, .single _ _ (by omega), child_of_unique hi hothers⟩
    have hread := read_of_lt hilt
    rw [hi] at hread
    rw [compactEnds]
    rcases hend with ⟨hc, rfl⟩ | ⟨hc, hlast, rfl⟩
    · simp [hc, hread, u8_of_lt (show min + (slots.length - 1) < 256 by omega), hone]
    · simp [hlast, hread, hone]
      omega
  have hmany : 1 < slots.countP isSome := by omega
  rw [compactEnds, if_neg hone]
  by_cases hc : c = min
  · subst hc
    obtain ⟨i, hscan, hi, hile, l', hl', hcanon, hchild⟩ := h.left hmany
    refine ⟨l', ?_, hcanon, hchild⟩
    have hmin : (if i < slots.length then u8 (i + c) else c) = c + i := by
      rw [if_pos (by omega), u8_of_lt (by omega), Nat.add_comm]
    have hcount : u16 (slots.length - i) = slots.length - i := u16_of_lt (by omega)
    simp only [if_true, hscan, bind, Except.bind, hmin, Nat.add_sub_cancel_left, hcount,
      copy_of_le (show i + (slots.length - i) ≤ slots.length by omega)]
    rw [zmqAssert_of (by omega), zmqAssert_of (by omega), zmqAssert_of (by omega), hl']
  · rw [if_neg hc]
    by_cases hlast : c = min + slots.length - 1
    · subst hlast
      obtain ⟨i, hscan, hi, hile, l', hl', hcanon, hchild⟩ := h.right hmany
      refine ⟨l', ?_, hcanon, hchild⟩
      have hcount : (if i < slots.length then u16 (slots.length - i) else slots.length) =
          slots.length - i := by
        rw [if_pos (by omega), u16_of_lt (by omega)]
      simp only [if_true, hscan, ok_bind, hcount,
        copy_of_le (show 0 + (slots.length - i) ≤ slots.length by omega)]
      rw [zmqAssert_of (by omega), hl']
      rfl
    · rw [if_neg hlast]
      exact ⟨_, rfl, h.middle hc hlast, child_ofTable _ _⟩

/-- The child that is left is found by a scan. -/
theorem compactScan_compacts : Compacts (compactScan (ν := ν)) := by
  intro min slots c h
  have hmax := h.le
  have hpos := h.live
  by_cases hone : slots.countP isSome = 1
  · obtain ⟨i, t, hi, hothers, -, hilt, hat⟩ := exists_only_child hone
    refine ⟨⟨min + i, 1, 1, .node (some t)⟩, ?_, .single _ _ (by omega), child_of_unique hi hothers⟩
    obtain ⟨j, hscan, _, -, hnone, hsome⟩ := scan_spec slots id slots.length 0
      fun k _ _ => by simp; omega
    have hji : j = i := by
      by_contra hne
      rcases Nat.lt_or_gt_of_ne hne with hlt | hgt
      · exact hne (hat j (hsome (by omega)))
      · have := hnone i (by omega) hgt
        rw [id_eq, hi] at this
        cases this
    subst hji
    have hread := read_of_lt hilt
    rw [hi] at hread
    simp [compactScan, hone, hscan, hilt, hread, u8_of_lt (show min + j < 256 by omega)]
  · have hmany : 1 < slots.countP isSome := by omega
    rw [compactScan, if_neg hone]
    by_cases hc : c = min
    · subst hc
      obtain ⟨i, hscan, hi, hile, l', hl', hcanon, hchild⟩ := h.left hmany
      refine ⟨l', ?_, hcanon, hchild⟩
      simp only [if_true, hscan, bind, Except.bind,
        u16_of_lt (show slots.length - i < 65536 by omega), u8_of_lt (show c + i < 256 by omega),
        copy_of_le (show i + (slots.length - i) ≤ slots.length by omega)]
      rw [zmqAssert_of (by omega), hl']
    rw [if_neg hc]
    by_cases hlast : c = min + slots.length - 1
    · subst hlast
      obtain ⟨i, hscan, -, hile, l', hl', hcanon, hchild⟩ := h.right hmany
      refine ⟨l', ?_, hcanon, hchild⟩
      simp only [if_true, hscan, ok_bind, u16_of_lt (show slots.length - i < 65536 by omega),
        copy_of_le (show 0 + (slots.length - i) ≤ slots.length by omega)]
      rw [zmqAssert_of (by omega), hl']
      rfl
    · rw [if_neg hlast]
      exact ⟨_, rfl, h.middle hc hlast, child_ofTable _ _⟩

/-- The child for `c` is removed, whichever way the table is compacted. -/
theorem Canonical.prune_sets
    {compact : Links ν → List (Option ν) → Nat → Except TrieFault (Links ν)}
    (hcompact : Compacts compact) (h : l.Canonical) (hc : l.child c = some t) :
    ∃ l', prune compact l c = .ok l' ∧ Sets l l' c none := by
  cases h with
  | leaf => simp [child_leaf] at hc
  | single min =>
    rw [child_single] at hc
    split at hc
    · rename_i e
      refine ⟨⟨min, 0, 0, .node none⟩, ?_, .leaf _ _, fun d => ?_⟩
      · simp [prune, show decrement 1 = 0 by decide]
      · rw [child_leaf, child_single, e]
        split <;> rfl
    · cases hc
  | table min slots hlen hmax hfirst hlast =>
    rw [child_ofTable] at hc
    split at hc
    · cases hc
    rename_i hlow
    -- another child is left, so that the table is only compacted
    have hclt : c - min < slots.length := lt_of_isSome (by rw [hc]; rfl)
    have hlive : 1 < slots.countP isSome :=
      (Canonical.table min slots hlen hmax hfirst hlast).live_of_count.2 hlen
    have hcount : (slots.set (c - min) none).countP isSome =
        slots.countP isSome - 1 := by
      have hsome : slots[c - min].isSome = true := by
        rw [getElem?_eq_getElem hclt, join_some] at hc
        rw [hc]
        rfl
      rw [countP_set hclt, if_pos hsome, isSome_none, if_neg Bool.false_ne_true]
      omega
    have hlen' : (slots.set (c - min) none).length = slots.length := length_set
    have hholed : Holed min (slots.set (c - min) none) c := by
      refine ⟨by omega, by omega, by omega, by omega, ?_, ?_, ?_, by omega⟩
      · rw [getElem?_set_self hclt]
        rfl
      · by_cases e : c = min
        · exact .inl e
        · rw [getElem?_set_ne (by omega)]
          exact .inr hfirst
      · rw [hlen']
        by_cases e : c = min + slots.length - 1
        · exact .inl e
        · rw [getElem?_set_ne (by omega)]
          exact .inr hlast
    obtain ⟨l', hl', hcanon, hchild⟩ := hcompact _ _ _ hholed
    have hle := countP_le_length (p := isSome) (l := slots)
    have hdec : decrement (slots.countP isSome) =
        (slots.set (c - min) none).countP isSome := by
      rw [decrement, u16, hcount]
      omega
    rw [hlen', ← hdec] at hl'
    refine ⟨l', ?_, hcanon, fun d => ?_⟩
    · have hne : ¬ (ofTable min slots).count = 1 := by simp only [ofTable]; omega
      have hassert : zmqAssert ((ofTable min slots).count > 0) = .ok () :=
        zmqAssert_of (by simp only [ofTable]; omega)
      have hwrite : write slots (c - min) none = .ok (slots.set (c - min) none) := if_pos hclt
      have hmore : zmqAssert ((ofTable min slots).live > 1) = .ok () := zmqAssert_of hlive
      have htable : (ofTable min slots).next.getTable = .ok slots := rfl
      have hmin : (ofTable min slots).min = min := rfl
      rw [prune, hassert]
      simp only [bind, Except.bind]
      rw [if_neg hne]
      simp only [htable, hmin, hwrite, hmore]
      exact hl'
    · rw [hchild, slotAt, child_ofTable]
      by_cases hd : d = c
      · rw [if_pos hd, hd, if_neg hlow, getElem?_set_self hclt]
        rfl
      · rw [if_neg hd]
        split
        · rfl
        · rw [getElem?_set_ne (by omega)]

end Prune

/-! ## All children -/

section Shrink
variable {min newMin newMax : Nat} {slots : List (Option ν)}

/-- The first and the last pointer that are not null, as the loop over the table finds them. -/
structure Spans (min : Nat) (slots : List (Option ν)) (count newMin newMax : Nat) : Prop where
  bounds : ∀ k : Nat, slots[k]?.join.isSome = true → newMin ≤ min + k ∧ min + k ≤ newMax
  first : newMin = min + count - 1 ∨ ∃ k : Nat, newMin = min + k ∧ slots[k]?.join.isSome = true
  last : newMax = min ∨ ∃ k : Nat, newMax = min + k ∧ slots[k]?.join.isSome = true

/-- How the loop over a table that starts at the byte `c` narrows the range of its children. -/
structure Narrows (c : Nat) (slots : List (Option ν)) (s s' : Remaining) : Prop where
  newMin_le : s'.newMin ≤ s.newMin
  le_newMax : s.newMax ≤ s'.newMax
  bounds : ∀ k : Nat, slots[k]?.join.isSome = true → s'.newMin ≤ c + k ∧ c + k ≤ s'.newMax
  first : s'.newMin = s.newMin ∨ ∃ k : Nat, s'.newMin = c + k ∧ slots[k]?.join.isSome = true
  last : s'.newMax = s.newMax ∨ ∃ k : Nat, s'.newMax = c + k ∧ slots[k]?.join.isSome = true

theorem narrows_nil (c : Nat) (s : Remaining) : Narrows (ν := ν) c [] s s :=
  ⟨Nat.le.refl, Nat.le.refl, fun k h => by simp at h, .inl rfl, .inl rfl⟩

theorem Narrows.cons (h : Narrows (c + 1) slots s₁ s')
    (hmin : s₁.newMin = if p.isSome = true then Min.min c s.newMin else s.newMin)
    (hmax : s₁.newMax = if p.isSome = true then Max.max c s.newMax else s.newMax) :
    Narrows c (p :: slots) s s' := by
  have hle : s₁.newMin ≤ s.newMin ∧ s.newMax ≤ s₁.newMax := by
    rw [hmin, hmax]
    split <;> omega
  have hmin' := h.newMin_le
  have hmax' := h.le_newMax
  refine ⟨by omega, by omega, fun k hk => ?_, ?_, ?_⟩
  · cases k with
    | zero =>
      have hp : p.isSome = true := by simpa using hk
      rw [if_pos hp] at hmin hmax
      omega
    | succ k =>
      have := h.bounds k (by simpa using hk)
      omega
  · rcases h.first with hfirst | ⟨k, hfirst, hk⟩
    · by_cases hp : p.isSome = true
      · rw [if_pos hp] at hmin
        by_cases hc : c ≤ s.newMin
        · exact .inr ⟨0, by omega, by simpa using hp⟩
        · exact .inl (by omega)
      · rw [if_neg hp] at hmin
        exact .inl (by omega)
    · exact .inr ⟨k + 1, by omega, by simpa using hk⟩
  · rcases h.last with hlast | ⟨k, hlast, hk⟩
    · by_cases hp : p.isSome = true
      · rw [if_pos hp] at hmax
        by_cases hc : s.newMax ≤ c
        · exact .inr ⟨0, by omega, by simpa using hp⟩
        · exact .inl (by omega)
      · rw [if_neg hp] at hmax
        exact .inl (by omega)
    · exact .inr ⟨k + 1, by omega, by simpa using hk⟩

theorem Narrows.spans {count : Nat} (h : Narrows min slots s s') (hmin : s.newMin = min + count - 1)
    (hmax : s.newMax = min) : Spans min slots count s'.newMin s'.newMax :=
  ⟨h.bounds, by rw [← hmin]; exact h.first, by
    rcases h.last with hlast | hlast
    · exact .inl (hlast.trans hmax)
    · exact .inr hlast⟩

/-- With two children both ends of the range are children. -/
theorem Spans.ends (h : Spans min slots slots.length newMin newMax)
    (hlive : 1 < slots.countP isSome) :
    ∃ i j, newMin = min + i ∧ newMax = min + j ∧ i < j ∧ j < slots.length ∧
      slots[i]?.join.isSome = true ∧ slots[j]?.join.isSome = true ∧ Within slots i (j + 1) := by
  obtain ⟨a, ha⟩ := exists_of_countP_pos (Nat.zero_lt_of_lt hlive)
  obtain ⟨b, hb, hbsome⟩ := exists_ne_of_one_lt_countP hlive a
  have halt := lt_of_isSome ha
  have hblt := lt_of_isSome hbsome
  have habounds := h.bounds a ha
  have hbbounds := h.bounds b hbsome
  obtain ⟨i, hi, hisome⟩ := h.first.resolve_left (by omega)
  obtain ⟨j, hj, hjsome⟩ := h.last.resolve_left (by omega)
  have hjlt := lt_of_isSome hjsome
  refine ⟨i, j, hi, hj, by omega, hjlt, hisome, hjsome, hjlt, fun k hk => ?_, fun k _ => ?_⟩
  · by_contra hne
    have := h.bounds k (isSome_iff_ne_none.mpr hne)
    omega
  · by_contra hne
    have := h.bounds k (isSome_iff_ne_none.mpr hne)
    omega

/-- The table is compacted to the range that the loop has found. -/
theorem shrink_spec (h : Spans min slots slots.length newMin newMax) (hlen : 2 ≤ slots.length)
    (hmax : min + slots.length ≤ 256) (next : Next ν) :
    ∃ l', shrink ⟨min, slots.length, slots.countP isSome, next⟩ slots newMin newMax = .ok l' ∧
      l'.Canonical ∧ ∀ d, l'.child d = slotAt min slots d := by
  have hassert : zmqAssert (slots.length > 1) = .ok () := zmqAssert_of (by omega)
  rw [shrink]
  simp only [hassert, bind, Except.bind]
  by_cases hzero : slots.countP isSome = 0
  · refine ⟨_, if_pos hzero, ?_, fun d => ?_⟩
    · rw [hzero]
      exact .leaf _ _
    · rw [hzero, child_leaf, slotAt]
      split
      · rfl
      by_contra hne
      have hsome := isSome_iff_ne_none.mpr (Ne.symm hne)
      have hmem : ∃ p ∈ slots, isSome p = true := by
        cases hp : slots[d - min]? with
        | none => simp [hp] at hsome
        | some p => exact ⟨p, mem_of_getElem? hp, by simpa [hp] using hsome⟩
      have := countP_pos_iff.mpr hmem
      omega
  rw [if_neg hzero]
  by_cases hone : slots.countP isSome = 1
  · -- the range that was found is the place of the only child
    obtain ⟨i, t, hi, hothers, hisome, hilt, hat⟩ := exists_only_child hone
    have hbounds := h.bounds i hisome
    have hmin : newMin = min + i := by
      rcases h.first with h₁ | ⟨k, h₁, hk⟩
      · omega
      · rw [h₁, hat k hk]
    have hmax' : newMax = min + i := by
      rcases h.last with h₁ | ⟨k, h₁, hk⟩
      · omega
      · rw [h₁, hat k hk]
    have hread := read_of_lt hilt
    rw [hi] at hread
    refine ⟨⟨min + i, 1, 1, .node (some t)⟩, ?_, .single _ _ (by omega), child_of_unique hi hothers⟩
    have hrange : zmqAssert (min + i ≥ min ∧ min + i < min + slots.length) = .ok () :=
      zmqAssert_of (by omega)
    rw [if_pos hone, hmin, hmax']
    simp only [hrange, Nat.add_sub_cancel_left, hread, isSome_some, zmqAssert_of, hone]
  · rw [if_neg hone]
    obtain ⟨i, j, rfl, rfl, hij, hjlt, hisome, hjsome, hwithin⟩ := h.ends (by omega)
    by_cases hcut : min + i > min ∨ min + j < min + slots.length - 1
    · obtain ⟨l', hl', hcanon, hchild⟩ := hwithin.trim (by omega) hmax hisome hjsome
      refine ⟨l', ?_, hcanon, hchild⟩
      have hcount : u16 (min + j - (min + i) + 1) = j + 1 - i := by
        rw [u16_of_lt (by omega)]
        omega
      rw [if_pos hcut, zmqAssert_of (by omega), zmqAssert_of hcut, zmqAssert_of (by omega),
        zmqAssert_of (by omega), zmqAssert_of (by omega)]
      simp [hcount, copy_of_le (show i + (j + 1 - i) ≤ slots.length by omega), hl']
    · rw [if_neg hcut]
      obtain rfl : i = 0 := by omega
      obtain rfl : j = slots.length - 1 := by omega
      exact ⟨_, rfl, .table min slots hlen hmax hisome hjsome, child_ofTable _ _⟩

end Shrink
end Links
end LibZmq
