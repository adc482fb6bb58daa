import LibZmq.Core.Execution
import Mathlib.Data.List.Basic

/-!
# The children of a trie node

A node of `trie_t` and of `generic_mtrie_t` keeps its children in four fields: `_next` is a
union that holds a pointer to the only child or a table of pointers, `_count` says which,
`_min` is the byte of the first child, and `_live_nodes` is the number of pointers that are
not null. The functions here are the parts of the two classes that change these fields.

`Canonical` is the form that all of them keep: no table without need, and no null pointer at
either end of a table. Each operation has one lemma that says what it does to `child`, the
child for a given byte.
-/

namespace LibZmq

open List Option

/-- What must not happen in a trie. -/
inductive TrieFault where
  /-- A `zmq_assert` does not hold. -/
  | assertion
  /-- A position in a table or a buffer is out of range. -/
  | outOfRange
  /-- The union holds the other member. -/
  | wrongMember
  | nullPointer
  /-- A byte of a buffer is read that was never written. -/
  | uninitialised
deriving DecidableEq, Repr

/-- The union `_next`. -/
inductive Next (ν : Type) where
  | unset
  | node (child : Option ν)
  | table (slots : List (Option ν))

/-- `_min`, `_count`, `_live_nodes` and `_next`. -/
structure Links (ν : Type) where
  /-- An `unsigned char`. -/
  min : Nat
  /-- An `unsigned short`. -/
  count : Nat
  /-- An `unsigned short`. -/
  live : Nat
  next : Next ν

/-- The value of an `unsigned char` after an assignment. -/
def u8 (n : Nat) : Nat := n % 256

/-- The value of an `unsigned short` after an assignment. -/
def u16 (n : Nat) : Nat := n % 65536

def zmqAssert (p : Prop) [Decidable p] : Except TrieFault Unit :=
  if p then .ok () else .error .assertion

namespace Next

variable {ν : Type}

/-- `_next.node`. -/
def getNode : Next ν → Except TrieFault (Option ν)
  | .node child => .ok child
  | _ => .error .wrongMember

/-- `_next.table`. -/
def getTable : Next ν → Except TrieFault (List (Option ν))
  | .table slots => .ok slots
  | _ => .error .wrongMember

end Next

namespace Links

variable {ν : Type}

/-- The fields of a new node. -/
def empty : Links ν := { min := 0, count := 0, live := 0, next := .unset }

/-- `table[i]`. -/
def read (slots : List (Option ν)) (i : Nat) : Except TrieFault (Option ν) :=
  match slots[i]? with
  | none => .error .outOfRange
  | some p => .ok p

/-- `table[i] = p`. -/
def write (slots : List (Option ν)) (i : Nat) (p : Option ν) : Except TrieFault (List (Option ν)) :=
  if i < slots.length then .ok (slots.set i p) else .error .outOfRange

/-- The byte `c` is out of range of the table. -/
def Outside (l : Links ν) (c : Nat) : Prop := c < l.min ∨ c ≥ l.min + l.count

instance (l : Links ν) (c : Nat) : Decidable (l.Outside c) := inferInstanceAs (Decidable (_ ∨ _))

/-- The pointer for a byte that is in range. -/
def slot (l : Links ν) (c : Nat) : Except TrieFault (Option ν) :=
  if l.count = 1 then l.next.getNode
  else do
    let slots ← l.next.getTable
    read slots (c - l.min)

/-- Set the pointer for a byte that is in range. -/
def setSlot (l : Links ν) (c : Nat) (p : Option ν) : Except TrieFault (Links ν) :=
  if l.count = 1 then do
    let _ ← l.next.getNode
    .ok { l with next := .node p }
  else do
    let slots ← l.next.getTable
    let slots ← write slots (c - l.min) p
    .ok { l with next := .table slots }

/-! ## Growing -/

/-- The first half of `add`: bring `c` into range. New pointers are null. -/
def extend (l : Links ν) (c : Nat) : Except TrieFault (Links ν) :=
  if l.Outside c then
    if l.count = 0 then .ok { l with min := c, count := 1, next := .node none }
    else if l.count = 1 then do
      let old ← l.next.getNode
      let count := u16 ((if l.min < c then c - l.min else l.min - c) + 1)
      let min := Min.min l.min c
      let slots ← write (List.replicate count none) (l.min - min) old
      .ok { l with min := min, count := count, next := .table slots }
    else if l.min < c then do
      -- the new character is above the current range
      let slots ← l.next.getTable
      let count := u16 (c - l.min + 1)
      .ok { l with
        count := count
        next := .table (slots.take l.count ++ List.replicate (count - l.count) none) }
    else do
      -- the new character is below the current range
      let slots ← l.next.getTable
      let count := u16 (l.min + l.count - c)
      .ok { l with
        min := c
        count := count
        next := .table (List.replicate (l.min - c) none ++ slots.take l.count) }
  else .ok l

/-- The second half of `add`: if the next node does not exist, create one. `trie_t` checks
the number of children afterwards. -/
def create (l : Links ν) (c : Nat) (fresh : ν) (checked : Bool) : Except TrieFault (Links ν) := do
  match ← l.slot c with
  | some _ => .ok l
  | none =>
      let l ← l.setSlot c (some fresh)
      let l := { l with live := u16 (l.live + 1) }
      if checked then
        if l.count = 1 then zmqAssert (l.live = 1) else zmqAssert (l.live > 1)
      .ok l

/-! ## The form of the tables -/

/-- The child for the byte `c`. -/
def child (l : Links ν) (c : Nat) : Option ν :=
  if l.Outside c then none
  else
    match l.next with
    | .unset => none
    | .node p => p
    | .table slots => slots[c - l.min]?.join

/-- A table with the pointers `slots`. -/
def ofTable (min : Nat) (slots : List (Option ν)) : Links ν :=
  { min := min, count := slots.length, live := slots.countP Option.isSome, next := .table slots }

/-- Only as much room is used as needed, and `_live_nodes` is right. -/
inductive Canonical : Links ν → Prop
  | leaf (min : Nat) (next : Next ν) : Canonical { min := min, count := 0, live := 0, next := next }
  | single (min : Nat) (t : ν) : min < 256 →
      Canonical { min := min, count := 1, live := 1, next := .node (some t) }
  | table (min : Nat) (slots : List (Option ν)) : 2 ≤ slots.length → min + slots.length ≤ 256 →
      slots[0]?.join.isSome = true → slots[slots.length - 1]?.join.isSome = true →
      Canonical (ofTable min slots)

variable {l l' : Links ν} {c d : Nat} {t : ν}

theorem canonical_empty : (empty : Links ν).Canonical := .leaf 0 .unset

theorem child_leaf (min : Nat) (next : Next ν) (c : Nat) :
    child { min := min, count := 0, live := 0, next := next } c = none := by
  rw [child, if_pos]
  simp only [Outside]
  omega

theorem child_single (min live : Nat) (p : Option ν) (c : Nat) :
    child { min := min, count := 1, live := live, next := .node p } c =
      if c = min then p else none := by
  by_cases hc : c = min
  · rw [child, if_neg (by simp only [Outside]; omega), if_pos hc]
  · rw [child, if_pos (by simp only [Outside]; omega), if_neg hc]

theorem child_table (min count live : Nat) (slots : List (Option ν)) (hcount : count = slots.length)
    (c : Nat) : child { min := min, count := count, live := live, next := .table slots } c =
      if c < min then none else slots[c - min]?.join := by
  subst hcount
  by_cases hlow : c < min
  · rw [child, if_pos (.inl hlow), if_pos hlow]
  rw [if_neg hlow]
  by_cases hhigh : c ≥ min + slots.length
  · rw [child, if_pos (.inr hhigh), getElem?_eq_none (by omega)]
    rfl
  · rw [child, if_neg (by simp only [Outside]; omega)]

theorem child_ofTable (min : Nat) (slots : List (Option ν)) (c : Nat) :
    (ofTable min slots).child c = if c < min then none else slots[c - min]?.join :=
  child_table _ _ _ _ rfl c

variable {slots : List (Option ν)} {i min : Nat}

theorem exists_child_ofTable (min : Nat) (h : some t ∈ slots) :
    ∃ d, (ofTable min slots).child d = some t := by
  obtain ⟨i, hi⟩ := mem_iff_getElem?.mp h
  refine ⟨min + i, ?_⟩
  rw [child_ofTable, if_neg (by omega), Nat.add_sub_cancel_left, hi]
  rfl

/-- `_live_nodes` counts the children. -/
theorem Canonical.live_eq_zero_iff (h : l.Canonical) : l.live = 0 ↔ ∀ c, l.child c = none := by
  cases h with
  | leaf => simp [child_leaf]
  | single min =>
    refine ⟨nofun, fun hno => ?_⟩
    have := hno min
    simp [child_single] at this
  | table min slots _ _ hfirst =>
    -- the first pointer is not null
    have hsome : slots[0]?.join.isSome = true := hfirst
    refine ⟨fun hzero => ?_, fun hno => ?_⟩
    · have hall := countP_eq_zero.mp hzero
      cases hs : slots[0]? with
      | none => simp [hs] at hsome
      | some p =>
        rw [hs] at hsome
        exact absurd hsome (hall p (mem_of_getElem? hs))
    · have := hno min
      rw [child_ofTable, if_neg (by omega), Nat.sub_self] at this
      rw [this] at hsome
      cases hsome

/-! ## Adding a child -/

/-- `l₁` has the same children as `l` and room for `c`. -/
structure Fits (l₁ l : Links ν) (c : Nat) : Prop where
  slot : l₁.slot c = .ok (l.child c)
  live : l₁.live = l.live
  put : ∀ t, ∃ l₂, l₁.setSlot c (some t) = .ok l₂ ∧ l₂.live = l₁.live ∧
    Canonical { l₂ with live := l.live + if (l.child c).isNone then 1 else 0 } ∧
    ∀ live d, child { l₂ with live := live } d = if d = c then some t else l.child d

theorem countP_set_some (hi : i < slots.length) (t : ν) : (slots.set i (some t)).countP isSome =
      slots.countP isSome + if slots[i]?.join.isNone then 1 else 0 := by
  rw [countP_set hi, getElem?_eq_getElem hi]
  cases hs : slots[i] with
  | none => simp
  | some t' =>
    have hpos : 0 < slots.countP isSome := countP_pos_iff.mpr ⟨some t', hs ▸ getElem_mem hi, rfl⟩
    simp
    omega

/-- Only the pointer for `c` may be missing at the ends of the table. -/
theorem fits_table (min : Nat) (slots : List (Option ν)) (hlen : 2 ≤ slots.length)
    (hmax : min + slots.length ≤ 256) (hlow : min ≤ c) (hhigh : c < min + slots.length)
    (hfirst : c = min ∨ slots[0]?.join.isSome = true)
    (hlast : c = min + slots.length - 1 ∨ slots[slots.length - 1]?.join.isSome = true)
    (hchild : ∀ d, l.child d = if d < min then none else slots[d - min]?.join)
    (hlive : l.live = slots.countP isSome) :
    Fits { min := min, count := slots.length, live := l.live, next := .table slots } l c := by
  have hi : c - min < slots.length := by omega
  have hone : ¬ slots.length = 1 := by omega
  have hslot : l.child c = slots[c - min]?.join := by
    rw [hchild, if_neg (by omega)]
  refine ⟨?_, rfl, fun t => ?_⟩
  · rw [slot, if_neg hone, hslot]
    simp [Next.getTable, read, hi]
  · refine ⟨⟨min, slots.length, l.live, .table (slots.set (c - min) (some t))⟩, ?_, rfl, ?_,
      fun live d => ?_⟩
    · simp [setSlot, hone, Next.getTable, write, hi]
    · have hcanon : Canonical (ofTable min (slots.set (c - min) (some t))) := by
        refine .table _ _ (by simpa) (by simpa) ?_ ?_
        · rw [getElem?_set]
          split
          · rfl
          · exact hfirst.resolve_left (by omega)
        · rw [length_set, getElem?_set]
          split
          · rfl
          · exact hlast.resolve_left (by omega)
      rw [ofTable, countP_set_some hi, length_set, ← hlive, ← hslot] at hcanon
      exact hcanon
    · have heq : child ⟨min, slots.length, live, .table (slots.set (c - min) (some t))⟩ d =
          if d < min then none else (slots.set (c - min) (some t))[d - min]?.join :=
        child_table _ _ _ _ (by simp) d
      rw [heq, hchild d]
      by_cases hd : d = c
      · rw [hd, if_neg (by omega), if_pos rfl, getElem?_set_self hi]
        rfl
      rw [if_neg hd]
      by_cases hlt : d < min
      · rw [if_pos hlt, if_pos hlt]
      · rw [if_neg hlt, if_neg hlt, getElem?_set_ne (by omega)]

theorem Canonical.fits (h : l.Canonical) (hc : ¬ l.Outside c) : Fits l l c := by
  cases h with
  | leaf =>
    simp only [Outside] at hc
    omega
  | single min t hmin =>
    obtain rfl : c = min := by
      simp only [Outside] at hc
      omega
    refine ⟨by simp [slot, child_single, Next.getNode], rfl, fun t' => ?_⟩
    refine ⟨⟨c, 1, 1, .node (some t')⟩, by simp [setSlot, Next.getNode], rfl, ?_, fun _ d => ?_⟩
    · simpa [child_single] using Canonical.single c t' hmin
    · rw [child_single, child_single]
      split <;> rfl
  | table min slots hlen hmax hfirst hlast =>
    simp only [Outside, ofTable] at hc
    exact fits_table min slots hlen hmax (by omega) (by omega) (.inr hfirst) (.inr hlast)
      (child_ofTable min slots) rfl

/-- Two children at the ends of a new table. -/
theorem fits_pair (hn : 2 ≤ n) (hmax : min + n ≤ 256)
    (hold : old = min + i) (hends : c = min ∧ i = n - 1 ∨ i = 0 ∧ c = min + (n - 1)) :
    Fits ⟨min, n, 1, .table ((replicate n none).set i (some t))⟩
      ⟨old, 1, 1, .node (some t)⟩ c := by
  have hi : i < n := by omega
  have hget : ∀ k : Nat, ((replicate n (none : Option ν)).set i (some t))[k]?.join =
      if k = i then some t else none := by
    intro k
    rw [getElem?_set, length_replicate, getElem?_replicate]
    split <;> split <;> (try split) <;> first | rfl | omega
  have hlen : ((replicate n (none : Option ν)).set i (some t)).length = n := by simp
  have hfits := fits_table (c := c) (l := ⟨old, 1, 1, .node (some t)⟩) min
    ((replicate n none).set i (some t)) (by omega) (by omega) (by omega) (by omega)
    (by rw [hget]; rcases hends with ⟨e, -⟩ | ⟨e, -⟩
        · exact .inl e
        · exact .inr (by simp [e]))
    (by rw [hget]; rcases hends with ⟨-, e⟩ | ⟨-, e⟩
        · exact .inr (by simp [e])
        · exact .inl (by omega))
    (by intro d
        rw [child_single, hget]
        split <;> split <;> (try split) <;> first | rfl | omega)
    (by rw [countP_set_some (by simpa using hi)]
        simp [hi])
  rw [hlen] at hfits
  exact hfits

/-- A second child makes a table necessary. -/
theorem extend_single (hmin : min < 256) (hc : c < 256) (hne : c ≠ min) :
    ∃ l₁, extend ⟨min, 1, 1, .node (some t)⟩ c = .ok l₁ ∧
      Fits l₁ ⟨min, 1, 1, .node (some t)⟩ c := by
  have hout : Outside (ν := ν) ⟨min, 1, 1, .node (some t)⟩ c := by
    simp only [Outside]
    omega
  rw [extend, if_pos hout]
  simp only [Nat.one_ne_zero, if_false, if_true, Next.getNode, ok_bind]
  rcases Nat.lt_or_gt_of_ne hne with hlt | hgt
  · have hn : u16 (min - c + 1) = min - c + 1 := Nat.mod_eq_of_lt (by omega)
    rw [if_neg (by omega), hn, Nat.min_eq_right (by omega), write, if_pos (by simp)]
    exact ⟨_, rfl, fits_pair (by omega) (by omega) (by omega) (.inl ⟨rfl, by omega⟩)⟩
  · have hn : u16 (c - min + 1) = c - min + 1 := Nat.mod_eq_of_lt (by omega)
    rw [if_pos hgt, hn, Nat.min_eq_left (by omega), write, if_pos (by simp)]
    exact ⟨_, rfl, fits_pair (by omega) (by omega) (by omega) (.inr ⟨by omega, by omega⟩)⟩

theorem extend_above (hlen : 2 ≤ slots.length) (hc : c < 256)
    (hfirst : slots[0]?.join.isSome = true) (hgt : min + slots.length ≤ c) :
    ∃ l₁, (ofTable min slots).extend c = .ok l₁ ∧ Fits l₁ (ofTable min slots) c := by
  have hn : u16 (c - min + 1) = c - min + 1 := Nat.mod_eq_of_lt (by omega)
  have hlen' : (slots ++ replicate (c - min + 1 - slots.length) none).length = c - min + 1 := by
    rw [length_append, length_replicate]
    omega
  refine ⟨⟨min, c - min + 1, slots.countP isSome,
    .table (slots ++ replicate (c - min + 1 - slots.length) none)⟩, ?_, ?_⟩
  · rw [extend, if_pos (.inr hgt)]
    simp only [ofTable, if_neg (show ¬ slots.length = 0 by omega),
      if_neg (show ¬ slots.length = 1 by omega), if_pos (show min < c by omega), Next.getTable,
      ok_bind, hn, take_length]
  · have hfits := fits_table (c := c) (l := ofTable min slots) min
      (slots ++ replicate (c - min + 1 - slots.length) none) (by omega) (by omega) (by omega)
      (by omega) (.inr ?_) (.inl (by omega)) (fun d => ?_) ?_
    · rw [hlen'] at hfits
      exact hfits
    · rw [getElem?_append_left (by omega)]
      exact hfirst
    · rw [child_ofTable]
      split
      · rfl
      rw [getElem?_append]
      split
      · rfl
      · rw [getElem?_eq_none (by omega), getElem?_replicate]
        split <;> rfl
    · simp [ofTable]

theorem extend_below (hlen : 2 ≤ slots.length) (hmax : min + slots.length ≤ 256)
    (hlast : slots[slots.length - 1]?.join.isSome = true) (hlt : c < min) :
    ∃ l₁, (ofTable min slots).extend c = .ok l₁ ∧ Fits l₁ (ofTable min slots) c := by
  have hn : u16 (min + slots.length - c) = min + slots.length - c := Nat.mod_eq_of_lt (by omega)
  have hlen' : (replicate (min - c) none ++ slots).length = min + slots.length - c := by
    rw [length_append, length_replicate]
    omega
  refine ⟨⟨c, min + slots.length - c, slots.countP isSome,
    .table (replicate (min - c) none ++ slots)⟩, ?_, ?_⟩
  · rw [extend, if_pos (.inl hlt)]
    simp only [ofTable, if_neg (show ¬ slots.length = 0 by omega),
      if_neg (show ¬ slots.length = 1 by omega), if_neg (show ¬ min < c by omega), Next.getTable,
      ok_bind, hn, take_length]
  · have hfits := fits_table (l := ofTable min slots) c
      (replicate (min - c) none ++ slots) (by omega) (by omega) (by omega)
      (by omega) (.inl rfl) (.inr ?_) (fun d => ?_) ?_
    · rw [hlen'] at hfits
      exact hfits
    · rw [hlen', getElem?_append_right (by rw [length_replicate]; omega),
        length_replicate]
      rw [show min + slots.length - c - 1 - (min - c) = slots.length - 1 by omega]
      exact hlast
    · rw [child_ofTable, getElem?_append, length_replicate, getElem?_replicate]
      split
      · split
        · rfl
        · rw [if_pos (by omega), if_pos (by omega)]
          rfl
      · rw [if_neg (by omega), if_neg (by omega)]
        rw [show d - c - (min - c) = d - min by omega]
    · simp [ofTable]

theorem Canonical.extend_fits (h : l.Canonical) (hc : c < 256) :
    ∃ l₁, l.extend c = .ok l₁ ∧ Fits l₁ l c := by
  by_cases hout : l.Outside c
  · cases h with
    | leaf =>
      refine ⟨⟨c, 1, 0, .node none⟩, by rw [extend, if_pos hout]; rfl, ?_, rfl, fun t => ?_⟩
      · rw [child_leaf]
        rfl
      · refine ⟨⟨c, 1, 0, .node (some t)⟩, rfl, rfl, ?_, fun _ d => ?_⟩
        · simpa [child_leaf] using Canonical.single c t hc
        · rw [child_single, child_leaf]
    | single min t hmin =>
      refine extend_single hmin hc fun e => ?_
      simp only [Outside] at hout
      omega
    | table _ _ hlen hmax hfirst hlast =>
      rcases hout with hlt | hge
      · exact extend_below hlen hmax hlast hlt
      · exact extend_above hlen hc hfirst hge
  · exact ⟨l, if_neg hout, h.fits hout⟩

/-- `l'` is `l` with `p` as the child for `c`. -/
structure Sets (l l' : Links ν) (c : Nat) (p : Option ν) : Prop where
  canonical : l'.Canonical
  child : ∀ d, l'.child d = if d = c then p else l.child d

theorem Sets.child_self (h : Sets l l' c p) : l'.child c = p := by
  rw [h.child, if_pos rfl]

theorem Canonical.live_le (h : l.Canonical) : l.live ≤ 256 := by
  cases h with
  | leaf => exact Nat.zero_le _
  | single => exact Nat.le_of_ble_eq_true rfl
  | table _ slots =>
    have := countP_le_length (p := isSome) (l := slots)
    simp only [ofTable]
    omega

/-- A table has children at both ends. -/
theorem Canonical.live_of_count (h : l.Canonical) :
    (l.count = 1 → l.live = 1) ∧ (1 < l.count → 1 < l.live) := by
  cases h with
  | leaf => exact ⟨nofun, nofun⟩
  | single => exact ⟨fun _ => rfl, nofun⟩
  | table _ slots hlen _ hfirst hlast =>
    refine ⟨fun h => absurd h (by simp only [ofTable]; omega), fun _ => ?_⟩
    cases slots with
    | nil => simp at hlen
    | cons p rest =>
      have hrest : rest.length ≠ 0 := by
        simp only [length_cons] at hlen
        omega
      have hp : p.isSome = true := by simpa using hfirst
      have hpos : 0 < rest.countP isSome := by
        rw [length_cons, Nat.add_sub_cancel] at hlast
        obtain ⟨k, hk⟩ := Nat.exists_eq_succ_of_ne_zero hrest
        rw [hk, getElem?_cons_succ] at hlast
        cases hq : rest[k]? with
        | none => simp [hq] at hlast
        | some q =>
          rw [hq] at hlast
          exact countP_pos_iff.mpr ⟨q, mem_of_getElem? hq, hlast⟩
      simp only [ofTable, countP_cons, hp, if_true]
      omega

theorem not_outside_of_child (hc : l.child c = some t) : ¬ l.Outside c := by
  intro hout
  rw [child, if_pos hout] at hc
  cases hc

/-- Where `add` goes on: at the child for `c`, which is created if necessary. -/
theorem Canonical.grow (h : l.Canonical) (hc : c < 256) (fresh : ν) (checked : Bool) :
    ∃ l₁ l₂, l.extend c = .ok l₁ ∧ l₁.create c fresh checked = .ok l₂ ∧
      Sets l l₂ c (some ((l.child c).getD fresh)) := by
  cases hchild : l.child c with
  | some =>
    have hin := not_outside_of_child hchild
    refine ⟨l, l, if_neg hin, ?_, h, fun d => ?_⟩
    · rw [create, (h.fits hin).slot, hchild]
      rfl
    · split
      · rename_i e
        rw [e, hchild]
        rfl
      · rfl
  | none =>
    obtain ⟨l₁, hl₁, hfits⟩ := h.extend_fits hc
    obtain ⟨l₂, hl₂, hlive, hcanon, hchild₂⟩ := hfits.put fresh
    have hle := h.live_le
    have hnew : u16 (l₂.live + 1) = l.live + 1 := by
      rw [hlive, hfits.live, u16, Nat.mod_eq_of_lt (by omega)]
    rw [hchild, isNone_none, if_pos rfl] at hcanon
    obtain ⟨hone, hmany⟩ := hcanon.live_of_count
    refine ⟨l₁, { l₂ with live := l.live + 1 }, hl₁, ?_, hcanon, hchild₂ _⟩
    have hzero : l₂.count ≠ 0 := by
      intro e
      have hc' := hchild₂ 0 c
      rw [if_pos rfl, child, if_pos (by simp only [Outside]; omega)] at hc'
      cases hc'
    rw [create, hfits.slot, hchild]
    simp only [bind, Except.bind, hl₂, hnew]
    cases checked with
    | false => rfl
    | true =>
      simp only [if_true, zmqAssert]
      by_cases hcount : l₂.count = 1
      · rw [if_pos hcount, if_pos (hone hcount)]
      · rw [if_neg hcount, if_pos (hmany (by simp only; omega))]

theorem Canonical.slot_eq (h : l.Canonical) (hin : ¬ l.Outside c) : l.slot c = .ok (l.child c) :=
  (h.fits hin).slot

theorem Canonical.exists_child (h : l.Canonical) (hcount : l.count = 1) (hin : ¬ l.Outside c) :
    ∃ t, l.child c = some t := by
  cases h with
  | leaf => simp at hcount
  | single _ t =>
    simp only [Outside] at hin
    exact ⟨t, by rw [child_single, if_pos (by omega)]⟩
  | table => simp only [ofTable] at hcount; omega

theorem setSlot_self (h : l.slot c = .ok p) : l.setSlot c p = .ok l := by
  obtain ⟨min, count, live, next⟩ := l
  rw [slot] at h
  rw [setSlot]
  split at h
  · rename_i hcount
    rw [if_pos hcount]
    cases next with
    | node =>
      cases h
      rfl
    | _ => cases h
  rename_i hcount
  rw [if_neg hcount]
  cases next with
  | table slots =>
    simp only [Next.getTable, ok_bind, read] at h
    split at h
    · cases h
    rename_i q hq
    cases h
    obtain ⟨hi, hget⟩ := List.getElem?_eq_some_iff.mp hq
    have hset : slots.set (c - min) p = slots := by
      rw [← hget, set_getElem_self hi]
    simp [Next.getTable, write, if_pos hi, hset]
  | _ => cases h

theorem Canonical.setSlot_sets (h : l.Canonical) (hc : l.child c = some t) (t' : ν) :
    ∃ l', l.setSlot c (some t') = .ok l' ∧ Sets l l' c (some t') := by
  obtain ⟨l', hl', hlive, hcanon, hchild⟩ := (h.fits (not_outside_of_child hc)).put t'
  rw [hc, ← hlive] at hcanon
  exact ⟨l', hl', hcanon, hchild l'.live⟩

/-- The range goes from the first child to the last one. -/
theorem Canonical.not_outside_iff (h : l.Canonical) :
    ¬ l.Outside c ↔ ∃ a b, a ≤ c ∧ c ≤ b ∧ l.child a ≠ none ∧ l.child b ≠ none := by
  constructor
  · intro hin
    cases h with
    | leaf =>
      simp only [Outside] at hin
      omega
    | single min =>
      simp only [Outside] at hin
      exact ⟨min, min, by omega, by omega, by simp [child_single]⟩
    | table min slots _ _ hfirst hlast =>
      simp only [Outside, ofTable] at hin
      refine ⟨min, min + (slots.length - 1), by omega, by omega, ?_⟩
      rw [← isSome_iff_ne_none, ← isSome_iff_ne_none]
      simp [child_ofTable, Nat.not_lt.mpr, hfirst, hlast]
  · rintro ⟨a, b, ha, hb, hfirst, hlast⟩
    have hin : ∀ d, l.child d ≠ none → ¬ l.Outside d := fun _ hd hout => hd (if_pos hout)
    have := hin a hfirst
    have := hin b hlast
    grind [Outside]

theorem Canonical.lt (h : l.Canonical) (hc : l.child c = some t) : c < 256 := by
  have hin := not_outside_of_child hc
  simp only [Outside] at hin
  cases h <;> simp only [ofTable] at hin <;> omega

end Links
end LibZmq
