import Mathlib.Data.Finset.Prod
import Mathlib.Data.Finset.Sort
import Mathlib.Data.List.Infix
import LibZmq.Trie.Walk

/-!
# The multi-trie of subscriptions

A publisher keeps in a `generic_mtrie_t` which pipes have subscribed to which key: a node has a
set of pipes. The trie stands for a relation between keys and pipes. A pipe is removed from
one key, or from all keys at once when it goes away.
-/

namespace LibZmq

open List Option Finset
open Links (child child_leaf child_single decrement ofTable u8_of_lt)

/-- A node of `generic_mtrie_t` with `_pipes`, which is null if there are none. -/
abbrev Mtrie (V : Type) := Node (Option (Finset V))

inductive RmResult where
  | notFound
  | lastValueRemoved
  | valuesRemain
deriving DecidableEq, Repr

namespace Mtrie

variable {V : Type}

/-- A set of pipes is not kept when it is empty. -/
def Proper (pipes : Option (Finset V)) : Prop := pipes ≠ some ∅

theorem proper_none : Proper (none : Option (Finset V)) := nofun

variable [LinearOrder V]

/-- What `add_helper` does at the node of the key. -/
def addPipe (v : V) : Option (Finset V) → Option (Finset V) × Bool
  | none => (some {v}, true)
  | some pipes => (some (insert v pipes), false)

/-- `generic_mtrie_t::add`. -/
def add (key : Bytes) (v : V) (t : Mtrie V) : Except TrieFault (Mtrie V × Bool) :=
  Node.add (addPipe v) false key t

/-- What `rm_helper` does at the node of the key. -/
def rmPipe (v : V) : Option (Finset V) → Except TrieFault (Option (Finset V) × RmResult)
  | none => .ok (none, .notFound)
  | some pipes =>
      if pipes.erase v = ∅ then do
        zmqAssert (v ∈ pipes)
        .ok (none, .lastValueRemoved)
      else .ok (some (pipes.erase v), if v ∈ pipes then .valuesRemain else .notFound)

/-- `generic_mtrie_t::rm` for one key. -/
def rm (key : Bytes) (v : V) (t : Mtrie V) : Except TrieFault (Mtrie V × RmResult) :=
  Node.rm (rmPipe v) .notFound Links.compactScan key t

/-- Remove the subscription from a node. The second component is whether the function is
called; with `call_on_uniq_` only if no other pipe is left. -/
def erasePipe (v : V) (uniq : Bool) : Option (Finset V) → Option (Finset V) × Bool
  | none => (none, false)
  | some pipes =>
      if v ∈ pipes then
        (if pipes.erase v = ∅ then none else some (pipes.erase v),
          !uniq || decide (pipes.erase v = ∅))
      else (some pipes, false)

/-- The child for the byte `c` is now `child`. -/
def pruneChild (s : Links.Remaining) (c : Nat) (child : Mtrie V) :
    Except TrieFault (Links.Remaining × Option (Mtrie V)) :=
  if child.isRedundant then do
    zmqAssert (s.live > 0)
    .ok ({ s with live := Links.decrement s.live }, none)
  else
    .ok ({ s with
      newMin := if c < s.newMin then u8 c else s.newMin
      newMax := if c > s.newMax then u8 c else s.newMax }, some child)

mutual

/-- `generic_mtrie_t::rm_helper` for all keys. -/
def rmHelper (v : V) (uniq : Bool) :
    Mtrie V → Walk → Nat → Nat → Except TrieFault (Mtrie V × Walk)
  | .mk pipes ⟨min, count, live, next⟩, w, size, max => do
      -- remove the subscription from this node
      let erased := erasePipe v uniq pipes
      let w ← w.call erased.2 size
      let (buff, max) := w.buff.adjust size max
      let w := { w with buff := buff }
      if count = 0 then .ok (.mk erased.1 ⟨min, count, live, next⟩, w)
      else if count = 1 then do
        let (links, w) ← rmNode v uniq next min live w size max
        .ok (.mk erased.1 links, w)
      else do
        let (links, w) ← rmTable v uniq next min count live w size max
        .ok (.mk erased.1 links, w)

/-- There is one subnode. -/
def rmNode (v : V) (uniq : Bool) :
    Next (Mtrie V) → Nat → Nat → Walk → Nat → Nat → Except TrieFault (Links (Mtrie V) × Walk)
  | .node (some child), min, live, w, size, max => do
      let buff ← w.buff.put size (UInt8.ofNat min)
      let (child, w) ← rmHelper v uniq child { w with buff := buff } (size + 1) max
      -- prune the node if it was made redundant by the removal
      if child.isRedundant then
        zmqAssert (Links.decrement live = 0)
        .ok (⟨min, 0, Links.decrement live, .node none⟩, w)
      else .ok (⟨min, 1, live, .node (some child)⟩, w)
  | .node none, _, _, _, _, _ => .error .nullPointer
  | _, _, _, _, _, _ => .error .wrongMember

/-- `rm_helper_multiple_subnodes`. -/
def rmTable (v : V) (uniq : Bool) : Next (Mtrie V) → Nat → Nat → Nat → Walk → Nat → Nat →
    Except TrieFault (Links (Mtrie V) × Walk)
  | .table slots, min, count, live, w, size, max => do
      let (slots, s, w) ←
        rmSlots v uniq slots min count ⟨live, u8 (min + count - 1), min⟩ w size max
      let links ← Links.shrink ⟨min, count, s.live, .table slots⟩ slots s.newMin s.newMax
      .ok (links, w)
  | _, _, _, _, _, _, _ => .error .wrongMember

/-- The rest of the loop over the table, from the byte `c` on. -/
def rmSlots (v : V) (uniq : Bool) : List (Option (Mtrie V)) → Nat → Nat → Links.Remaining → Walk →
    Nat → Nat → Except TrieFault (List (Option (Mtrie V)) × Links.Remaining × Walk)
  | slots, _, 0, s, w, _, _ => .ok (slots, s, w)
  | [], _, _ + 1, _, _, _, _ => .error .outOfRange
  | none :: slots, c, n + 1, s, w, size, max => do
      let buff ← w.buff.put size (UInt8.ofNat c)
      let (slots, s, w) ← rmSlots v uniq slots (c + 1) n s { w with buff := buff } size max
      .ok (none :: slots, s, w)
  | some child :: slots, c, n + 1, s, w, size, max => do
      let buff ← w.buff.put size (UInt8.ofNat c)
      let (child, w) ← rmHelper v uniq child { w with buff := buff } (size + 1) max
      let (s, p) ← pruneChild s c child
      let (slots, s, w) ← rmSlots v uniq slots (c + 1) n s w size max
      .ok (p :: slots, s, w)

end

/-- `generic_mtrie_t::rm` for all keys: the keys that the function is called with. -/
def rmAll (v : V) (uniq : Bool) (t : Mtrie V) : Except TrieFault (Mtrie V × List Bytes) := do
  let (t, w) ← rmHelper v uniq t { buff := [], calls := [] } 0 0
  .ok (t, w.calls)

/-- The pipes of a node in the order of the set. -/
def pipesOf : Option (Finset V) → List V
  | none => []
  | some pipes => pipes.sort

/-- `generic_mtrie_t::match`: the pipes that the function is called with. -/
def matching : Bytes → Mtrie V → Except TrieFault (List V)
  | [], .mk pipes _ => .ok (pipesOf pipes)
  | c :: rest, .mk pipes l =>
      if l.count = 0 then .ok (pipesOf pipes)
      else if l.count = 1 then
        if c.toNat ≠ l.min then .ok (pipesOf pipes)
        else do
          match ← l.next.getNode with
          | none => .ok (pipesOf pipes)
          | some next => .ok (pipesOf pipes ++ (← matching rest next))
      else if l.Outside c.toNat then .ok (pipesOf pipes)
      else do
        match ← Links.read (← l.next.getTable) (c.toNat - l.min) with
        | none => .ok (pipesOf pipes)
        | some next => .ok (pipesOf pipes ++ (← matching rest next))

/-! ## Removing a pipe from all keys -/

/-- Every node is in canonical form, no child is redundant and no set of pipes empty. -/
abbrev Valid (t : Mtrie V) : Prop := Node.Valid Proper t

/-- The pipes at a key below a pointer. -/
def at? (p : Option (Mtrie V)) (k : Bytes) : Option (Finset V) :=
  (p.map (·.get k)).getD none

section RemoveAll
variable {v : V} {uniq : Bool} {t : Mtrie V} {pipes : Option (Finset V)}

theorem proper_erasePipe (h : Proper pipes) : Proper (erasePipe v uniq pipes).1 := by
  cases pipes with
  | none => nofun
  | some =>
    rw [erasePipe]
    split
    · split
      · nofun
      · rename_i hne
        exact fun e => hne (some.inj e)
    · exact h

/-- The child `p` has become `p'`: the pipe is removed from all keys, and nothing redundant is
left. -/
structure Erases (v : V) (uniq : Bool) (p p' : Option (Mtrie V)) : Prop where
  valid : ∀ t, p' = some t → Valid t ∧ t.isRedundant = false
  at_eq : ∀ k, at? p' k = (erasePipe v uniq (at? p k)).1

/-- What `rm_helper` does at a node. -/
def Removes (v : V) (uniq : Bool) (t : Mtrie V) : Prop :=
  ∀ w p max, w.buff.Holds p max → ∃ t' w', rmHelper v uniq t w p.length max = .ok (t', w') ∧
    Valid t' ∧ (∀ k, t'.get k = (erasePipe v uniq (t.get k)).1) ∧
    w.Reported w' p max fun k => (erasePipe v uniq (t.get k)).2 = true

/-- The keys that are reported for a table whose first pointer belongs to the byte `c`. -/
def CalledIn (v : V) (uniq : Bool) (slots : List (Option (Mtrie V))) (c : Nat) (k : Bytes) :
    Prop :=
  ∃ (i : Nat) (rest : Bytes), i < slots.length ∧ k = UInt8.ofNat (c + i) :: rest ∧
    (erasePipe v uniq (at? slots[i]?.join rest)).2 = true

theorem calledIn_cons (p : Option (Mtrie V)) (slots : List (Option (Mtrie V))) (c : Nat)
    (k : Bytes) :
    CalledIn v uniq (p :: slots) c k ↔
      (∃ rest, k = UInt8.ofNat c :: rest ∧ (erasePipe v uniq (at? p rest)).2 = true) ∨
        CalledIn v uniq slots (c + 1) k := by
  constructor
  · rintro ⟨i, rest, hi, hk, hcalled⟩
    cases i with
    | zero => exact .inl ⟨rest, hk, by simpa using hcalled⟩
    | succ i =>
      refine .inr ⟨i, rest, by simpa using hi, ?_, by simpa using hcalled⟩
      rw [hk, Nat.add_assoc, Nat.add_comm 1 i]
  · rintro (⟨rest, hk, hcalled⟩ | ⟨i, rest, hi, hk, hcalled⟩)
    · exact ⟨0, rest, by simp, hk, by simpa using hcalled⟩
    · refine ⟨i + 1, rest, by simpa using hi, ?_, by simpa using hcalled⟩
      rw [hk, Nat.add_assoc, Nat.add_comm 1 i]

/-- A child after the removal is pruned or narrows the range. -/
theorem pruneChild_spec (hc : c < 256) (hlive : 0 < s.live) (hlt : s.live < 65536) (h : Valid t) :
    ∃ s' p, pruneChild s c t = .ok (s', p) ∧ (∀ k, at? p k = t.get k) ∧
      (∀ t', p = some t' → Valid t' ∧ t'.isRedundant = false) ∧
      s'.live + 1 = s.live + (if p.isSome = true then 1 else 0) ∧
      s'.newMin = (if p.isSome = true then Min.min c s.newMin else s.newMin) ∧
      s'.newMax = (if p.isSome = true then Max.max c s.newMax else s.newMax) := by
  rw [pruneChild]
  by_cases hred : t.isRedundant = true
  · rw [if_pos hred]
    refine ⟨{ s with live := decrement s.live }, none, ?_, fun k => ?_, nofun, ?_, rfl, rfl⟩
    · rw [Links.zmqAssert_of hlive]
      simp
    · exact (Node.get_of_isRedundant h hred k).symm
    · simp only [decrement, u16, isSome_none, Bool.false_eq_true, if_false]
      omega
  rw [if_neg hred]
  refine ⟨_, some t, rfl, fun k => rfl, fun _ e => ?_, rfl, ?_, ?_⟩
  · cases e
    exact ⟨h, by simpa using hred⟩
  · simp only [isSome_some, if_true, u8_of_lt hc]
    split <;> omega
  · simp only [isSome_some, if_true, u8_of_lt hc]
    split <;> omega

/-- The loop over the table removes the pipe from each child. -/
theorem rmSlots_spec (slots : List (Option (Mtrie V)))
    (hslots : ∀ t, some t ∈ slots → Removes v uniq t) (c : Nat) (hc : c + slots.length ≤ 256)
    (s : Links.Remaining) (hlive : slots.countP isSome ≤ s.live) (hlt : s.live < 65536) (w : Walk)
    (p : Bytes) (max : Nat) (hmax : p.length < max) (hw : w.buff.Holds p max) :
    ∃ slots' s' w', rmSlots v uniq slots c slots.length s w p.length max = .ok (slots', s', w') ∧
      Forall₂ (Erases v uniq) slots slots' ∧
      s'.live + slots.countP isSome = s.live + slots'.countP isSome ∧
      Links.Narrows c slots' s s' ∧ w.Reported w' p max (CalledIn v uniq slots c) := by
  induction slots generalizing c s w with
  | nil =>
    refine ⟨[], s, w, by rw [length_nil, rmSlots], .nil, rfl, Links.narrows_nil c s, .refl hw ?_⟩
    rintro k ⟨i, rest, hi, _⟩
    simp at hi
  | cons q slots ih =>
    rw [length_cons] at hc
    obtain ⟨buff, hput, hbuff⟩ := hw.put hmax (UInt8.ofNat c)
    have hslots' : ∀ t, some t ∈ slots → Removes v uniq t := fun t ht => hslots t (by simp [ht])
    -- later children belong to other bytes
    have hdisjoint : ∀ k, (∃ rest, k = UInt8.ofNat c :: rest ∧
        (erasePipe v uniq (at? q rest)).2 = true) → ¬ CalledIn v uniq slots (c + 1) k := by
      rintro k ⟨rest, rfl, _⟩ ⟨i, rest', hi, hk, _⟩
      have := congrArg UInt8.toNat (cons.inj hk).1
      simp only [UInt8.toNat_ofNat'] at this
      omega
    cases q with
    | none =>
      have hfirst : w.Reported { w with buff := buff } p max fun k => ∃ rest,
          k = UInt8.ofNat c :: rest ∧ (erasePipe v uniq (at? none rest)).2 = true :=
        .below (.refl hbuff fun k => by simp [at?, erasePipe])
      obtain ⟨slots', s', w', hrun, herases, hcount, hnarrows, hreported⟩ :=
        ih hslots' (c + 1) (by omega) s (by simpa using hlive) hlt { w with buff := buff }
          hfirst.holds
      refine ⟨none :: slots', s', w', ?_, .cons ⟨nofun, fun k => rfl⟩ herases,
        by simpa using hcount, hnarrows.cons rfl rfl,
        (hfirst.trans hreported hdisjoint).congr (calledIn_cons none slots c)⟩
      rw [length_cons, rmSlots, hput]
      simp [hrun]
    | some t =>
      have hpos : 0 < s.live := by
        rw [countP_cons_of_pos (by rfl)] at hlive
        omega
      obtain ⟨t', w₁, hrm, hvalid, hget, hreported⟩ :=
        hslots t (by simp) { w with buff := buff } (p ++ [UInt8.ofNat c]) max hbuff
      obtain ⟨s₁, q', hprune, hat, huseful, hlive₁, hmin, hmax'⟩ :=
        pruneChild_spec (c := c) (by omega) hpos hlt hvalid
      have hfirst : w.Reported w₁ p max fun k => ∃ rest, k = UInt8.ofNat c :: rest ∧
          (erasePipe v uniq (at? (some t) rest)).2 = true := hreported.below
      have hle : s₁.live ≤ s.live := by
        split at hlive₁ <;> omega
      obtain ⟨slots', s', w', hrun, herases, hcount, hnarrows, hreported'⟩ :=
        ih hslots' (c + 1) (by omega) s₁ (by
          rw [countP_cons_of_pos (by rfl)] at hlive
          split at hlive₁ <;> omega) (by omega) w₁ hfirst.holds
      refine ⟨q' :: slots', s', w', ?_, .cons ⟨huseful, fun k => ?_⟩ herases, ?_,
        hnarrows.cons hmin hmax',
        (hfirst.trans hreported' hdisjoint).congr (calledIn_cons (some t) slots c)⟩
      · rw [length_append, length_singleton] at hrm
        rw [length_cons, rmSlots, hput]
        simp [hrm, hprune, hrun]
      · rw [hat, hget]
        rfl
      · rw [countP_cons_of_pos (by rfl), countP_cons]
        omega

theorem forall₂_join {ν : Type} {R : Option ν → Option ν → Prop} {slots slots' : List (Option ν)}
    (h : Forall₂ R slots slots') (hnone : R none none) (i : Nat) :
    R slots[i]?.join slots'[i]?.join := by
  induction h generalizing i with
  | nil => exact hnone
  | cons hp _ ih =>
    cases i with
    | zero => exact hp
    | succ i => exact ih i

/-- The children of a node after the removal. -/
theorem links_spec (hcanon : l'.Canonical)
    (hpipes : Proper pipes) (hchild : ∀ d, Erases v uniq (l.child d) (l'.child d)) :
    Valid (.mk (erasePipe v uniq pipes).1 l') ∧ ∀ k, (Node.mk (erasePipe v uniq pipes).1 l').get k =
        (erasePipe v uniq ((Node.mk pipes l).get k)).1 := by
  refine ⟨.node (proper_erasePipe hpipes) hcanon (fun d t hd => ((hchild d).valid t hd).1)
    fun d t hd => ((hchild d).valid t hd).2, fun k => ?_⟩
  cases k with
  | nil => rfl
  | cons c rest =>
    rw [Node.get_cons, Node.get_cons]
    exact (hchild c.toNat).at_eq rest

/-- The keys that are reported for a node. -/
theorem called_iff (pipes : Option (Finset V)) (l : Links (Mtrie V)) (k : Bytes) :
    (erasePipe v uniq ((Node.mk pipes l).get k)).2 = true ↔
      (k = [] ∧ (erasePipe v uniq pipes).2 = true) ∨
        ∃ c rest, k = c :: rest ∧ (erasePipe v uniq (at? (l.child c.toNat) rest)).2 = true := by
  cases k with
  | nil => simp [Node.value]
  | cons =>
    rw [Node.get_cons]
    simp
    rfl

/-- **`rm_helper` removes the pipe from every key below its node.** -/
theorem removes_of_valid (v : V) (uniq : Bool) (h : Valid t) : Removes v uniq t := by
  induction h with
  | @node pipes l hpipes hcanon _ _ ih =>
    intro w p max hw
    obtain ⟨w₁, buff, max', hcall, hadjust, hlt, hle, hroot⟩ :=
      w.call_adjust hw (erasePipe v uniq pipes).2
    -- the children are visited after the node itself
    suffices hsub : ∃ l' w', rmHelper v uniq (.mk pipes l) w p.length max =
          .ok (.mk (erasePipe v uniq pipes).1 l', w') ∧ l'.Canonical ∧
        (∀ d, Erases v uniq (l.child d) (l'.child d)) ∧
        Walk.Reported { w₁ with buff := buff } w' p max' fun k =>
          ∃ c rest, k = c :: rest ∧ (erasePipe v uniq (at? (l.child c.toNat) rest)).2 = true by
      obtain ⟨l', w', hw', hcanon', hchild, hreported⟩ := hsub
      obtain ⟨hvalid, hget⟩ := links_spec hcanon' hpipes hchild
      refine ⟨_, w', hw', hvalid, hget,
        ((hroot.trans hreported ?_).mono hle).congr (called_iff pipes l)⟩
      rintro k ⟨rfl, _⟩ ⟨c, rest, hk, _⟩
      cases hk
    have hbuff := hroot.holds
    have hnone : Erases v uniq none none := ⟨nofun, fun _ => rfl⟩
    cases hcanon with
    | leaf min next =>
      refine ⟨_, { w₁ with buff := buff }, ?_, .leaf min next, fun d => ?_, .refl hbuff ?_⟩
      · rw [rmHelper, hcall]
        simp only [ok_bind, hadjust, if_true]
      · rw [child_leaf]
        exact hnone
      · rintro k ⟨c, rest, _, hcalled⟩
        rw [child_leaf] at hcalled
        cases hcalled
    | single min next hmin =>
      obtain ⟨buff', hput, hbuff'⟩ := hbuff.put hlt (UInt8.ofNat min)
      obtain ⟨next', w', hrm, hvalid, hget, hreported⟩ := ih min next (by simp [child_single])
        { w₁ with buff := buff' } _ _ hbuff'
      rw [length_append, length_singleton] at hrm
      have hcalled : Walk.Reported { w₁ with buff := buff } w' p max' fun k => ∃ c rest,
          k = c :: rest ∧ (erasePipe v uniq
            (at? (child ⟨min, 1, 1, .node (some next)⟩ c.toNat) rest)).2 = true := by
        refine hreported.below.congr fun k => ?_
        constructor
        · rintro ⟨c, rest, rfl, hcalled⟩
          rw [child_single] at hcalled
          split at hcalled
          · rename_i e
            exact ⟨rest, by rw [← e, UInt8.ofNat_toNat], hcalled⟩
          · cases hcalled
        · rintro ⟨rest, rfl, hcalled⟩
          refine ⟨_, rest, rfl, ?_⟩
          rw [child_single, if_pos (by simp [Nat.mod_eq_of_lt hmin])]
          exact hcalled
      by_cases hred : next'.isRedundant = true
      · refine ⟨⟨min, 0, 0, .node none⟩, w', ?_, .leaf _ _, fun d => ?_, hcalled⟩
        · rw [rmHelper, hcall]
          simp [hadjust, rmNode, hput, hrm, hred, show decrement 1 = 0 by decide]
        rw [child_leaf, child_single]
        split
        · refine ⟨nofun, fun k => ?_⟩
          exact (Node.get_of_isRedundant hvalid hred k).symm.trans (hget k)
        · exact hnone
      refine ⟨⟨min, 1, 1, .node (some next')⟩, w', ?_, .single _ _ hmin, fun d => ?_, hcalled⟩
      · rw [rmHelper, hcall]
        simp [hadjust, rmNode, hput, hrm, hred]
      rw [child_single, child_single]
      split
      · refine ⟨fun t e => ?_, hget⟩
        cases e
        exact ⟨hvalid, by simpa using hred⟩
      · exact hnone
    | table min slots _ hmax =>
      have hslots : ∀ t, some t ∈ slots → Removes v uniq t := by
        intro t ht
        obtain ⟨d, hd⟩ := Links.exists_child_ofTable min ht
        exact ih d t hd
      have hcount := countP_le_length (p := isSome) (l := slots)
      obtain ⟨slots', s', w', hrun, herases, hlive, hnarrows, hreported⟩ :=
        rmSlots_spec slots hslots min hmax
          ⟨slots.countP isSome, u8 (min + slots.length - 1), min⟩ le_rfl
          (by simp only; omega)
          { w₁ with buff := buff } p max' hlt hbuff
      have hlen' := herases.length_eq
      have hmin : u8 (min + slots.length - 1) = min + slots'.length - 1 := by
        rw [u8_of_lt (by omega), hlen']
      have hlive' : s'.live = slots'.countP isSome := by
        simp only at hlive
        omega
      obtain ⟨l', hl', hcanon', hchild⟩ := Links.shrink_spec
        (hnarrows.spans hmin rfl) (by omega) (by omega) (.table slots')
      refine ⟨l', w', ?_, hcanon', fun d => ?_, hreported.congr fun k => ?_⟩
      · have h₀ : slots.length ≠ 0 := by omega
        have h₁ : slots.length ≠ 1 := by omega
        rw [ofTable, rmHelper, hcall]
        simp only [bind, Except.bind, hadjust, if_neg h₀, if_neg h₁, rmTable, hrun]
        rw [hlen', hlive', hl']
      · rw [hchild, Links.slotAt, Links.child_ofTable]
        split
        · exact hnone
        · exact forall₂_join herases hnone _
      · constructor
        · rintro ⟨c, rest, rfl, hcalled⟩
          rw [Links.child_ofTable] at hcalled
          split at hcalled
          · cases hcalled
          have hlt : c.toNat - min < slots.length := by
            by_contra hge
            rw [getElem?_eq_none (by omega)] at hcalled
            cases hcalled
          refine ⟨c.toNat - min, rest, hlt, ?_, hcalled⟩
          rw [show min + (c.toNat - min) = c.toNat by omega, UInt8.ofNat_toNat]
        · rintro ⟨i, rest, hi, rfl, hcalled⟩
          refine ⟨_, rest, rfl, ?_⟩
          rw [UInt8.toNat_ofNat', Nat.mod_eq_of_lt (by omega), Links.child_ofTable,
            if_neg (by omega), Nat.add_sub_cancel_left]
          exact hcalled

end RemoveAll

/-! ## One key -/

section OneKey
variable {v : V} {t : Mtrie V}

/-- The pipes at a key. -/
def pipes (t : Mtrie V) (k : Bytes) : Finset V := (t.get k).getD ∅

section
variable (h : Valid t) (k : Bytes)
include h k

theorem proper_get : Proper (t.get k) := by
  induction k generalizing t with
  | nil =>
    obtain ⟨hpipes, -, -, -⟩ := h
    exact hpipes
  | cons c _ ih =>
    obtain ⟨-, -, hchildren, -⟩ := h
    rename_i l
    rw [Node.get_cons]
    cases hc : l.child c.toNat with
    | none => nofun
    | some => exact ih (hchildren _ _ hc)

theorem get_eq_none_iff : t.get k = none ↔ pipes t k = ∅ := by
  have hproper := proper_get h k
  rw [pipes]
  cases hget : t.get k with
  | none => simp
  | some =>
    rw [hget] at hproper
    simpa using fun e => hproper (congrArg some e)

theorem add_spec (v : V) :
    ∃ t', add k v t = .ok (t', decide (pipes t k = ∅)) ∧ Valid t' ∧
      ∀ k', pipes t' k' = if k' = k then insert v (pipes t k) else pipes t k' := by
  have hleaf : ∀ p : Option (Finset V), Proper p → Proper (addPipe v p).1 := by
    intro p _ e
    cases p with
    | none => exact singleton_ne_empty v (some.inj e)
    | some s => exact insert_ne_empty v s (some.inj e)
  have hne : (addPipe v (t.get k)).1 ≠ none := by cases t.get k <;> nofun
  obtain ⟨t', hadd, hvalid, _, hget⟩ := Node.add_spec (addPipe v) false proper_none hleaf k t h hne
  have hresult : (addPipe v (t.get k)).2 = decide (pipes t k = ∅) := by
    rw [Bool.eq_iff_iff, decide_eq_true_iff, ← get_eq_none_iff h]
    cases t.get k <;> simp [addPipe]
  rw [hresult] at hadd
  refine ⟨t', hadd, hvalid, fun _ => ?_⟩
  rw [pipes, hget]
  split
  · rw [pipes]
    cases t.get k <;> simp [addPipe]
  · rfl

end

/-- `rm_result` in terms of the pipes at the key. -/
def resultOf (s : Finset V) (v : V) : RmResult :=
  if v ∉ s then .notFound else if s.erase v = ∅ then .lastValueRemoved else .valuesRemain

theorem rm_spec (h : Valid t) (k : Bytes) (v : V) :
    ∃ t', rm k v t = .ok (t', resultOf (pipes t k) v) ∧ Valid t' ∧
      ∀ k', pipes t' k' = if k' = k then (pipes t k).erase v else pipes t k' := by
  -- the set is not empty, so that it can only become empty if the pipe was in it
  have hpipe : ∀ p : Option (Finset V), Proper p → ∃ p', rmPipe v p =
      .ok (p', resultOf (p.getD ∅) v) ∧ Proper p' ∧ p'.getD ∅ = (p.getD ∅).erase v := by
    intro p hp
    cases p with
    | none => exact ⟨none, rfl, nofun, by simp⟩
    | some s =>
      have hs : s ≠ ∅ := fun e => hp (congrArg some e)
      rw [rmPipe]
      by_cases herase : s.erase v = ∅
      · have hv : v ∈ s := by
          by_contra hv
          exact hs ((erase_eq_of_notMem hv).symm.trans herase)
        refine ⟨none, ?_, nofun, herase.symm⟩
        simp [resultOf, hv, herase]
      · refine ⟨some (s.erase v), ?_, fun e => herase (some.inj e), rfl⟩
        by_cases hv : v ∈ s <;> simp [resultOf, herase]
  have hleaf : ∀ p : Option (Finset V), Proper p →
      ∃ p' r, rmPipe v p = .ok (p', r) ∧ Proper p' := by
    intro p hp
    obtain ⟨p', hp', hproper, _⟩ := hpipe p hp
    exact ⟨p', _, hp', hproper⟩
  obtain ⟨t', p', r, hrmPipe, hrm, hvalid, hget, _⟩ :=
    Node.rm_spec (rmPipe v) .notFound Links.compactScan_compacts hleaf rfl k t h
  obtain ⟨p'', hp'', _, herase⟩ := hpipe _ (proper_get h k)
  rw [hrmPipe] at hp''
  cases hp''
  refine ⟨t', hrm, hvalid, fun _ => ?_⟩
  rw [pipes, hget]
  split
  · exact herase
  · rfl

theorem rmAll_spec (h : Valid t) (v : V) (uniq : Bool) :
    ∃ t' calls, rmAll v uniq t = .ok (t', calls) ∧ Valid t' ∧
      (∀ k, pipes t' k = (pipes t k).erase v) ∧ calls.Nodup ∧
      ∀ k, k ∈ calls ↔ v ∈ pipes t k ∧ (uniq = true → (pipes t k).erase v = ∅) := by
  obtain ⟨t', w', hrm, hvalid, hget, calls, hcalls, _, hvisits⟩ :=
    removes_of_valid v uniq h { buff := [], calls := [] } [] 0 Buffer.holds_nil
  rw [length_nil] at hrm
  refine ⟨t', w'.calls, by rw [rmAll, hrm]; rfl, hvalid, fun k => ?_, ?_, fun k => ?_⟩
  · rw [pipes, pipes, hget]
    cases t.get k with
    | none => rfl
    | some =>
      rw [erasePipe]
      split
      · split
        · rename_i e
          exact e.symm
        · rfl
      · rename_i hv
        exact (erase_eq_of_notMem hv).symm
  · rw [hcalls]
    exact hvisits.nodup
  · rw [hcalls, nil_append, hvisits.mem, pipes]
    simp only [nil_append, exists_eq_left']
    cases t.get k with
    | none => simp [erasePipe]
    | some =>
      rw [erasePipe]
      split
      · rename_i hv
        cases uniq <;> simp [hv]
      · rename_i hv
        simp [hv]

theorem pipesOf_eq (p : Option (Finset V)) : pipesOf p = (p.getD ∅).sort := by
  cases p with
  | none => simp [pipesOf]
  | some => rfl

/-- `match` goes on at the child for the next byte. -/
theorem matching_cons (c : UInt8) (rest : Bytes) (p : Option (Finset V)) (h : l.Canonical) :
    matching (c :: rest) (.mk p l) = match l.child c.toNat with
      | none => .ok (pipesOf p)
      | some next => (matching rest next).map (pipesOf p ++ ·) := by
  rw [matching]
  cases h with
  | leaf => rw [child_leaf, if_pos rfl]
  | single min next =>
    rw [child_single]
    by_cases hc : c.toNat = min
    · simp only [hc, Next.getNode, ok_bind, ne_eq, if_true]
      cases matching rest next <;> rfl
    · simp [hc]
  | table min slots hlen hmax hfirst hlast =>
    have hcanon := Links.Canonical.table min slots hlen hmax hfirst hlast
    have h₀ : ¬ (ofTable min slots).count = 0 := by simp only [ofTable]; omega
    have h₁ : ¬ (ofTable min slots).count = 1 := by simp only [ofTable]; omega
    rw [if_neg h₀, if_neg h₁]
    by_cases hout : (ofTable min slots).Outside c.toNat
    · rw [if_pos hout, child, if_pos hout]
    have hslot := hcanon.slot_eq hout
    rw [Links.slot, if_neg h₁] at hslot
    rw [if_neg hout]
    simp only [bind, Except.bind] at hslot ⊢
    cases htable : (ofTable min slots).next.getTable with
    | error => simp [htable] at hslot
    | ok =>
      rw [htable] at hslot
      simp only at hslot ⊢
      rw [hslot]
      cases (ofTable min slots).child c.toNat with
      | none => rfl
      | some next => cases hm : matching rest next <;> simp [Except.map]

/-- `match` visits the nodes of all prefixes of the data. -/
theorem matching_spec (data : Bytes) (t : Mtrie V) (h : Valid t) :
    matching data t = .ok (data.inits.flatMap fun p => (pipes t p).sort) := by
  induction data generalizing t with
  | nil =>
    obtain ⟨-, -, -, -⟩ := h
    simp [matching, pipes, pipesOf_eq, Node.value]
  | cons c rest ih =>
    obtain ⟨-, hcanon, hchildren, -⟩ := h
    rename_i p l
    rw [matching_cons c rest p hcanon, inits_cons, flatMap_cons, flatMap_map, pipesOf_eq]
    have hroot : pipes (Node.mk p l) [] = p.getD ∅ := rfl
    rw [hroot]
    cases hc : l.child c.toNat with
    | none =>
      have hnone : ∀ k, pipes (Node.mk p l) (c :: k) = ∅ := by
        intro k
        rw [pipes, Node.get_cons, hc]
        rfl
      simp [hnone]
    | some next =>
      have hsome : ∀ k, pipes (Node.mk p l) (c :: k) = pipes next k := by
        intro k
        rw [pipes, Node.get_cons, hc]
        rfl
      simp [hsome, ih next (hchildren _ _ hc), Except.map]

end OneKey

/-! ## Sequences of operations -/

/-- A change of the trie. -/
inductive Op (V : Type) where
  | add (key : Bytes) (v : V)
  | rm (key : Bytes) (v : V)
  | rmAll (v : V) (uniq : Bool)
deriving DecidableEq, Repr

/-- What an operation returns, or the keys that it calls its function with. -/
inductive Result where
  | added (first : Bool)
  | removed (result : RmResult)
  | called (keys : List Bytes)
deriving DecidableEq, Repr

/-- One operation and its result. -/
def step (op : Op V) (t : Mtrie V) : Except TrieFault (Mtrie V × Result) :=
  match op with
  | .add key v => do
      let (t, first) ← add key v t
      .ok (t, .added first)
  | .rm key v => do
      let (t, result) ← rm key v t
      .ok (t, .removed result)
  | .rmAll v uniq => do
      let (t, keys) ← rmAll v uniq t
      .ok (t, .called keys)

/-- The trie after a sequence of operations, with all results. -/
def run : List (Op V) → Mtrie V → Except TrieFault (Mtrie V × List Result)
  | [], t => .ok (t, [])
  | op :: ops, t => do
      let (t, result) ← step op t
      let (t, results) ← run ops t
      .ok (t, result :: results)

/-- The relation between keys and values after an operation. -/
def Op.next (r : Finset (Bytes × V)) : Op V → Finset (Bytes × V)
  | .add key v => insert (key, v) r
  | .rm key v => r.erase (key, v)
  | .rmAll v _ => r.filter fun e => e.2 ≠ v

/-- What an operation has to answer if the stored pairs are `r`. -/
def Op.Answer (r : Finset (Bytes × V)) : Op V → Result → Prop
  | .add key _, .added first => first = true ↔ ∀ v, (key, v) ∉ r
  | .rm key v, .removed .notFound => (key, v) ∉ r
  | .rm key v, .removed .lastValueRemoved => (key, v) ∈ r ∧ ∀ v', v' ≠ v → (key, v') ∉ r
  | .rm key v, .removed .valuesRemain => (key, v) ∈ r ∧ ∃ v', v' ≠ v ∧ (key, v') ∈ r
  | .rmAll v uniq, .called keys => keys.Nodup ∧
      ∀ k, k ∈ keys ↔ (k, v) ∈ r ∧ (uniq = true → ∀ v', v' ≠ v → (k, v') ∉ r)
  | _, _ => False

/-- The stored pairs after a sequence of operations. -/
def stored (r : Finset (Bytes × V)) (ops : List (Op V)) : Finset (Bytes × V) :=
  ops.foldl Op.next r

/-- All results of a sequence of operations are right. -/
def Answers (r : Finset (Bytes × V)) : List (Op V) → List Result → Prop
  | [], results => results = []
  | _ :: _, [] => False
  | op :: ops, result :: results => op.Answer r result ∧ Answers (op.next r) ops results

/-- The trie behaves like the relation `r`. -/
structure Represents (t : Mtrie V) (r : Finset (Bytes × V)) : Prop where
  valid : Valid t
  pipes : ∀ k v, v ∈ t.pipes k ↔ (k, v) ∈ r

section Refinement
variable {t : Mtrie V} {r : Finset (Bytes × V)}

theorem represents_new : Represents (Node.new : Mtrie V) ∅ := by
  refine ⟨Node.valid_new proper_none, fun k v => ?_⟩
  rw [pipes, Node.get_new]
  exact iff_of_false (notMem_empty v) (notMem_empty _)

section
variable (h : Represents t r)
include h

section
variable (k : Bytes)
include k

theorem Represents.pipes_eq_empty : t.pipes k = ∅ ↔ ∀ v, (k, v) ∉ r := by
  simp [eq_empty_iff_forall_notMem, h.pipes]

theorem Represents.erase_eq_empty (v : V) :
    (t.pipes k).erase v = ∅ ↔ ∀ v', v' ≠ v → (k, v') ∉ r := by
  simp [eq_empty_iff_forall_notMem, h.pipes]

theorem Represents.answer_rm (v : V) :
    (Op.rm k v).Answer r (.removed (resultOf (t.pipes k) v)) := by
  rw [resultOf]
  by_cases hv : v ∈ t.pipes k
  · rw [if_neg (by simpa using hv)]
    by_cases herase : (t.pipes k).erase v = ∅
    · rw [if_pos herase]
      exact ⟨(h.pipes k v).mp hv, (h.erase_eq_empty k v).mp herase⟩
    rw [if_neg herase]
    refine ⟨(h.pipes k v).mp hv, ?_⟩
    rw [h.erase_eq_empty] at herase
    push Not at herase
    exact herase
  · rw [if_pos hv]
    exact fun hmem => hv ((h.pipes k v).mpr hmem)

theorem Represents.add (v : V) :
    ∃ t', add k v t = .ok (t', decide (t.pipes k = ∅)) ∧ Represents t' (insert (k, v) r) := by
  obtain ⟨t', hadd, hvalid, hpipes⟩ := add_spec h.valid k v
  refine ⟨t', hadd, hvalid, fun _ _ => ?_⟩
  rw [hpipes]
  split
  · rename_i e
    rw [e, mem_insert, h.pipes]
    simp
  · rename_i e
    rw [h.pipes]
    simp [e]

theorem Represents.rm (v : V) :
    ∃ t', rm k v t = .ok (t', resultOf (t.pipes k) v) ∧ Represents t' (r.erase (k, v)) := by
  obtain ⟨t', hrm, hvalid, hpipes⟩ := rm_spec h.valid k v
  refine ⟨t', hrm, hvalid, fun _ _ => ?_⟩
  rw [hpipes]
  split
  · rename_i e
    rw [e, mem_erase, h.pipes]
    simp
  · rename_i e
    rw [h.pipes]
    simp [e]

end

theorem Represents.rmAll (v : V) (uniq : Bool) :
    ∃ t' calls, rmAll v uniq t = .ok (t', calls) ∧
      (Op.rmAll v uniq).Answer r (.called calls) ∧
      Represents t' (r.filter fun e => e.2 ≠ v) := by
  obtain ⟨t', calls, hrm, hvalid, hpipes, hnodup, hcalls⟩ := rmAll_spec h.valid v uniq
  refine ⟨t', calls, hrm, ⟨hnodup, fun k => ?_⟩, hvalid, fun _ _ => ?_⟩
  · rw [hcalls, h.pipes, h.erase_eq_empty]
  · rw [hpipes, Finset.mem_filter, mem_erase, h.pipes, and_comm]

/-- Every operation answers and changes the trie like the relation. -/
theorem step_spec (op : Op V) :
    ∃ t' result, step op t = .ok (t', result) ∧ op.Answer r result ∧ Represents t' (op.next r) := by
  cases op with
  | add k v =>
    obtain ⟨t', hadd, h'⟩ := h.add k v
    refine ⟨t', _, by rw [step, hadd]; rfl, ?_, h'⟩
    rw [Op.Answer, decide_eq_true_iff]
    exact h.pipes_eq_empty k
  | rm k v =>
    obtain ⟨t', hrm, h'⟩ := h.rm k v
    exact ⟨t', _, by rw [step, hrm]; rfl, h.answer_rm k v, h'⟩
  | rmAll v uniq =>
    obtain ⟨t', calls, hrm, hanswer, h'⟩ := h.rmAll v uniq
    exact ⟨t', .called calls, by rw [step, hrm]; rfl, hanswer, h'⟩

end

theorem run_spec (ops : List (Op V)) (h : Represents t r) :
    ∃ t' results, run ops t = .ok (t', results) ∧ Answers r ops results ∧
      Represents t' (stored r ops) := by
  induction ops generalizing t r with
  | nil => exact ⟨t, [], rfl, rfl, h⟩
  | cons op _ ih =>
    obtain ⟨t₁, result, hstep, hanswer, h₁⟩ := step_spec h op
    obtain ⟨t', results, hrun, hanswers, h'⟩ := ih h₁
    exact ⟨t', result :: results, by simp [run, hstep, hrun], ⟨hanswer, hanswers⟩, h'⟩

/-- The values that are stored under one of several keys. -/
theorem Represents.values (h : Represents t r) (ps : List Bytes) (hps : ps.Nodup) :
    ((ps.flatMap fun p => (t.pipes p).sort : List V) : Multiset V) =
      (r.filter fun e => e.1 ∈ ps).val.map Prod.snd := by
  induction ps with
  | nil => simp
  | cons p ps ih =>
    obtain ⟨hp, hps⟩ := nodup_cons.mp hps
    -- the pairs with the key `p` and the others
    have hone : (r.filter fun e => e.1 = p) = (t.pipes p).map (Function.Embedding.sectR p V) := by
      ext ⟨k, v⟩
      simp only [Finset.mem_filter, Finset.mem_map, h.pipes, Function.Embedding.sectR_apply,
        Prod.mk.injEq]
      constructor
      · rintro ⟨hr, rfl⟩
        exact ⟨v, hr, rfl, rfl⟩
      · rintro ⟨v', hr, rfl, rfl⟩
        exact ⟨hr, rfl⟩
    have hsplit : (r.filter fun e => e.1 ∈ p :: ps) =
        (r.filter fun e => e.1 = p).disjUnion (r.filter fun e => e.1 ∈ ps) (by
          rw [disjoint_filter]
          rintro e _ rfl
          exact hp) := by
      rw [disjUnion_eq_union, ← filter_or]
      simp
    rw [hsplit, disjUnion_val, Multiset.map_add, ← ih hps, hone, map_val,
      Multiset.map_map, flatMap_cons, ← Multiset.coe_add, sort_eq]
    simp

theorem nodup_inits (data : Bytes) : data.inits.Nodup := by
  induction data with
  | nil => simp
  | cons c _ ih =>
    rw [inits_cons, nodup_cons]
    exact ⟨by simp, ih.map fun _ _ e => (cons.inj e).2⟩

/-- **The multi-trie refines a relation between keys and values.**  Every sequence of operations
runs without a failed assertion and answers like the relation. Afterwards every node is in
canonical form, and `match` calls its function once for each pair whose key the data starts
with. -/
theorem refines_relation (ops : List (Op V)) :
    ∃ t results, run ops Node.new = .ok (t, results) ∧ Answers ∅ ops results ∧
      Represents t (stored ∅ ops) ∧
      ∀ data, ∃ calls, matching data t = .ok calls ∧
        (calls : Multiset V) =
          ((stored ∅ ops).filter fun e => e.1 <+: data).val.map Prod.snd := by
  obtain ⟨t, results, hrun, hanswers, h⟩ := run_spec ops represents_new
  refine ⟨t, results, hrun, hanswers, h, fun data => ⟨_, matching_spec data t h.valid, ?_⟩⟩
  rw [h.values _ (nodup_inits data)]
  simp

/-- **A pipe is removed everywhere**, whatever operations have led to the trie. The function is
called once with each key that the pipe had, or had alone. Nothing is written past the end of the
buffer, and every node is in canonical form again. -/
theorem removes_everywhere (ops : List (Op V)) (v : V) (uniq : Bool) :
    ∃ t results t' calls, run ops Node.new = .ok (t, results) ∧ rmAll v uniq t = .ok (t', calls) ∧
      (∀ k, t'.pipes k = (t.pipes k).erase v) ∧ Valid t' ∧ calls.Nodup ∧
      ∀ k, k ∈ calls ↔ v ∈ t.pipes k ∧ (uniq = true → t.pipes k = {v}) := by
  obtain ⟨t, results, hrun, -, h⟩ := run_spec ops represents_new
  obtain ⟨t', calls, hrm, hvalid, hpipes, hnodup, hcalls⟩ := rmAll_spec h.valid v uniq
  refine ⟨t, results, t', calls, hrun, hrm, hpipes, hvalid, hnodup, fun k => ?_⟩
  rw [hcalls]
  refine and_congr_right fun hv => forall_congr' fun _ => ?_
  rw [erase_eq_empty_iff, or_iff_right (ne_empty_of_mem hv)]

/-- **The room that a multi-trie takes depends on the stored pairs alone**, not on its history. -/
theorem room_of_stored (ops ops' : List (Op V)) (h : stored ∅ ops = stored ∅ ops') :
    ∃ t t' results results', run ops Node.new = .ok (t, results) ∧
      run ops' Node.new = .ok (t', results') ∧ ∀ k, t.room k = t'.room k := by
  obtain ⟨t, _, hrun, -, hr⟩ := run_spec ops represents_new
  obtain ⟨t', _, hrun', -, hr'⟩ := run_spec ops' represents_new
  refine ⟨t, t', _, _, hrun, hrun', hr.valid.room_eq hr'.valid fun k => ?_⟩
  have hpipes : t.pipes k = t'.pipes k := by
    ext v
    rw [hr.pipes, hr'.pipes, h]
  have hp := proper_get hr.valid k
  have hp' := proper_get hr'.valid k
  cases hk : t.get k <;> cases hk' : t'.get k <;> simp_all [Proper, pipes]

/-- A pipe that leaves takes its nodes with it. -/
theorem room_of_stored_removed : ∃ t results,
    run [.add [7, 1] 5, .add [8] 6, .rmAll 5 true] Node.new = .ok (t, results) ∧
      t.room [7] = none := by
  obtain ⟨t, _, results, _, hrun, hrun', hroom⟩ :=
    room_of_stored [.add [7, 1] 5, .add [8] 6, .rmAll 5 true] [.add [8] 6] (by decide)
  cases hrun'
  exact ⟨t, results, hrun, hroom [7]⟩

end Refinement
end Mtrie
end LibZmq
