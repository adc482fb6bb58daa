import Mathlib.Algebra.Group.Nat.Defs
import Mathlib.Data.Multiset.AddSub
import LibZmq.Trie.Walk

/-!
# The trie of subscriptions

A subscriber keeps its subscriptions in a `trie_t`, which counts how often each one was added.
The trie stands for a multiset of keys.
-/

namespace LibZmq

open List

/-- A node of `trie_t` with `_refcnt`. -/
abbrev Trie := Node UInt32

namespace Trie

/-- `trie_t::add`. -/
def add (key : Bytes) (t : Trie) : Except TrieFault (Trie × Bool) :=
  Node.add (fun refcnt => (refcnt + 1, refcnt + 1 == 1)) true key t

/-- `trie_t::rm`. -/
def rm (key : Bytes) (t : Trie) : Except TrieFault (Trie × Bool) :=
  Node.rm
    (fun refcnt => .ok (if refcnt = 0 then (refcnt, false) else (refcnt - 1, refcnt - 1 == 0)))
    false Links.compactEnds key t

/-- `trie_t::check`. The pointer to an only child is followed without a test. -/
def check : Bytes → Trie → Except TrieFault Bool
  | [], .mk refcnt _ => .ok (refcnt ≠ 0)
  | c :: rest, .mk refcnt l =>
      if refcnt ≠ 0 then .ok true
      else if l.Outside c.toNat then .ok false
      else do
        match ← l.slot c.toNat with
        | none => if l.count = 1 then .error .nullPointer else .ok false
        | some next => check rest next

mutual

/-- `trie_t::apply_helper`. -/
def applyHelper : Trie → Walk → Nat → Nat → Except TrieFault Walk
  | .mk refcnt ⟨min, count, _, next⟩, w, size, max => do
      -- if this node is a subscription, apply the function
      let w ← w.call (refcnt ≠ 0) size
      let (buff, max) := w.buff.adjust size max
      let w := { w with buff := buff }
      if count = 0 then .ok w
      else if count = 1 then applyNode next min w size max
      else applyTable next min count w size max

/-- There is one subnode. -/
def applyNode : Next Trie → Nat → Walk → Nat → Nat → Except TrieFault Walk
  | .node (some child), min, w, size, max => do
      let buff ← w.buff.put size (UInt8.ofNat min)
      applyHelper child { w with buff := buff } (size + 1) max
  | .node none, _, _, _, _ => .error .nullPointer
  | _, _, _, _, _ => .error .wrongMember

/-- There are multiple subnodes. -/
def applyTable : Next Trie → Nat → Nat → Walk → Nat → Nat → Except TrieFault Walk
  | .table slots, min, count, w, size, max => applySlots slots min count w size max
  | _, _, _, _, _, _ => .error .wrongMember

/-- The rest of the loop over the table, from the byte `c` on. -/
def applySlots : List (Option Trie) → Nat → Nat → Walk → Nat → Nat → Except TrieFault Walk
  | _, _, 0, w, _, _ => .ok w
  | [], _, _ + 1, _, _, _ => .error .outOfRange
  | none :: slots, c, n + 1, w, size, max => do
      let buff ← w.buff.put size (UInt8.ofNat c)
      applySlots slots (c + 1) n { w with buff := buff } size max
  | some child :: slots, c, n + 1, w, size, max => do
      let buff ← w.buff.put size (UInt8.ofNat c)
      let w ← applyHelper child { w with buff := buff } (size + 1) max
      applySlots slots (c + 1) n w size max

end

/-- `trie_t::apply`: the keys that the function is called with. -/
def apply (t : Trie) : Except TrieFault (List Bytes) := do
  let w ← applyHelper t { buff := [], calls := [] } 0 0
  .ok w.calls

/-! ## What the operations do -/

/-- The data of a node may be any number. -/
abbrev Valid (t : Trie) : Prop := Node.Valid (fun _ => True) t

variable {t : Trie}

/-- `check` finds the subscriptions along the path of the data. -/
theorem check_spec (data : Bytes) (t : Trie) (h : Valid t) :
    ∃ found, check data t = .ok found ∧ (found = true ↔ ∃ p, p <+: data ∧ t.get p ≠ 0) := by
  induction data generalizing t with
  | nil =>
    obtain ⟨-, -, -, -⟩ := h
    refine ⟨_, rfl, ?_⟩
    simp
    rfl
  | cons c rest ih =>
    obtain ⟨-, hcanon, hchildren, -⟩ := h
    rename_i v l
    by_cases hv : v = 0
    · -- the node itself is no subscription
      have hprefix : (∃ p, p <+: c :: rest ∧ (Node.mk v l).get p ≠ 0) ↔
          ∃ p, p <+: rest ∧ (Node.mk v l).get (c :: p) ≠ 0 := by
        constructor
        · rintro ⟨p, hp, hne⟩
          cases p with
          | nil => exact absurd hv hne
          | cons d p =>
            obtain ⟨rfl, hp'⟩ := cons_prefix_cons.mp hp
            exact ⟨p, hp', hne⟩
        · rintro ⟨p, hp, hne⟩
          exact ⟨c :: p, cons_prefix_cons.mpr ⟨rfl, hp⟩, hne⟩
      rw [check, if_neg (by simpa using hv), hprefix]
      cases hc : l.child c.toNat with
      | none =>
        have hnone : ¬ ∃ p, p <+: rest ∧ (Node.mk v l).get (c :: p) ≠ 0 := by
          rintro ⟨p, _, hne⟩
          rw [Node.get_cons, hc] at hne
          exact hne rfl
        refine ⟨false, ?_, by simpa using hnone⟩
        by_cases hout : l.Outside c.toNat
        · rw [if_pos hout]
        rw [hcanon.slot_eq hout, hc]
        have hcount : l.count ≠ 1 := by
          intro e
          obtain ⟨next, hnext⟩ := hcanon.exists_child e hout
          rw [hc] at hnext
          cases hnext
        simp [hcount]
      | some next =>
        have hout := Links.not_outside_of_child hc
        obtain ⟨found, hfound, hiff⟩ := ih next (hchildren _ _ hc)
        refine ⟨found, ?_, ?_⟩
        · rw [if_neg hout, hcanon.slot_eq hout, hc]
          exact hfound
        · simp [hiff, Node.get_cons, hc]
    · refine ⟨true, ?_, ?_⟩
      · rw [check, if_pos hv]
      · exact ⟨fun _ => ⟨[], nil_prefix, hv⟩, fun _ => rfl⟩

/-- The keys in a table whose first pointer belongs to the byte `c`. -/
def InSlots (slots : List (Option Trie)) (c : Nat) (k : Bytes) : Prop :=
  ∃ (i : Nat) (child : Trie) (rest : Bytes), slots[i]? = some (some child) ∧
    k = UInt8.ofNat (c + i) :: rest ∧ child.get rest ≠ 0

theorem inSlots_cons (p : Option Trie) (slots : List (Option Trie)) (c : Nat) (k : Bytes) :
    InSlots (p :: slots) c k ↔
      (∃ rest, k = UInt8.ofNat c :: rest ∧ ∃ child, p = some child ∧ child.get rest ≠ 0) ∨
        InSlots slots (c + 1) k := by
  constructor
  · rintro ⟨i, child, rest, hi, hk, hne⟩
    cases i with
    | zero => exact .inl ⟨rest, hk, child, by simpa using hi, hne⟩
    | succ i =>
      refine .inr ⟨i, child, rest, by simpa using hi, ?_, hne⟩
      rw [hk, Nat.add_assoc, Nat.add_comm 1 i]
  · rintro (⟨rest, hk, child, rfl, hne⟩ | ⟨i, child, rest, hi, hk, hne⟩)
    · exact ⟨0, child, rest, rfl, hk, hne⟩
    · refine ⟨i + 1, child, rest, by simpa using hi, ?_, hne⟩
      rw [hk, Nat.add_assoc, Nat.add_comm 1 i]

/-- What `apply_helper` does at a node. -/
def Applies (t : Trie) : Prop :=
  ∀ w p max, w.buff.Holds p max → ∃ w', applyHelper t w p.length max = .ok w' ∧
    w.Reported w' p max fun k => t.get k ≠ 0

/-- The loop over the table reports the keys of each child. -/
theorem applySlots_spec (slots : List (Option Trie)) (hslots : ∀ t, some t ∈ slots → Applies t)
    (c : Nat) (hc : c + slots.length ≤ 256) (w : Walk) (p : Bytes) (max : Nat)
    (hlt : p.length < max) (hw : w.buff.Holds p max) :
    ∃ w', applySlots slots c slots.length w p.length max = .ok w' ∧
      w.Reported w' p max (InSlots slots c) := by
  induction slots generalizing c w with
  | nil =>
    refine ⟨w, by rw [length_nil, applySlots], .refl hw ?_⟩
    rintro k ⟨i, child, rest, hi, _⟩
    simp at hi
  | cons q slots ih =>
    rw [length_cons] at hc
    obtain ⟨buff, hput, hbuff⟩ := hw.put hlt (UInt8.ofNat c)
    -- the first child is reported below the byte `c`
    have hfirst : ∃ w₁, (match q with
          | none => Except.ok { w with buff := buff }
          | some child => applyHelper child { w with buff := buff } (p.length + 1) max) = .ok w₁ ∧
        w.Reported w₁ p max fun k => ∃ rest, k = UInt8.ofNat c :: rest ∧
          ∃ child, q = some child ∧ child.get rest ≠ 0 := by
      cases q with
      | none =>
        refine ⟨_, rfl, .below (.refl hbuff ?_)⟩
        rintro k ⟨child, h, _⟩
        cases h
      | some child =>
        obtain ⟨w₁, hw₁, hreported⟩ :=
          hslots child (by simp) { w with buff := buff } (p ++ [UInt8.ofNat c]) max hbuff
        refine ⟨w₁, by simpa using hw₁, .below (hreported.congr fun k => ?_)⟩
        simp
    obtain ⟨w₁, hw₁, hreported⟩ := hfirst
    obtain ⟨w', hw', hrest⟩ := ih (fun t ht => hslots t (by simp [ht])) (c + 1) (by omega) w₁
      hreported.holds
    refine ⟨w', ?_, (hreported.trans hrest ?_).congr (inSlots_cons q slots c)⟩
    · cases q with
      | none =>
        cases hw₁
        rw [length_cons, applySlots, hput]
        exact hw'
      | some =>
        rw [length_cons, applySlots, hput]
        simp only [ok_bind] at hw₁ ⊢
        rw [hw₁]
        exact hw'
    · -- later children belong to other bytes
      rintro k ⟨rest, rfl, _⟩ ⟨i, child, rest', hi, hk, _⟩
      have hlen : i < slots.length := (List.getElem?_eq_some_iff.mp hi).1
      have := congrArg UInt8.toNat (cons.inj hk).1
      simp only [UInt8.toNat_ofNat'] at this
      omega

theorem get_ne_zero_iff (v : UInt32) (l : Links Trie) (k : Bytes) :
    (Node.mk v l).get k ≠ 0 ↔ (k = [] ∧ decide (v ≠ 0) = true) ∨
      ∃ c rest next, k = c :: rest ∧ l.child c.toNat = some next ∧ next.get rest ≠ 0 := by
  cases k with
  | nil => simp [Node.value]
  | cons c =>
    rw [Node.get_cons]
    cases hc : l.child c.toNat with
    | none =>
      simp [hc]
      rfl
    | some => simp [hc]

/-- **`apply_helper` reports every subscription below its node once.** -/
theorem applies_of_valid (h : Valid t) : Applies t := by
  induction h with
  | @node v l _ hcanon _ _ ih =>
    intro w p max hw
    obtain ⟨w₁, buff, max', hcall, hadjust, hlt, hle, hroot⟩ := w.call_adjust hw (v ≠ 0)
    -- the children are reported after the node itself
    suffices hsub : ∃ w', applyHelper (.mk v l) w p.length max = .ok w' ∧
        Walk.Reported { w₁ with buff := buff } w' p max' fun k =>
          ∃ c rest next, k = c :: rest ∧ l.child c.toNat = some next ∧ next.get rest ≠ 0 by
      obtain ⟨w', hw', hreported⟩ := hsub
      refine ⟨w', hw', ((hroot.trans hreported ?_).mono hle).congr (get_ne_zero_iff v l)⟩
      rintro k ⟨rfl, _⟩ ⟨c, rest, next, hk, _⟩
      cases hk
    have hbuff := hroot.holds
    cases hcanon with
    | leaf =>
      refine ⟨{ w₁ with buff := buff }, ?_, .refl hbuff ?_⟩
      · rw [applyHelper, hcall]
        simp only [ok_bind, hadjust, if_true]
      · rintro k ⟨c, rest, next', _, hc, _⟩
        rw [Links.child_leaf] at hc
        cases hc
    | single min next hmin =>
      obtain ⟨buff', hput, hbuff'⟩ := hbuff.put hlt (UInt8.ofNat min)
      obtain ⟨w', hw', hreported⟩ := ih min next (by simp [Links.child_single])
        { w₁ with buff := buff' } _ _ hbuff'
      refine ⟨w', ?_, hreported.below.congr fun k => ?_⟩
      · rw [length_append] at hw'
        rw [applyHelper, hcall]
        simp only [ok_bind, hadjust, applyNode, hput]
        exact hw'
      · constructor
        · rintro ⟨c, rest, next', rfl, hc, hne⟩
          rw [Links.child_single] at hc
          split at hc
          · rename_i e
            cases hc
            exact ⟨rest, by rw [← e, UInt8.ofNat_toNat], hne⟩
          · cases hc
        · rintro ⟨rest, rfl, hne⟩
          refine ⟨_, rest, next, rfl, ?_, hne⟩
          rw [Links.child_single, if_pos (by simp [Nat.mod_eq_of_lt hmin])]
    | table min slots _ hmax =>
      have hslot : ∀ i child, slots[i]? = some (some child) →
          (Links.ofTable min slots).child (min + i) = some child := by
        intro i child hi
        rw [Links.child_ofTable, if_neg (by omega), Nat.add_sub_cancel_left, hi]
        rfl
      have hslots : ∀ t, some t ∈ slots → Applies t := by
        intro t ht
        obtain ⟨d, hd⟩ := Links.exists_child_ofTable min ht
        exact ih d t hd
      obtain ⟨w', hw', hreported⟩ := applySlots_spec slots hslots min hmax _ p max' hlt hbuff
      refine ⟨w', ?_, hreported.congr fun k => ?_⟩
      · have h₀ : slots.length ≠ 0 := by omega
        have h₁ : slots.length ≠ 1 := by omega
        rw [Links.ofTable, applyHelper, hcall]
        simp only [ok_bind, hadjust, if_neg h₀, if_neg h₁]
        exact hw'
      · constructor
        · rintro ⟨c, rest, next, rfl, hc, hne⟩
          rw [Links.child_ofTable] at hc
          split at hc
          · cases hc
          · refine ⟨c.toNat - min, next, rest, Option.join_eq_some_iff.mp hc, ?_, hne⟩
            rw [show min + (c.toNat - min) = c.toNat by omega, UInt8.ofNat_toNat]
        · rintro ⟨i, child, rest, hi, rfl, hne⟩
          have hilt : i < slots.length := (List.getElem?_eq_some_iff.mp hi).1
          refine ⟨_, rest, child, rfl, ?_, hne⟩
          rw [UInt8.toNat_ofNat', Nat.mod_eq_of_lt (by omega)]
          exact hslot i child hi

/-! ## Sequences of operations -/

/-- A change of the trie. -/
inductive Op where
  | add (key : Bytes)
  | rm (key : Bytes)
deriving DecidableEq, Repr

/-- One operation and its result. -/
def step (op : Op) (t : Trie) : Except TrieFault (Trie × Bool) :=
  match op with
  | .add key => add key t
  | .rm key => rm key t

/-- The trie after a sequence of operations, with all results. -/
def run : List Op → Trie → Except TrieFault (Trie × List Bool)
  | [], t => .ok (t, [])
  | op :: ops, t => do
      let (t, result) ← step op t
      let (t, results) ← run ops t
      .ok (t, result :: results)

/-- The multiset of keys after an operation. -/
def Op.next (m : Multiset Bytes) : Op → Multiset Bytes
  | .add key => key ::ₘ m
  | .rm key => m.erase key

/-- `add` answers whether the key is new, and `rm` whether it was the last one. -/
def Op.answer (m : Multiset Bytes) : Op → Bool
  | .add key => m.count key = 0
  | .rm key => m.count key = 1

/-- The keys that are outstanding after a sequence of operations. -/
def outstanding (m : Multiset Bytes) (ops : List Op) : Multiset Bytes :=
  ops.foldl Op.next m

/-- The results of a sequence of operations. -/
def answers (m : Multiset Bytes) : List Op → List Bool
  | [] => []
  | op :: ops => op.answer m :: answers (op.next m) ops

/-- The trie counts the keys of the multiset. -/
structure Represents (t : Trie) (m : Multiset Bytes) : Prop where
  valid : Valid t
  count : ∀ k, (t.get k).toNat = m.count k

variable {m : Multiset Bytes} {n : UInt32}

theorem represents_new : Represents Node.new 0 := by
  refine ⟨Node.valid_new trivial, fun k => ?_⟩
  rw [Node.get_new]
  rfl

/-- The reference counter does not wrap around. -/
theorem toNat_succ (h : n.toNat + 1 < 2 ^ 32) : (n + 1).toNat = n.toNat + 1 := by
  exact Nat.mod_eq_of_lt h

theorem toNat_pred (h : n ≠ 0) : (n - 1).toNat = n.toNat - 1 := by
  have hpos : 0 < n.toNat := Nat.pos_of_ne_zero fun e => h (UInt32.toNat_inj.mp e)
  exact UInt32.toNat_sub_of_le _ _ (UInt32.le_iff_toNat_le.mpr hpos)

theorem add_spec (h : Represents t m) (k : Bytes) (hlt : m.count k + 1 < 2 ^ 32) :
    ∃ t', add k t = .ok (t', decide (m.count k = 0)) ∧ Represents t' (k ::ₘ m) := by
  have hsucc : (t.get k + 1).toNat = m.count k + 1 := by
    rw [toNat_succ (by rw [h.count]; exact hlt), h.count]
  have hne : t.get k + 1 ≠ 0 := by
    intro e
    rw [e] at hsucc
    cases hsucc
  obtain ⟨t', hadd, hvalid, _, hget⟩ :=
    Node.add_spec (fun refcnt : UInt32 => (refcnt + 1, refcnt + 1 == 1)) true
      trivial (fun _ _ => trivial) k t h.valid hne
  have hresult : (t.get k + 1 == 1) = decide (m.count k = 0) := by
    rw [Bool.eq_iff_iff, beq_iff_eq, ← UInt32.toNat_inj, hsucc]
    simp
  rw [hresult] at hadd
  refine ⟨t', hadd, hvalid, fun k' => ?_⟩
  rw [hget, Multiset.count_cons]
  split
  · rename_i e
    rw [e]
    exact hsucc
  · exact h.count k'

theorem rm_spec (h : Represents t m) (k : Bytes) :
    ∃ t', rm k t = .ok (t', decide (m.count k = 1)) ∧ Represents t' (m.erase k) ∧
      (k ∉ m → t' = t) := by
  obtain ⟨t', v', result, hleaf, hrm, hvalid, hget, hsame⟩ :=
    Node.rm_spec (fun refcnt : UInt32 =>
        .ok (if refcnt = 0 then (refcnt, false) else (refcnt - 1, refcnt - 1 == 0)))
      false Links.compactEnds_compacts (fun _ _ => ⟨_, _, rfl, trivial⟩) rfl k t h.valid
  have hcount := h.count k
  -- what happens at the node of the key
  have hv : v'.toNat = m.count k - 1 ∧ result = decide (m.count k = 1) := by
    by_cases hzero : t.get k = 0
    · rw [if_pos hzero] at hleaf
      cases hleaf
      rw [hzero] at hcount
      rw [hzero, ← hcount]
      exact ⟨rfl, rfl⟩
    rw [if_neg hzero] at hleaf
    cases hleaf
    have hpos : 0 < (t.get k).toNat := Nat.pos_of_ne_zero fun e => hzero (UInt32.toNat_inj.mp e)
    refine ⟨by rw [toNat_pred hzero, hcount], ?_⟩
    rw [Bool.eq_iff_iff, beq_iff_eq, decide_eq_true_iff, ← UInt32.toNat_inj, toNat_pred hzero,
      ← hcount]
    simp only [UInt32.toNat_zero]
    omega
  obtain ⟨hv', rfl⟩ := hv
  refine ⟨t', hrm, ⟨hvalid, fun k' => ?_⟩, fun hk => hsame ?_⟩
  · rw [hget]
    split
    · rename_i e
      rw [e, Multiset.count_erase_self, hv']
    · rename_i e
      rw [Multiset.count_erase_of_ne e]
      exact h.count k'
  · rw [← UInt32.toNat_inj, hv', hcount, Multiset.count_eq_zero.mpr hk]

theorem step_spec (h : Represents t m) (op : Op) (hlt : ∀ k, (op.next m).count k < 2 ^ 32) :
    ∃ t', step op t = .ok (t', op.answer m) ∧ Represents t' (op.next m) := by
  cases op with
  | add k =>
    refine add_spec h k ?_
    have := hlt k
    rwa [Op.next, Multiset.count_cons_self] at this
  | rm k =>
    obtain ⟨t', hrm, h', _⟩ := rm_spec h k
    exact ⟨t', hrm, h'⟩

theorem run_spec (ops : List Op) (h : Represents t m)
    (hlt : ∀ n k, (outstanding m (ops.take n)).count k < 2 ^ 32) :
    ∃ t', run ops t = .ok (t', answers m ops) ∧ Represents t' (outstanding m ops) := by
  induction ops generalizing t m with
  | nil => exact ⟨t, rfl, h⟩
  | cons op _ ih =>
    obtain ⟨t₁, hstep, h₁⟩ := step_spec h op (hlt 1)
    obtain ⟨t', hrun, h'⟩ := ih h₁ fun n => hlt (n + 1)
    refine ⟨t', ?_, h'⟩
    simp [run, hstep, hrun, answers]

/-- The trie behaves like the multiset `m`. -/
structure Behaves (t : Trie) (m : Multiset Bytes) : Prop where
  /-- Every node is in canonical form and no child is redundant. -/
  valid : Valid t
  check : ∀ data, ∃ found, Trie.check data t = .ok found ∧
    (found = true ↔ ∃ p ∈ m, p <+: data)
  apply : ∃ keys, Trie.apply t = .ok keys ∧ keys.Nodup ∧ ∀ k, k ∈ keys ↔ k ∈ m
  /-- Removing a key that is not there changes nothing. -/
  absent : ∀ k, k ∉ m → Trie.rm k t = .ok (t, false)

theorem Represents.get_ne_zero (h : Represents t m) (k : Bytes) : t.get k ≠ 0 ↔ k ∈ m := by
  rw [← Multiset.count_pos, ← h.count, Nat.pos_iff_ne_zero]
  exact not_congr UInt32.toNat_inj.symm

theorem Represents.behaves (h : Represents t m) : Behaves t m := by
  refine ⟨h.valid, fun data => ?_, ?_, fun k hk => ?_⟩
  · obtain ⟨found, hfound, hiff⟩ := check_spec data t h.valid
    refine ⟨found, hfound, hiff.trans ?_⟩
    simp [h.get_ne_zero, and_comm]
  · obtain ⟨w, hw, calls, hcalls, _, hvisits⟩ :=
      applies_of_valid h.valid { buff := [], calls := [] } [] 0 Buffer.holds_nil
    rw [length_nil] at hw
    refine ⟨w.calls, by rw [apply, hw]; rfl, ?_, fun k => ?_⟩
    · rw [hcalls]
      exact hvisits.nodup
    · rw [hcalls]
      simpa [h.get_ne_zero] using hvisits.mem k
  · obtain ⟨t', hrm, _, hsame⟩ := rm_spec h k
    rw [hrm, hsame hk, Multiset.count_eq_zero.mpr hk]
    rfl

/-- **The trie refines a multiset of keys.**  While no key has `2 ^ 32` outstanding `add`s, every
sequence of operations runs without a failed assertion, gives the results of the multiset and
leaves a trie that behaves like it. -/
theorem refines_multiset (ops : List Op)
    (hlt : ∀ n k, (outstanding 0 (ops.take n)).count k < 2 ^ 32) :
    ∃ t, run ops Node.new = .ok (t, answers 0 ops) ∧ Behaves t (outstanding 0 ops) := by
  obtain ⟨t, hrun, h⟩ := run_spec ops represents_new hlt
  exact ⟨t, hrun, h.behaves⟩

/-- Each operation adds one key at most. -/
theorem count_outstanding_le (ops : List Op) (m : Multiset Bytes) (k : Bytes) :
    (outstanding m ops).count k ≤ m.count k + ops.length := by
  induction ops generalizing m with
  | nil => exact le_rfl
  | cons op _ ih =>
    refine Nat.le_trans (ih _) ?_
    have hnext : (op.next m).count k ≤ m.count k + 1 := by
      cases op with
      | add =>
        rw [Op.next, Multiset.count_cons]
        split <;> omega
      | rm key =>
        exact Nat.le_trans (Multiset.count_le_of_le k (Multiset.erase_le key m)) (by omega)
    rw [length_cons]
    omega

/-- Three children, of which the middle one and the last one are removed again: the table is
replaced by a pointer to the child that is left. -/
theorem refines_multiset_three_keys :
    ∃ t, run [.add [7, 1], .add [9], .add [8], .rm [8], .rm [9]] Node.new =
        .ok (t, [true, true, true, true, true]) ∧ Behaves t {[7, 1]} := by
  obtain ⟨t, hrun, h⟩ := refines_multiset [.add [7, 1], .add [9], .add [8], .rm [8], .rm [9]]
    fun n k => by
      have := count_outstanding_le (([.add [7, 1], .add [9], .add [8], .rm [8], .rm [9]] :
        List Op).take n) 0 k
      simp at this
      omega
  exact ⟨t, hrun, h⟩

end Trie
end LibZmq
