import LibZmq.Trie.Compact
import LibZmq.Wire.Bytes

/-!
# Nodes of a trie

`trie_t` and `generic_mtrie_t` are the same tree with different data in the nodes: the number
of subscriptions or the set of pipes. `add` and `rm` take what has to be done at the node of
the key, and the value that means "no data" is the default one.

A trie stands for the function `get` from keys to data. Every node of a `Valid` trie has its
children in canonical form and none of them is redundant; `add_spec` and `rm_spec` say that
the operations keep this and change the data at one key.
-/

namespace LibZmq

/-- A node with its data. -/
inductive Node (α : Type) where
  | mk (value : α) (links : Links (Node α))

namespace Node

variable {α β : Type}

/-- `_refcnt` or `_pipes`. -/
def value : Node α → α
  | .mk v _ => v

def links : Node α → Links (Node α)
  | .mk _ l => l

variable [Inhabited α]

/-- A new node. -/
def new : Node α := .mk default .empty

/-- `add`, where `leaf` is what happens at the node of the key. -/
def add (leaf : α → α × β) (checked : Bool) : Bytes → Node α → Except TrieFault (Node α × β)
  | [], .mk v l => .ok (.mk (leaf v).1 l, (leaf v).2)
  | c :: rest, .mk v l => do
      let l ← l.extend c.toNat
      let l ← l.create c.toNat new checked
      match ← l.slot c.toNat with
      | none => .error .nullPointer
      | some next =>
          let (next, result) ← add leaf checked rest next
          let l ← l.setSlot c.toNat (some next)
          .ok (.mk v l, result)

/-- The data at a key. -/
def get (t : Node α) : Bytes → α
  | [] => t.value
  | c :: rest =>
      match t.links.child c.toNat with
      | none => default
      | some next => next.get rest

variable {t : Node α} {v : α}

@[simp] theorem get_nil : t.get [] = t.value := rfl

theorem get_cons (v : α) (l : Links (Node α)) (c : UInt8) (rest : Bytes) :
    (mk v l).get (c :: rest) = ((l.child c.toNat).map (·.get rest)).getD default := by
  rw [get, links]
  cases l.child c.toNat <;> rfl

theorem get_new (k : Bytes) : (new : Node α).get k = default := by
  cases k with
  | nil => rfl
  | cons =>
    rfl

/-- The data in the child for `c` and everywhere else. -/
theorem get_of_sets (hsets : Links.Sets l l' c.toNat p) (k' : Bytes) :
    (mk v l').get k' = match k' with
      | [] => v
      | d :: rest =>
          if d = c then (p.map (·.get rest)).getD default else (mk v l).get (d :: rest) := by
  cases k' with
  | nil => rfl
  | cons =>
    simp only [get_cons, hsets.child, UInt8.toNat_inj]
    split <;> rfl

/-- There is a child where there is data below a byte. -/
theorem child_eq_none_iff (h : l.Canonical)
    (hdata : ∀ c t, l.child c = some t → ∃ k, t.get k ≠ default) :
    l.child n = none ↔ ∀ (c : UInt8) k, c.toNat = n → (mk v l).get (c :: k) = default := by
  constructor
  · rintro hc c k rfl
    rw [get_cons, hc]
    rfl
  · intro hno
    cases hc : l.child n with
    | none => rfl
    | some t =>
      obtain ⟨k, hk⟩ := hdata n t hc
      have hn : (UInt8.ofNat n).toNat = n := Nat.mod_eq_of_lt (h.lt hc)
      refine absurd (hno _ k hn) ?_
      rwa [get_cons, hn, hc]

variable [DecidableEq α]

def isRedundant (t : Node α) : Bool := decide (t.value = default ∧ t.links.live = 0)

/-- The end of `rm`: the child for `c` is now `next`, which is pruned if it is redundant. -/
def putBack
    (compact : Links (Node α) → List (Option (Node α)) → Nat → Except TrieFault (Links (Node α)))
    (l : Links (Node α)) (c : Nat) (next : Node α) : Except TrieFault (Links (Node α)) :=
  if next.isRedundant then Links.prune compact l c else l.setSlot c (some next)

/-- `rm`, where `leaf` is what happens at the node of the key and `missing` is the result if
there is none. -/
def rm (leaf : α → Except TrieFault (α × β)) (missing : β)
    (compact : Links (Node α) → List (Option (Node α)) → Nat → Except TrieFault (Links (Node α))) :
    Bytes → Node α → Except TrieFault (Node α × β)
  | [], .mk v l => do
      let (v, result) ← leaf v
      .ok (.mk v l, result)
  | c :: rest, .mk v l =>
      if l.count = 0 ∨ l.Outside c.toNat then .ok (.mk v l, missing)
      else do
        match ← l.slot c.toNat with
        | none => .ok (.mk v l, missing)
        | some next =>
            let (next, result) ← rm leaf missing compact rest next
            let l ← putBack compact l c.toNat next
            .ok (.mk v l, result)

/-- Every node is in canonical form, has proper data and no redundant child. -/
inductive Valid (P : α → Prop) : Node α → Prop
  | node {v : α} {l : Links (Node α)} (value : P v) (canonical : l.Canonical)
      (children : ∀ c t, l.child c = some t → Valid P t)
      (useful : ∀ c t, l.child c = some t → t.isRedundant = false) : Valid P (.mk v l)

variable {P : α → Prop}

theorem valid_new (h : P default) : Valid P (new : Node α) := by
  refine .node h Links.canonical_empty (fun c t hc => ?_) (fun c t hc => ?_) <;>
  · cases hc

theorem get_of_isRedundant (h : Valid P t) (hr : t.isRedundant = true) (k : Bytes) :
    t.get k = default := by
  obtain ⟨hvalue, hlive⟩ := of_decide_eq_true hr
  cases k with
  | nil => exact hvalue
  | cons =>
    cases h with
    | node _ hcanon =>
      rw [get_cons, hcanon.live_eq_zero_iff.mp hlive]
      rfl

/-- A node with data or with a child is not redundant. -/
theorem isRedundant_eq_false (h : t.value ≠ default ∨ ∃ c next, t.links.child c = some next)
    (hcanon : t.links.Canonical) : t.isRedundant = false := by
  refine decide_eq_false fun ⟨hvalue, hlive⟩ => ?_
  rcases h with h | ⟨c, next, h⟩
  · exact h hvalue
  · rw [hcanon.live_eq_zero_iff.mp hlive] at h
    cases h

theorem Valid.sets (h : Valid P (mk v l)) (hsets : Links.Sets l l' n p)
    (hp : ∀ t, p = some t → Valid P t ∧ t.isRedundant = false) : Valid P (mk v l') := by
  cases h with
  | node hvalue _ hchildren huseful =>
    have hchild : ∀ d t, l'.child d = some t → Valid P t ∧ t.isRedundant = false := by
      intro d t hd
      rw [hsets.child] at hd
      split at hd
      · exact hp t hd
      · exact ⟨hchildren d t hd, huseful d t hd⟩
    exact .node hvalue hsets.canonical (fun d t hd => (hchild d t hd).1)
      fun d t hd => (hchild d t hd).2

/-- **`add` changes the data at its key.**  If it leaves some there, nothing is redundant
afterwards. -/
theorem add_spec (leaf : α → α × β) (checked : Bool) (hdefault : P default)
    (hleaf : ∀ v, P v → P (leaf v).1) (k : Bytes) (t : Node α) (h : Valid P t)
    (hne : (leaf (t.get k)).1 ≠ default) :
    ∃ t', add leaf checked k t = .ok (t', (leaf (t.get k)).2) ∧ Valid P t' ∧
      t'.isRedundant = false ∧
      ∀ k', t'.get k' = if k' = k then (leaf (t.get k)).1 else t.get k' := by
  induction k generalizing t with
  | nil =>
    obtain ⟨hvalue, hcanon, hchildren, huseful⟩ := h
    rename_i v l
    refine ⟨_, rfl, .node (hleaf v hvalue) hcanon hchildren huseful,
      isRedundant_eq_false (.inl hne) hcanon, fun k' => ?_⟩
    cases k' with
    | nil => rfl
    | cons => rw [if_neg (List.cons_ne_nil _ _), get_cons, get_cons]
  | cons c _ ih =>
    have hvalid := h
    obtain ⟨-, hcanon, hchildren, -⟩ := h
    rename_i v l
    obtain ⟨l₁, l₂, hextend, hcreate, hsets⟩ := hcanon.grow c.toNat_lt (new : Node α) checked
    -- the child for `c`, which may be a new node
    have hchild := hsets.child_self
    generalize hnext : (l.child c.toNat).getD new = next at hchild hsets
    have hnextValid : Valid P next := by
      cases hc : l.child c.toNat with
      | none =>
        rw [hc] at hnext
        exact hnext ▸ valid_new hdefault
      | some =>
        rw [hc] at hnext
        exact hnext ▸ hchildren _ _ hc
    have hget : ∀ rest', (mk v l).get (c :: rest') = next.get rest' := by
      intro rest'
      rw [get_cons]
      cases hc : l.child c.toNat with
      | none =>
        rw [hc] at hnext
        rw [← hnext]
        exact (get_new rest').symm
      | some =>
        rw [hc] at hnext
        rw [← hnext]
        rfl
    rw [hget] at hne ⊢
    obtain ⟨next', hadd, hvalid', hred, hget'⟩ := ih next hnextValid hne
    obtain ⟨l₃, hset, hsets₃⟩ := hsets.canonical.setSlot_sets hchild next'
    have hslot := hsets.canonical.slot_eq (Links.not_outside_of_child hchild)
    rw [hchild] at hslot
    have hsets' : Links.Sets l l₃ c.toNat (some next') := by
      refine ⟨hsets₃.canonical, fun d => ?_⟩
      rw [hsets₃.child, hsets.child]
      split <;> rfl
    refine ⟨mk v l₃, ?_, hvalid.sets hsets' fun t ht => ?_, ?_, fun k' => ?_⟩
    · simp [add, hextend, hcreate, hslot, hadd, hset]
    · cases ht
      exact ⟨hvalid', hred⟩
    · exact isRedundant_eq_false (.inr ⟨_, _, hsets'.child_self⟩) hsets'.canonical
    · rw [get_of_sets hsets']
      cases k' with
      | nil => rfl
      | cons d =>
        by_cases hd : d = c
        · subst hd
          simp only [if_true, Option.map_some, Option.getD_some, hget, hget', List.cons.injEq,
            true_and]
        · simp [hd]

/-- **`rm` changes the data at its key.**  It leaves everything as it was if there is nothing
to change. -/
theorem rm_spec (leaf : α → Except TrieFault (α × β)) (missing : β)
    {compact : Links (Node α) → List (Option (Node α)) → Nat → Except TrieFault (Links (Node α))}
    (hcompact : Links.Compacts compact)
    (hleaf : ∀ v, P v → ∃ v' result, leaf v = .ok (v', result) ∧ P v')
    (hmissing : leaf default = .ok (default, missing)) (k : Bytes) (t : Node α) (h : Valid P t) :
    ∃ t' v' result, leaf (t.get k) = .ok (v', result) ∧
      rm leaf missing compact k t = .ok (t', result) ∧ Valid P t' ∧
      (∀ k', t'.get k' = if k' = k then v' else t.get k') ∧ (v' = t.get k → t' = t) := by
  induction k generalizing t with
  | nil =>
    obtain ⟨hvalue, hcanon, hchildren, huseful⟩ := h
    rename_i v l
    obtain ⟨v', result, hv', hp⟩ := hleaf v hvalue
    refine ⟨mk v' l, v', result, hv', by rw [rm, hv']; rfl, .node hp hcanon hchildren huseful,
      fun k' => ?_, fun e => by rw [e]; rfl⟩
    cases k' with
    | nil => rfl
    | cons => rw [if_neg (List.cons_ne_nil _ _), get_cons, get_cons]
  | cons c rest ih =>
    have hvalid := h
    obtain ⟨-, hcanon, hchildren, huseful⟩ := h
    rename_i v l
    cases hc : l.child c.toNat with
    | none =>
      have hget : (mk v l).get (c :: rest) = default := by
        rw [get_cons, hc]
        rfl
      rw [hget]
      refine ⟨mk v l, default, missing, hmissing, ?_, hvalid, fun k' => ?_, fun _ => rfl⟩
      · rw [rm]
        by_cases hout : l.Outside c.toNat
        · rw [if_pos (.inr hout)]
        have hcount : l.count ≠ 0 := by
          simp only [Links.Outside] at hout
          omega
        rw [if_neg (by simp [hcount, hout]), hcanon.slot_eq hout, hc]
        rfl
      · split
        · rename_i e
          rw [e, hget]
        · rfl
    | some next =>
      have hin := Links.not_outside_of_child hc
      have hcount : l.count ≠ 0 := by
        simp only [Links.Outside] at hin
        omega
      have hslot := hcanon.slot_eq hin
      rw [hc] at hslot
      have hget : ∀ rest', (mk v l).get (c :: rest') = next.get rest' := by
        intro rest'
        rw [get_cons, hc]
        rfl
      obtain ⟨next', v', result, hv', hrm, hvalid', hget', hsame⟩ := ih next (hchildren _ _ hc)
      rw [hget]
      -- the child is pruned or stays
      have hlinks : ∃ l' p, putBack compact l c.toNat next' = .ok l' ∧ Links.Sets l l' c.toNat p ∧
          (∀ t, p = some t → Valid P t ∧ t.isRedundant = false) ∧
          (∀ rest', (p.map (·.get rest')).getD default = next'.get rest') ∧
          (next' = next → l' = l) := by
        by_cases hred : next'.isRedundant = true
        · obtain ⟨l', hl', hsets⟩ := hcanon.prune_sets hcompact hc
          refine ⟨l', none, by rw [putBack, if_pos hred, hl'], hsets, (fun t e => by cases e),
            fun rest' => ?_, fun e => ?_⟩
          · exact (get_of_isRedundant hvalid' hred rest').symm
          · rw [e, huseful _ _ hc] at hred
            cases hred
        obtain ⟨l', hl', hsets⟩ := hcanon.setSlot_sets hc next'
        refine ⟨l', some next', by rw [putBack, if_neg hred, hl'], hsets, fun t ht => ?_,
          fun _ => rfl, fun e => ?_⟩
        · cases ht
          exact ⟨hvalid', by simpa using hred⟩
        · rw [e, Links.setSlot_self hslot] at hl'
          cases hl'
          rfl
      obtain ⟨l', p, hl', hsets, hp, hgetp, hsame'⟩ := hlinks
      refine ⟨mk v l', v', result, hv', ?_, hvalid.sets hsets hp, fun k' => ?_, fun e => ?_⟩
      · simp [rm, hcount, hin, hslot, hrm, hl']
      · rw [get_of_sets hsets]
        cases k' with
        | nil => rfl
        | cons d =>
          by_cases hd : d = c
          · subst hd
            simp [hgetp, hget, hget']
          · simp [hd]
      · rw [hsame' (hsame e)]

/-! ## The room that a trie takes -/

/-- The bytes out of range at the node of a key, if there is one. -/
def room (t : Node α) : Bytes → Option (Nat → Prop)
  | [] => some t.links.Outside
  | c :: rest => (t.links.child c.toNat).bind (·.room rest)

/-- There is data at or below a node that is not redundant. -/
theorem Valid.exists_get (h : Valid P t) (hr : t.isRedundant = false) : ∃ k, t.get k ≠ default := by
  induction h with
  | @node v l _ hcanon _ huseful ih =>
    by_contra! hno
    refine of_decide_eq_false hr ⟨hno [], hcanon.live_eq_zero_iff.mpr fun c => ?_⟩
    exact (child_eq_none_iff hcanon fun c t hc => ih c t hc (huseful c t hc)).mpr fun _ _ _ => hno _

/-- **The data of a trie decides which nodes it has and how large they are.** -/
theorem Valid.room_eq (h : Valid P t) (h' : Valid P t') (hget : ∀ k, t.get k = t'.get k)
    (k : Bytes) : t.room k = t'.room k := by
  induction h generalizing t' k with
  | @node v l _ hcanon hchildren huseful ih =>
    obtain ⟨-, hcanon', hchildren', huseful'⟩ := h'
    rename_i v' l'
    have hnone : ∀ n, l.child n = none ↔ l'.child n = none := by
      intro n
      rw [child_eq_none_iff (v := v) hcanon fun c t hc => (hchildren c t hc).exists_get
        (huseful c t hc), child_eq_none_iff (v := v') hcanon' fun c t hc =>
          (hchildren' c t hc).exists_get (huseful' c t hc)]
      simp only [hget]
    cases k with
    | nil =>
      refine congrArg some (funext fun c => propext (not_iff_not.mp ?_))
      rw [links, links, hcanon.not_outside_iff, hcanon'.not_outside_iff]
      simp only [ne_eq, hnone]
    | cons c rest =>
      simp only [room, links]
      cases hc : l.child c.toNat with
      | none => rw [(hnone _).mp hc]
      | some next =>
        cases hc' : l'.child c.toNat with
        | none => simp [(hnone _).mpr hc'] at hc
        | some next' =>
          refine ih _ _ hc (hchildren' _ _ hc') (fun k => ?_) rest
          simpa [get_cons, hc, hc'] using hget (c :: k)

end Node
end LibZmq
