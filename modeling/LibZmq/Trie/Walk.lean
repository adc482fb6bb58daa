import LibZmq.Trie.Node

/-!
# Walking through a trie

`trie_t::apply` and `generic_mtrie_t::rm` visit all nodes and pass the key of a node to a
function. The key is collected in a buffer that all levels of the recursion share; its size is
passed by value, so that a caller knows a lower bound only.
-/

namespace LibZmq

open List

/-- The buffer `*buff_`. A byte that was not written yet is `none`. -/
abbrev Buffer := List (Option UInt8)

/-- The buffer and the keys that the function was called with so far. -/
structure Walk where
  buff : Buffer
  calls : List Bytes
deriving DecidableEq, Repr

namespace Buffer

def realloc (b : Buffer) (size : Nat) : Buffer :=
  b.take size ++ List.replicate (size - b.length) none

/-- `(*buff_)[i] = c`. -/
def put (b : Buffer) (i : Nat) (c : UInt8) : Except TrieFault Buffer :=
  if i < b.length then .ok (b.set i (some c)) else .error .outOfRange

/-- The bytes that a function reads from the buffer. -/
def key (b : Buffer) (size : Nat) : Except TrieFault Bytes :=
  if b.length < size then .error .outOfRange
  else
    match (b.take size).mapM id with
    | none => .error .uninitialised
    | some k => .ok k

/-- Adjust the buffer: its content and `maxbuffsize_`. -/
def adjust (b : Buffer) (size max : Nat) : Buffer × Nat :=
  if size ≥ max then (b.realloc (size + 256), size + 256) else (b, max)

/-- The buffer starts with the key `p` and has room for `max` bytes. -/
structure Holds (b : Buffer) (p : Bytes) (max : Nat) : Prop where
  room : max ≤ b.length
  path : p.map some <+: b

variable {b : Buffer} {p : Bytes} {max : Nat}

theorem holds_nil : Holds [] [] 0 := ⟨Nat.le.refl, nil_prefix⟩

theorem Holds.mono (h : Holds b p max) (hle : max' ≤ max) : Holds b p max' :=
  ⟨Nat.le_trans hle h.room, h.path⟩

theorem Holds.pop (h : Holds b (p ++ [c]) max) : Holds b p max := by
  refine ⟨h.room, IsPrefix.trans ?_ h.path⟩
  rw [map_append]
  exact prefix_append _ _

theorem Holds.key (h : Holds b p max) : b.key p.length = .ok p := by
  obtain ⟨rest, rfl⟩ := h.path
  have hmap : ∀ k : Bytes, (k.map some).mapM id = some k := by
    intro k
    induction k with
    | nil => rfl
    | cons c k ih => simp [ih]
  have htake : (p.map some ++ rest).take p.length = p.map some := by
    rw [take_left' (by simp)]
  rw [key, if_neg (by simp), htake, hmap]

theorem Holds.adjust (h : Holds b p max) :
    Holds (b.adjust p.length max).1 p (b.adjust p.length max).2 ∧
      p.length < (b.adjust p.length max).2 ∧ max ≤ (b.adjust p.length max).2 := by
  rw [Buffer.adjust]
  split
  · refine ⟨⟨?_, ?_⟩, by simp only; omega, by simp only; omega⟩
    · simp only [realloc, length_append, length_take, length_replicate]
      omega
    · refine IsPrefix.trans ?_ (prefix_append _ _)
      exact prefix_take_iff.mpr ⟨h.path, by simp⟩
  · exact ⟨h, by simp only; omega, Nat.le.refl⟩

theorem Holds.put (h : Holds b p max) (hlt : p.length < max) (c : UInt8) :
    ∃ b', b.put p.length c = .ok b' ∧ Holds b' (p ++ [c]) max := by
  have hlen : p.length < b.length := Nat.lt_of_lt_of_le hlt h.room
  refine ⟨b.set p.length (some c), if_pos hlen, by simpa using h.room, ?_⟩
  obtain ⟨rest, rfl⟩ := h.path
  cases rest with
  | nil => simp at hlen
  | cons q rest =>
    refine ⟨rest, ?_⟩
    simp

end Buffer

/-- The keys that a walk below `p` has reported: each key of `S` once. -/
structure Visits (calls : List Bytes) (p : Bytes) (S : Bytes → Prop) : Prop where
  nodup : calls.Nodup
  mem : ∀ k, k ∈ calls ↔ ∃ k', k = p ++ k' ∧ S k'

namespace Visits

variable {p : Bytes} {S S' : Bytes → Prop}

theorem congr (h : Visits calls p S) (hS : ∀ k, S' k ↔ S k) : Visits calls p S' :=
  ⟨h.nodup, fun k => by simp [h.mem, hS]⟩

theorem none (p : Bytes) (hS : ∀ k, ¬ S k) : Visits [] p S :=
  ⟨nodup_nil, fun k => by simp [hS]⟩

/-- The walk reports the node itself, or not. -/
theorem root [Decidable a] (p : Bytes) : Visits (if a then [p] else []) p fun k => k = [] ∧ a := by
  split
  · rename_i h
    exact ⟨by simp, fun k => by simp [h]⟩
  · rename_i h
    exact none p fun k hk => h hk.2

/-- The keys of the child for `c`, seen from its parent. -/
theorem below (h : Visits calls (p ++ [c]) S) :
    Visits calls p fun k => ∃ rest, k = c :: rest ∧ S rest := by
  refine ⟨h.nodup, fun k => ?_⟩
  rw [h.mem]
  constructor
  · rintro ⟨rest, rfl, hS⟩
    exact ⟨c :: rest, by simp, rest, rfl, hS⟩
  · rintro ⟨_, rfl, rest, rfl, hS⟩
    exact ⟨rest, by simp, hS⟩

/-- Two parts of a walk that have no key in common. -/
theorem append (h : Visits calls p S) (h' : Visits calls' p S') (hdisjoint : ∀ k, S k → ¬ S' k) :
    Visits (calls ++ calls') p fun k => S k ∨ S' k := by
  refine ⟨nodup_append.mpr ⟨h.nodup, h'.nodup, ?_⟩, fun k => ?_⟩
  · intro k hk _ hk'
    rintro rfl
    obtain ⟨q, rfl, hq⟩ := (h.mem k).mp hk
    obtain ⟨q', e, hq'⟩ := (h'.mem _).mp hk'
    rw [← append_cancel_left e] at hq'
    exact hdisjoint q hq hq'
  · rw [mem_append, h.mem, h'.mem]
    constructor
    · rintro (⟨q, rfl, hq⟩ | ⟨q, rfl, hq⟩)
      · exact ⟨q, rfl, .inl hq⟩
      · exact ⟨q, rfl, .inr hq⟩
    · rintro ⟨q, rfl, hq | hq⟩
      · exact .inl ⟨q, rfl, hq⟩
      · exact .inr ⟨q, rfl, hq⟩

end Visits

namespace Walk

/-- Apply the function to the key in the buffer, if this node requires it. -/
def call (w : Walk) (applies : Bool) (size : Nat) : Except TrieFault Walk :=
  if applies then do
    let key ← w.buff.key size
    .ok { w with calls := w.calls ++ [key] }
  else .ok w

/-- Between `w` and `w'` the keys of `S` below `p` were reported, and the buffer still holds
what it did. -/
def Reported (w w' : Walk) (p : Bytes) (max : Nat) (S : Bytes → Prop) : Prop :=
  ∃ calls, w'.calls = w.calls ++ calls ∧ w'.buff.Holds p max ∧ Visits calls p S

variable {w w' w₁ : Walk} {p : Bytes} {max : Nat} {S S' : Bytes → Prop}

theorem Reported.holds (h : Reported w w' p max S) : w'.buff.Holds p max := by
  obtain ⟨_, _, hholds, _⟩ := h
  exact hholds

theorem Reported.congr (h : Reported w w' p max S) (hS : ∀ k, S' k ↔ S k) :
    Reported w w' p max S' := by
  obtain ⟨calls, hcalls, hholds, hvisits⟩ := h
  exact ⟨calls, hcalls, hholds, hvisits.congr hS⟩

theorem Reported.refl (h : w.buff.Holds p max) (hS : ∀ k, ¬ S k) : Reported w w p max S :=
  ⟨[], (append_nil _).symm, h, .none p hS⟩

theorem Reported.trans (h : Reported w w₁ p max S) (h' : Reported w₁ w' p max S')
    (hdisjoint : ∀ k, S k → ¬ S' k) : Reported w w' p max fun k => S k ∨ S' k := by
  obtain ⟨calls, hcalls, _, hvisits⟩ := h
  obtain ⟨calls', hcalls', hholds, hvisits'⟩ := h'
  exact ⟨calls ++ calls', by rw [hcalls', hcalls, append_assoc], hholds,
    hvisits.append hvisits' hdisjoint⟩

theorem Reported.mono (h : Reported w w' p max S) (hle : max' ≤ max) : Reported w w' p max' S := by
  obtain ⟨calls, hcalls, hholds, hvisits⟩ := h
  exact ⟨calls, hcalls, hholds.mono hle, hvisits⟩

/-- A walk through the child for `c`, before which the buffer was written. -/
theorem Reported.below {buff : Buffer} (h : Reported { w with buff := buff } w' (p ++ [c]) max S) :
    Reported w w' p max fun k => ∃ rest, k = c :: rest ∧ S rest := by
  obtain ⟨calls, hcalls, hholds, hvisits⟩ := h
  exact ⟨calls, hcalls, hholds.pop, hvisits.below⟩

/-- The first lines of a visit: the node itself is reported or not, and there is room for one
more byte. -/
theorem call_adjust (h : w.buff.Holds p max) (applies : Bool) :
    ∃ w₁ buff max', w.call applies p.length = .ok w₁ ∧
      w₁.buff.adjust p.length max = (buff, max') ∧ p.length < max' ∧ max ≤ max' ∧
      Reported w { w₁ with buff := buff } p max' fun k => k = [] ∧ applies = true := by
  have hcall : w.call applies p.length =
      .ok { w with calls := w.calls ++ if applies = true then [p] else [] } := by
    cases applies with
    | false => simp [call]
    | true => simp [call, h.key]
  obtain ⟨hholds, hlt, hle⟩ := h.adjust
  exact ⟨_, _, _, hcall, rfl, hlt, hle, _, rfl, hholds, .root p⟩

end Walk
end LibZmq
