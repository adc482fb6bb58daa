import Mathlib.Data.Vector.Basic

/-!
# Blocks of a fixed size

A message with a fixed layout is a list that is put together from blocks, and is taken apart by
cutting blocks out of it. The type of a block says how long it is, so that a cut has to show that
it stays inside of the list.

* `cut` — the block at a position;
* `cut_eq` — what stands at a position is what is cut out there;
* `append_inj` — blocks of the same sizes can be told apart.
-/

namespace LibZmq.Core

variable {α : Type*} {l p q : List α} {m n start : Nat}

/-- The `n` elements from the position `start` on. -/
def cut (l : List α) (start n : Nat) (h : start + n ≤ l.length) : List.Vector α n :=
  ⟨(l.drop start).take n, by
    rw [List.length_take, List.length_drop]
    omega⟩

@[simp] theorem toList_cut (h : start + n ≤ l.length) :
    (cut l start n h).toList = (l.drop start).take n := rfl

theorem cut_eq {b : List.Vector α n} {h : start + n ≤ l.length} (hl : l = p ++ (b.toList ++ q))
    (hstart : p.length = start) : cut l start n h = b := by
  refine List.Vector.eq _ _ ?_
  rw [toList_cut, hl, List.drop_left' hstart, List.take_left' b.toList_length]

/-- Two blocks that follow one another can be told apart. -/
theorem append_inj {a a' : List.Vector α m} {b b' : List.Vector α n} (h : a ++ b = a' ++ b') :
    a = a' ∧ b = b' := by
  have hlists := congrArg List.Vector.toList h
  have hlength : a.toList.length = a'.toList.length := by
    rw [List.Vector.toList_length, List.Vector.toList_length]
  obtain ⟨ha, hb⟩ := List.append_inj hlists hlength
  exact ⟨List.Vector.eq _ _ ha, List.Vector.eq _ _ hb⟩

/-- A block of a list that is a block itself. -/
def slice (b : List.Vector α m) (start n : Nat) (h : start + n ≤ m) : List.Vector α n :=
  cut b.toList start n (by rwa [b.toList_length])

theorem slice_eq {b : List.Vector α m} {c : List.Vector α n} {h : start + n ≤ m}
    (hb : b.toList = p ++ (c.toList ++ q)) (hstart : p.length = start) : slice b start n h = c :=
  cut_eq hb hstart

end LibZmq.Core
