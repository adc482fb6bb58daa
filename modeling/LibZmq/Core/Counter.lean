import Mathlib.Algebra.Group.Nat.Defs
import Mathlib.Data.List.Basic
import Mathlib.Tactic.Common

/-!
# Numbering with a counter of 64 bits

A sender numbers its items with a counter that wraps around. A receiver that has seen the number
`low` takes only larger ones. As long as the counter has not come round to `low` again, the number
of an item says which one it is, and what is taken is in the order in which it was sent.

* `counterAt` — the number of an item;
* `toNat_counterAt_of_lt` — a number above `low` has not wrapped;
* `sublist_take_concat` — the items that were taken, one after the other.
-/

namespace LibZmq.Core

variable {α : Type*} {first low : UInt64} {i j count : Nat}

/-- The number of the item with index `i`, if the first one has the number `first`. -/
def counterAt (first : UInt64) (i : Nat) : UInt64 := first + UInt64.ofNat i

@[simp] theorem counterAt_zero (first : UInt64) : counterAt first 0 = first :=
  UInt64.add_zero first

theorem counterAt_succ (first : UInt64) (i : Nat) :
    counterAt first i + 1 = counterAt first (i + 1) := by
  unfold counterAt
  rw [UInt64.ofNat_add, UInt64.add_assoc]
  rfl

theorem toNat_counterAt (first : UInt64) (i : Nat) :
    (counterAt first i).toNat = (first.toNat + i) % 2 ^ 64 := by
  unfold counterAt
  rw [UInt64.toNat_add, UInt64.toNat_ofNat', Nat.add_mod_mod]

/-- Fewer than `2 ^ 64` items have different numbers. -/
theorem counterAt_inj (hi : i < 2 ^ 64) (hj : j < 2 ^ 64)
    (h : counterAt first i = counterAt first j) : i = j := by
  have hnat := congrArg UInt64.toNat h
  rw [toNat_counterAt, toNat_counterAt] at hnat
  omega

/-- A number above `low` has not wrapped around, as long as the counter has not reached `low`
again. -/
theorem toNat_counterAt_of_lt (hcount : first.toNat + count ≤ 2 ^ 64 + low.toNat + 1)
    (hi : i < count) (hlow : low < counterAt first i) :
    (counterAt first i).toNat = first.toNat + i := by
  have hlt := UInt64.lt_iff_toNat_lt.mp hlow
  rw [toNat_counterAt] at hlt ⊢
  omega

/-- What comes after everything that was taken can be taken next. -/
theorem sublist_take_concat {taken sent : List α} {x : α} (h : taken.Sublist (sent.take j))
    (hle : j ≤ i) (hx : sent[i]? = some x) : (taken ++ [x]).Sublist (sent.take (i + 1)) := by
  rw [List.take_add_one, hx]
  exact (h.trans (List.take_sublist_take_left hle)).append (List.Sublist.refl _)

end LibZmq.Core
