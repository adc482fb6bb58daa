import Mathlib.Algebra.Group.Nat.Defs
import LibZmq.Core.Execution

/-!
# Waiting before a new connection

`stream_connecter_base_t` (`stream_connecter_base.cpp`) waits before it connects again. The time is
doubled with every call up to a maximum, and has some jitter.
-/

namespace LibZmq.Reconnect

open LibZmq.Core

/-- `INT_MAX`. -/
def intMax : Nat := 2147483647

/-- The options, as `setsockopt` accepts them. With an interval of `-1` there is no new
connection. -/
structure Options where
  reconnectIvl : Nat
  reconnectIvlMax : Nat
  ivl_le : reconnectIvl ≤ intMax
  max_le : reconnectIvlMax ≤ intMax

inductive Fault where
  | divisionByZero
  | overflow

/-- The result of an operation on `int`. -/
def checked (n : Nat) : Except Fault Nat := if n ≤ intMax then .ok n else .error .overflow

def randomJitter (o : Options) (random : UInt32) : Except Fault Nat :=
  if o.reconnectIvl = 0 then .error .divisionByZero else .ok (random.toNat % o.reconnectIvl)

/-- `_current_reconnect_ivl` for the next call. -/
def nextReconnectIvl (o : Options) (current : Nat) : Except Fault Nat :=
  if 0 < o.reconnectIvlMax ∧ o.reconnectIvl < o.reconnectIvlMax then
    if current < intMax / 2 then do
      .ok (min (← checked (current * 2)) o.reconnectIvlMax)
    else .ok o.reconnectIvlMax
  else .ok current

/-- `get_new_reconnect_ivl`: the interval, and the new value of `_current_reconnect_ivl`. -/
def getNewReconnectIvl (o : Options) (current : Nat) (random : UInt32) :
    Except Fault (Nat × Nat) := do
  let jitter ← randomJitter o random
  let interval ← if current < intMax - jitter then checked (current + jitter) else .ok intMax
  .ok (interval, ← nextReconnectIvl o current)

/-- `_current_reconnect_ivl` after `k` calls. -/
def currentReconnectIvl (o : Options) (random : Nat → UInt32) : Nat → Except Fault Nat
  | 0 => .ok o.reconnectIvl
  | k + 1 => do
      let current ← currentReconnectIvl o random k
      .ok (← getNewReconnectIvl o current (random k)).2

/-- The interval of call `k` without jitter. -/
def backOff (o : Options) (k : Nat) : Nat :=
  if o.reconnectIvl < o.reconnectIvlMax then min (o.reconnectIvl * 2 ^ k) o.reconnectIvlMax
  else o.reconnectIvl

/-- The current interval before call `k`. `INT_MAX / 2` is not doubled, so that the next one may be
larger by one. -/
def Backs (o : Options) (k current : Nat) : Prop :=
  current = backOff o k ∨ current = intMax ∧ backOff o k = intMax - 1 ∧ 1 < o.reconnectIvl

variable {o : Options} {k current : Nat}

theorem backOff_le (o : Options) (k : Nat) : backOff o k ≤ intMax := by
  have := o.ivl_le
  have := o.max_le
  unfold backOff
  split <;> omega

theorem Backs.next (hb : Backs o k current) :
    ∃ current', nextReconnectIvl o current = .ok current' ∧ Backs o (k + 1) current' := by
  have hmax := o.max_le
  unfold nextReconnectIvl
  by_cases hgrow : o.reconnectIvl < o.reconnectIvlMax
  · rw [if_pos ⟨by omega, hgrow⟩]
    have hdouble : o.reconnectIvl * 2 ^ (k + 1) = 2 * (o.reconnectIvl * 2 ^ k) := by
      rw [pow_succ, ← Nat.mul_assoc, Nat.mul_comm]
    -- `INT_MAX / 2` is odd, and not a double
    have hodd : o.reconnectIvl * 2 ^ k = intMax / 2 → 1 < o.reconnectIvl := by
      intro heq
      unfold intMax at heq
      cases k with
      | zero => omega
      | succ => rw [pow_succ, ← Nat.mul_assoc] at heq; omega
    unfold Backs backOff at *
    rw [if_pos hgrow] at hb ⊢
    unfold intMax at *
    split
    · rw [checked, if_pos (by unfold intMax; omega)]
      exact ⟨_, rfl, by omega⟩
    · exact ⟨_, rfl, by omega⟩
  · rw [if_neg fun hboth => hgrow hboth.2]
    refine ⟨_, rfl, ?_⟩
    unfold Backs backOff at *
    rwa [if_neg hgrow] at hb ⊢

theorem Backs.call (h : 0 < o.reconnectIvl) (hb : Backs o k current) (random : UInt32) :
    ∃ interval current', getNewReconnectIvl o current random = .ok (interval, current') ∧
      backOff o k ≤ interval ∧ interval ≤ min (backOff o k + (o.reconnectIvl - 1)) intMax ∧
      Backs o (k + 1) current' := by
  obtain ⟨current', hnext, hb'⟩ := hb.next
  have hle := backOff_le o k
  have hjitter := Nat.mod_lt random.toNat h
  rw [getNewReconnectIvl, randomJitter, if_neg (by omega), ok_bind, hnext]
  unfold Backs at hb
  split
  · rw [checked, if_pos (by omega)]
    exact ⟨_, _, rfl, by omega, by omega, hb'⟩
  · exact ⟨_, _, rfl, hle, by omega, hb'⟩

/-- No call before call `k` fails. -/
theorem exists_current (h : 0 < o.reconnectIvl) (random : Nat → UInt32) (k : Nat) :
    ∃ current, currentReconnectIvl o random k = .ok current ∧ Backs o k current := by
  induction k with
  | zero =>
    refine ⟨_, rfl, .inl ?_⟩
    unfold backOff
    split <;> omega
  | succ k ih =>
    obtain ⟨current, hcurrent, hb⟩ := ih
    obtain ⟨_, current', hcall, -, -, hb'⟩ := hb.call h (random k)
    refine ⟨current', ?_, hb'⟩
    rw [currentReconnectIvl, hcurrent, ok_bind, hcall, ok_bind]

/-- **The back-off of a connecter.**  If the first interval is not zero, every call succeeds, and
returns the interval, doubled up to the maximum, with less than the first interval of jitter. If it
is zero, no call succeeds. -/
theorem reconnect_back_off (o : Options) :
    (0 < o.reconnectIvl → ∀ (random : Nat → UInt32) (k : Nat), ∃ current interval current',
      currentReconnectIvl o random k = .ok current ∧
        getNewReconnectIvl o current (random k) = .ok (interval, current') ∧
        backOff o k ≤ interval ∧ interval ≤ min (backOff o k + (o.reconnectIvl - 1)) intMax) ∧
    (o.reconnectIvl = 0 → ∀ current random,
      getNewReconnectIvl o current random = .error .divisionByZero) := by
  refine ⟨fun h random k => ?_, fun hzero current random => ?_⟩
  · obtain ⟨current, hcurrent, hb⟩ := exists_current h random k
    obtain ⟨interval, current', hcall, hlow, hhigh, -⟩ := hb.call h (random k)
    exact ⟨current, interval, current', hcurrent, hcall, hlow, hhigh⟩
  · rw [getNewReconnectIvl, randomJitter, if_pos hzero]
    rfl

/-- The fourth call, from 100 up to 300 milliseconds. -/
theorem reconnect_back_off_capped : ∃ current interval current',
    currentReconnectIvl ⟨100, 300, by decide, by decide⟩ (fun _ => 7) 3 = .ok current ∧
    getNewReconnectIvl ⟨100, 300, by decide, by decide⟩ current 7 = .ok (interval, current') ∧
    300 ≤ interval ∧ interval ≤ min (300 + 99) intMax :=
  (reconnect_back_off ⟨100, 300, by decide, by decide⟩).1 (by decide) (fun _ => 7) 3

/-- `setsockopt` accepts an interval of zero, and the first call divides by it. -/
theorem reconnect_ivl_zero :
    getNewReconnectIvl ⟨0, 300, by decide, by decide⟩ 0 7 = .error .divisionByZero := rfl

end LibZmq.Reconnect
