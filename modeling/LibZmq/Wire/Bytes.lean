import Mathlib.Data.List.Basic
import Mathlib.Data.UInt

/-!
# Integers on the wire

The functions of `wire.hpp` that convert integers to and from network byte order, and the number
that a sequence of bytes stands for (`bigEndian`).
-/

namespace LibZmq

/-- A string of bytes. -/
abbrev Bytes := List UInt8

namespace Wire

open List

def putUint16 (value : UInt16) : Bytes :=
  [((value >>> 8) &&& 0xff).toUInt8, (value &&& 0xff).toUInt8]

def putUint32 (value : UInt32) : Bytes :=
  [((value >>> 24) &&& 0xff).toUInt8, ((value >>> 16) &&& 0xff).toUInt8,
    ((value >>> 8) &&& 0xff).toUInt8, (value &&& 0xff).toUInt8]

def putUint64 (value : UInt64) : Bytes :=
  [((value >>> 56) &&& 0xff).toUInt8, ((value >>> 48) &&& 0xff).toUInt8,
    ((value >>> 40) &&& 0xff).toUInt8, ((value >>> 32) &&& 0xff).toUInt8,
    ((value >>> 24) &&& 0xff).toUInt8, ((value >>> 16) &&& 0xff).toUInt8,
    ((value >>> 8) &&& 0xff).toUInt8, (value &&& 0xff).toUInt8]

/-- `get_uint16`, which is called with two bytes. -/
def getUint16 : Bytes → UInt16
  | [b₀, b₁] => (b₀.toUInt16 <<< 8) ||| b₁.toUInt16
  | _ => 0

/-- `get_uint32`, which is called with four bytes. -/
def getUint32 : Bytes → UInt32
  | [b₀, b₁, b₂, b₃] =>
      (b₀.toUInt32 <<< 24) ||| (b₁.toUInt32 <<< 16) ||| (b₂.toUInt32 <<< 8) ||| b₃.toUInt32
  | _ => 0

/-- `get_uint64`, which is called with eight bytes. -/
def getUint64 : Bytes → UInt64
  | [b₀, b₁, b₂, b₃, b₄, b₅, b₆, b₇] =>
      (b₀.toUInt64 <<< 56) ||| (b₁.toUInt64 <<< 48) ||| (b₂.toUInt64 <<< 40) |||
        (b₃.toUInt64 <<< 32) ||| (b₄.toUInt64 <<< 24) ||| (b₅.toUInt64 <<< 16) |||
        (b₆.toUInt64 <<< 8) ||| b₇.toUInt64
  | _ => 0

/-- The bytes of a text. -/
def ascii (s : String) : Bytes := s.toList.map fun c => c.toNat.toUInt8

/-- The number that is written with the most significant byte first. -/
def bigEndian (bytes : Bytes) : Nat := bytes.foldl (fun n b => 256 * n + b.toNat) 0

@[simp] theorem length_putUint32 (value : UInt32) : (putUint32 value).length = 4 := rfl

@[simp] theorem length_putUint64 (value : UInt64) : (putUint64 value).length = 8 := rfl

theorem digit (n k : Nat) : 256 * (n / 2 ^ (k + 8)) + n / 2 ^ k % 256 = n / 2 ^ k := by
  rw [Nat.pow_add, ← Nat.div_div_eq_div_mul]
  exact Nat.div_add_mod (n / 2 ^ k) 256

theorem low_byte (n : Nat) : (n &&& 255) % 2 ^ 8 = n % 256 := by
  rw [Nat.and_two_pow_sub_one_eq_mod n 8, Nat.mod_mod]

theorem bigEndian_putUint32 (value : UInt32) : bigEndian (putUint32 value) = value.toNat := by
  have htop : value.toNat / 2 ^ 24 < 256 := Nat.div_lt_of_lt_mul value.toNat_lt
  simp only [bigEndian, putUint32, foldl_cons, foldl_nil, UInt32.toNat_toUInt8,
    UInt32.toNat_and, UInt32.toNat_shiftRight, UInt32.reduceToNat, Nat.reduceMod,
    Nat.shiftRight_eq_div_pow, low_byte, Nat.mul_zero, Nat.zero_add]
  have h := digit value.toNat
  rw [Nat.mod_eq_of_lt htop, h 16, h 8]
  exact Nat.div_add_mod value.toNat 256

theorem putUint32_injective : Function.Injective putUint32 := by
  intro a b h
  apply UInt32.toNat_inj.mp
  rw [← bigEndian_putUint32, h, bigEndian_putUint32]

theorem bigEndian_putUint64 (value : UInt64) : bigEndian (putUint64 value) = value.toNat := by
  have htop : value.toNat / 2 ^ 56 < 256 := Nat.div_lt_of_lt_mul value.toNat_lt
  simp only [bigEndian, putUint64, foldl_cons, foldl_nil, UInt64.toNat_toUInt8,
    UInt64.toNat_and, UInt64.toNat_shiftRight, UInt64.reduceToNat, Nat.reduceMod,
    Nat.shiftRight_eq_div_pow, low_byte, Nat.mul_zero, Nat.zero_add]
  have h := digit value.toNat
  rw [Nat.mod_eq_of_lt htop, h 48, h 40, h 32, h 24, h 16, h 8]
  exact Nat.div_add_mod value.toNat 256

/-- A byte in front of `k` lower bits. -/
theorem or_shiftLeft (hb : b < 256) (hk : k + 8 ≤ w) (hlo : lo < 2 ^ k) :
    b <<< k % 2 ^ w ||| lo = b * 2 ^ k + lo ∧ b * 2 ^ k + lo < 2 ^ (k + 8) := by
  have hlt : b * 2 ^ k + lo < 2 ^ (k + 8) := by
    calc b * 2 ^ k + lo < b * 2 ^ k + 2 ^ k := by omega
      _ = (b + 1) * 2 ^ k := (Nat.succ_mul b (2 ^ k)).symm
      _ ≤ 256 * 2 ^ k := Nat.mul_le_mul_right _ hb
      _ = 2 ^ (k + 8) := by rw [Nat.pow_add, Nat.mul_comm]
  have hle : (2 : Nat) ^ (k + 8) ≤ 2 ^ w := Nat.pow_le_pow_right (by decide) hk
  rw [Nat.shiftLeft_eq, Nat.mod_eq_of_lt (by omega), ← Nat.shiftLeft_eq,
    ← Nat.shiftLeft_add_eq_or_of_lt hlo]
  exact ⟨rfl, by rw [Nat.shiftLeft_eq]; exact hlt⟩

theorem toNat_getUint64 (h : bytes.length = 8) : (getUint64 bytes).toNat = bigEndian bytes := by
  match bytes, h with
  | [b₀, b₁, b₂, b₃, b₄, b₅, b₆, b₇], _ =>
    simp only [getUint64, bigEndian, foldl_cons, foldl_nil, UInt64.toNat_or,
      UInt64.toNat_shiftLeft, UInt8.toNat_toUInt64, UInt64.reduceToNat, Nat.reduceMod, Nat.or_assoc]
    obtain ⟨e₆, l₆⟩ := or_shiftLeft (w := 64) b₆.toNat_lt (by decide) b₇.toNat_lt
    obtain ⟨e₅, l₅⟩ := or_shiftLeft (w := 64) b₅.toNat_lt (by decide) l₆
    obtain ⟨e₄, l₄⟩ := or_shiftLeft (w := 64) b₄.toNat_lt (by decide) l₅
    obtain ⟨e₃, l₃⟩ := or_shiftLeft (w := 64) b₃.toNat_lt (by decide) l₄
    obtain ⟨e₂, l₂⟩ := or_shiftLeft (w := 64) b₂.toNat_lt (by decide) l₃
    obtain ⟨e₁, l₁⟩ := or_shiftLeft (w := 64) b₁.toNat_lt (by decide) l₂
    obtain ⟨e₀, -⟩ := or_shiftLeft (w := 64) b₀.toNat_lt (by decide) l₁
    rw [e₆, e₅, e₄, e₃, e₂, e₁, e₀]
    omega

theorem getUint64_putUint64 (value : UInt64) : getUint64 (putUint64 value) = value := by
  apply UInt64.toNat_inj.mp
  rw [toNat_getUint64 (length_putUint64 value), bigEndian_putUint64]

theorem toNat_getUint32 (h : bytes.length = 4) : (getUint32 bytes).toNat = bigEndian bytes := by
  match bytes, h with
  | [b₀, b₁, b₂, b₃], _ =>
    simp only [getUint32, bigEndian, foldl_cons, foldl_nil, UInt32.toNat_or,
      UInt32.toNat_shiftLeft, UInt8.toNat_toUInt32, UInt32.reduceToNat, Nat.reduceMod, Nat.or_assoc]
    obtain ⟨e₂, l₂⟩ := or_shiftLeft (w := 32) b₂.toNat_lt (by decide) b₃.toNat_lt
    obtain ⟨e₁, l₁⟩ := or_shiftLeft (w := 32) b₁.toNat_lt (by decide) l₂
    obtain ⟨e₀, -⟩ := or_shiftLeft (w := 32) b₀.toNat_lt (by decide) l₁
    rw [e₂, e₁, e₀]
    omega

theorem getUint32_putUint32 (value : UInt32) : getUint32 (putUint32 value) = value := by
  apply UInt32.toNat_inj.mp
  rw [toNat_getUint32 (length_putUint32 value), bigEndian_putUint32]

theorem getUint16_putUint16 (value : UInt16) : getUint16 (putUint16 value) = value := by
  apply UInt16.toNat_inj.mp
  have hlt := value.toNat_lt
  have hlow : value.toNat % 256 < 2 ^ 8 := Nat.mod_lt _ (by decide)
  obtain ⟨hor, -⟩ := or_shiftLeft (b := value.toNat / 256 % 256) (by omega) (Nat.le_refl 16) hlow
  simp only [putUint16, getUint16, UInt16.toNat_or, UInt16.toNat_shiftLeft, UInt8.toNat_toUInt16,
    UInt16.toNat_toUInt8, UInt16.toNat_and, UInt16.toNat_shiftRight, UInt16.reduceToNat,
    Nat.reduceMod, Nat.shiftRight_eq_div_pow, low_byte]
  rw [hor]
  omega

end Wire
end LibZmq
