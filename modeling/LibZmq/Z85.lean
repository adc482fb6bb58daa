import LibZmq.Wire.Bytes
import Mathlib.Data.FinEnum

/-!
# Z85

`zmq_z85_encode` and `zmq_z85_decode` (`zmq_utils.cpp`) write four bytes as five characters, the
digits of the same 32-bit value in base 85. Values and counters are numbers that are reduced with
`u32` where the source computes with 32 bits.

Both loops are `Conversion.run`. An `unsigned int` counts the items, so that `decode` never reaches
the end of a text of `2 ^ 32` characters (`decode_never_returns`); `fuel` bounds the rounds.
-/

namespace LibZmq.Z85

open List Option
open Wire (ascii)

def u32 (n : Nat) : Nat := n % 4294967296

def encoder : Bytes :=
  ascii "0123456789abcdefghijklmnopqrstuvwxyzABCDEFGHIJKLMNOPQRSTUVWXYZ" ++
    ascii ".-:+=^!/*?&<>()[]\x7b\x7d@%$#"

def decoder : List Nat := [
  0xFF, 0x44, 0xFF, 0x54, 0x53, 0x52, 0x48, 0xFF, 0x4B, 0x4C, 0x46, 0x41,
  0xFF, 0x3F, 0x3E, 0x45, 0x00, 0x01, 0x02, 0x03, 0x04, 0x05, 0x06, 0x07,
  0x08, 0x09, 0x40, 0xFF, 0x49, 0x42, 0x4A, 0x47, 0x51, 0x24, 0x25, 0x26,
  0x27, 0x28, 0x29, 0x2A, 0x2B, 0x2C, 0x2D, 0x2E, 0x2F, 0x30, 0x31, 0x32,
  0x33, 0x34, 0x35, 0x36, 0x37, 0x38, 0x39, 0x3A, 0x3B, 0x3C, 0x3D, 0x4D,
  0xFF, 0x4E, 0x43, 0xFF, 0xFF, 0x0A, 0x0B, 0x0C, 0x0D, 0x0E, 0x0F, 0x10,
  0x11, 0x12, 0x13, 0x14, 0x15, 0x16, 0x17, 0x18, 0x19, 0x1A, 0x1B, 0x1C,
  0x1D, 0x1E, 0x1F, 0x20, 0x21, 0x22, 0x23, 0x4F, 0xFF, 0x50, 0xFF, 0xFF]

/-- What has become of a call after some rounds of its loop. -/
inductive Outcome where
  | running
  /-- `NULL` with `EINVAL`. -/
  | invalid
  /-- What was written to `dest_`. -/
  | done (dest : Bytes)
deriving DecidableEq, Repr

/-- What the two loops differ in: how an item is accumulated, after how many items the value is
complete, and what is written for it. -/
structure Conversion where
  accumulate : Nat → UInt8 → Option Nat
  group : Nat
  output : Nat → Bytes

/-- The loop, from the item with the number `nbr` on. `encode` has checked the size before. -/
def Conversion.run (k : Conversion) (input : Bytes) :
    (fuel nbr value : Nat) → (dest : Bytes) → Outcome
  | 0, _, _, _ => .running
  | fuel + 1, nbr, value, dest =>
      match input[nbr]? with
      | none => if nbr % k.group ≠ 0 then .invalid else .done dest
      | some item =>
          match k.accumulate value item with
          | none => .invalid
          | some value =>
              let nbr := u32 (nbr + 1)
              if nbr % k.group = 0 then k.run input fuel nbr 0 (dest ++ k.output value)
              else k.run input fuel nbr value dest

/-- Accumulate a value in base 256. -/
def fromBase256 (value : Nat) (item : UInt8) : Option Nat := some (u32 (value * 256 + item.toNat))

/-- Output a value in base 85. -/
def base85 (value : Nat) : Bytes :=
  [52200625, 614125, 7225, 85, 1].map fun divisor => encoder.getD (value / divisor % 85) 0

/-- `zmq_z85_encode`. -/
def encode (fuel : Nat) (data : Bytes) : Outcome :=
  if data.length % 4 ≠ 0 then .invalid
  else Conversion.run ⟨fromBase256, 4, base85⟩ data fuel 0 0 []

/-- Accumulate a value in base 85. -/
def fromBase85 (value : Nat) (item : UInt8) : Option Nat :=
  if 4294967295 / 85 < value then none
  else
    let value := u32 (value * 85)
    let index := (item - 32).toNat
    if decoder.length ≤ index then none
    else
      let summand := decoder.getD index 0xFF
      if summand = 0xFF ∨ 4294967295 - value < summand then none else some (u32 (value + summand))

/-- Output a value in base 256. -/
def base256 (value : Nat) : Bytes :=
  [16777216, 65536, 256, 1].map fun divisor => (value / divisor % 256).toUInt8

/-- `zmq_z85_decode`, for the characters before the terminator. -/
def decode (fuel : Nat) (string : Bytes) : Outcome :=
  Conversion.run ⟨fromBase85, 5, base256⟩ string fuel 0 0 []

/-- The number that is written with the digits of `n` and these characters. -/
def number (n : Nat) (text : Bytes) : Nat :=
  text.foldl (fun n c => n * 85 + encoder.idxOf c) n

/-- Five characters that stand for a value. -/
structure Denotes (group : Bytes) : Prop where
  length : group.length = 5
  alphabet : ∀ c ∈ group, c ∈ encoder
  small : number 0 group < 4294967296

/-- A text that consists of such groups. -/
def Valid (text : Bytes) : Prop :=
  ∃ groups : List Bytes, text = groups.flatten ∧ ∀ g ∈ groups, Denotes g

/-- A text whose first `2 ^ 32` characters are accepted: groups that stand for values, and the first
character of another one. -/
def Endless (text : Bytes) : Prop :=
  ∃ groups : List Bytes, ∃ c rest, text = groups.flatten ++ c :: rest ∧
    groups.length = 858993459 ∧ (∀ g ∈ groups, Denotes g) ∧ c ∈ encoder

/-- A valid text is decoded to data that is encoded as the text, and any other text is refused. -/
def Exact (text : Bytes) : Prop :=
  (Valid text → ∃ data, (∀ fuel > text.length, decode fuel text = .done data) ∧
    ∀ fuel > data.length, encode fuel data = .done text) ∧
  (¬ Valid text → ∀ fuel > text.length, decode fuel text = .invalid)

/-! ## The loop -/

theorem u32_of_lt {n : Nat} (h : n < 4294967296) : u32 n = n := Nat.mod_eq_of_lt h

namespace Conversion

variable {k : Conversion} {input items rest dest : Bytes} {nbr value fuel n : Nat} {item : UInt8}

/-- One round, as long as the counter does not wrap. -/
theorem run_cons (hnbr : nbr + 1 < 4294967296) (hdrop : input.drop nbr = item :: rest) :
    input.drop (nbr + 1) = rest ∧ k.run input (fuel + 1) nbr value dest =
      (k.accumulate value item).elim .invalid fun v =>
        if (nbr + 1) % k.group = 0 then k.run input fuel (nbr + 1) 0 (dest ++ k.output v)
        else k.run input fuel (nbr + 1) v dest := by
  have hitem : input[nbr]? = some item := by
    rw [← Nat.add_zero nbr, ← getElem?_drop, hdrop]
    rfl
  refine ⟨by rw [← tail_drop, hdrop]; rfl, ?_⟩
  rw [run, hitem]
  simp only [u32_of_lt hnbr]
  cases k.accumulate value item <;> rfl

theorem run_items (hlen : nbr + items.length < 4294967296) (hdrop : input.drop nbr = items ++ rest)
    (hne : items ≠ []) (hgroup : nbr % k.group + items.length ≤ k.group) :
    k.run input (items.length + fuel) nbr value dest =
      (items.foldlM k.accumulate value).elim .invalid fun v =>
        if (nbr + items.length) % k.group = 0 then
          k.run input fuel (nbr + items.length) 0 (dest ++ k.output v)
        else k.run input fuel (nbr + items.length) v dest := by
  induction items generalizing nbr value with
  | nil => exact absurd rfl hne
  | cons item items ih =>
    rw [length_cons] at hgroup hlen
    obtain ⟨hdrop', hrun⟩ := run_cons (by omega) hdrop
    rw [length_cons, Nat.add_right_comm, hrun, foldlM_cons]
    cases k.accumulate value item with
    | none => rfl
    | some =>
      simp only [bind_eq_bind, bind_some, elim_some]
      by_cases hlast : items = []
      · simp [hlast]
      have hpos := length_pos_iff.mpr hlast
      have hmod : (nbr + 1) % k.group = nbr % k.group + 1 := by
        rw [← Nat.mod_add_mod, Nat.mod_eq_of_lt (by omega)]
      rw [hmod, if_neg (Nat.succ_ne_zero _), ih (by omega) hdrop' hlast (by omega), Nat.add_assoc,
        Nat.add_comm 1]

theorem run_end (hdrop : input.drop nbr = []) :
    k.run input (fuel + 1) nbr value dest = if nbr % k.group ≠ 0 then .invalid else .done dest := by
  have hend : input[nbr]? = none := by simpa using hdrop
  rw [run, hend]

/-- A list of values, each of which is written with the items of a group. -/
theorem run_values {write : Nat → Bytes} {vs : List Nat} (hgroup : 0 < k.group)
    (hwrite : ∀ v ∈ vs, (write v).length = k.group ∧ (write v).foldlM k.accumulate 0 = some v)
    (hdrop : input.drop nbr = vs.flatMap write ++ rest) (hnbr : nbr % k.group = 0)
    (hlen : nbr + (vs.flatMap write).length < 4294967296) :
    k.run input ((vs.flatMap write).length + fuel) nbr 0 dest =
      k.run input fuel (nbr + (vs.flatMap write).length) 0 (dest ++ vs.flatMap k.output) := by
  induction vs generalizing nbr dest with
  | nil => simp
  | cons v vs ih =>
    obtain ⟨⟨hlength, hfold⟩, hrest⟩ := forall_mem_cons.mp hwrite
    rw [flatMap_cons, append_assoc] at hdrop
    rw [flatMap_cons, length_append] at hlen ⊢
    have hdrop' : input.drop (nbr + (write v).length) = vs.flatMap write ++ rest := by
      rw [← drop_drop, hdrop, drop_left]
    have hmod : (nbr + (write v).length) % k.group = 0 := by simp [hlength, hnbr]
    rw [Nat.add_assoc, run_items (by omega) hdrop (ne_nil_of_length_pos (by omega)) (by omega),
      hfold, elim_some, if_pos hmod, ih hrest hdrop' hmod (by omega), flatMap_cons, append_assoc,
      Nat.add_assoc]

/-- The values are the whole input. -/
theorem run_done {write : Nat → Bytes} {vs : List Nat} (hgroup : 0 < k.group)
    (hwrite : ∀ v ∈ vs, (write v).length = k.group ∧ (write v).foldlM k.accumulate 0 = some v)
    (hlen : (vs.flatMap write).length < 4294967296) (hfuel : (vs.flatMap write).length < fuel) :
    k.run (vs.flatMap write) fuel 0 0 [] = .done (vs.flatMap k.output) := by
  obtain ⟨fuel, rfl⟩ := Nat.exists_eq_add_of_lt hfuel
  have hmod : (vs.flatMap write).length % k.group = 0 := by
    rw [length_flatMap, map_congr_left fun v hv => (hwrite v hv).1]
    simp
  have hdrop : (vs.flatMap write).drop 0 = vs.flatMap write ++ [] := (append_nil _).symm
  rw [Nat.add_assoc, run_values hgroup hwrite hdrop (Nat.zero_mod _) (by omega),
    Nat.zero_add, run_end drop_length, if_neg (not_not.mpr hmod), nil_append]

/-- With less fuel a loop that has not ended has not ended either. -/
theorem run_mono (h : k.run input (fuel + n) nbr value dest = .running) :
    k.run input fuel nbr value dest = .running := by
  induction fuel generalizing nbr value dest with
  | zero => rfl
  | succ fuel ih =>
    rw [Nat.add_right_comm, run] at h
    rw [run]
    split at h
    · split at h <;> cases h
    · split at h
      · cases h
      · dsimp only at h ⊢
        split at h
        · rw [if_pos ‹_›]
          exact ih h
        · rw [if_neg ‹_›]
          exact ih h

end Conversion

open Conversion (run run_done run_items run_end run_mono run_values)

/-! ## Digits -/

variable {n v : Nat} {group : Bytes}

/-- The tables are inverse to each other. -/
theorem decoder_spec : ∀ c : UInt8,
    if c ∈ encoder then (c - 32).toNat < 96 ∧ encoder.idxOf c < 85 ∧
      decoder.getD (c - 32).toNat 0xFF = encoder.idxOf c ∧ encoder.getD (encoder.idxOf c) 0 = c
    else 96 ≤ (c - 32).toNat ∨ decoder.getD (c - 32).toNat 0xFF = 0xFF := by
  decide +kernel

theorem encoder_spec : ∀ d < 85, encoder.getD d 0 ∈ encoder ∧
    encoder.idxOf (encoder.getD d 0) = d ∧ 32 < encoder.getD d 0 ∧ encoder.getD d 0 < 127 := by
  decide +kernel

/-- One more digit, if it is one and there is room for it. -/
theorem fromBase85_eq (n : Nat) (c : UInt8) :
    fromBase85 n c = if c ∈ encoder ∧ n * 85 + encoder.idxOf c < 4294967296 then
      some (n * 85 + encoder.idxOf c) else none := by
  have hc := decoder_spec c
  have hlength : decoder.length = 96 := rfl
  unfold fromBase85
  by_cases hn : 4294967295 / 85 < n
  · rw [if_pos hn, if_neg (by omega)]
  simp only [hn, if_false, u32_of_lt (by omega : n * 85 < 4294967296), hlength]
  by_cases hmem : c ∈ encoder
  · rw [if_pos hmem] at hc
    rw [if_neg (by omega), hc.2.2.1]
    by_cases hroom : n * 85 + encoder.idxOf c < 4294967296
    · rw [if_neg (by omega), if_pos ⟨hmem, hroom⟩, u32_of_lt hroom]
    · rw [if_pos (by omega), if_neg fun h => hroom h.2]
  rw [if_neg hmem] at hc
  rw [if_neg fun h : _ ∧ _ => hmem h.1]
  rcases hc with hindex | hinvalid
  · rw [if_pos hindex]
  · simp only [hinvalid, true_or, if_true, ite_self]

theorem le_number (n : Nat) (text : Bytes) : n ≤ number n text := by
  induction text generalizing n with
  | nil => exact Nat.le_refl n
  | cons c text ih => exact Nat.le_trans (by omega) (ih (n * 85 + encoder.idxOf c))

/-- The guards reject what is not a digit, and numbers that are too large. -/
theorem foldlM_fromBase85 (text : Bytes) {n : Nat} (hn : n < 4294967296) :
    text.foldlM fromBase85 n = if (∀ c ∈ text, c ∈ encoder) ∧ number n text < 4294967296 then
      some (number n text) else none := by
  induction text generalizing n with
  | nil => simp [number, hn]
  | cons c text ih =>
    have hle := le_number (n * 85 + encoder.idxOf c) text
    have hnumber : number n (c :: text) = number (n * 85 + encoder.idxOf c) text := rfl
    rw [foldlM_cons, fromBase85_eq, hnumber]
    by_cases hc : c ∈ encoder ∧ n * 85 + encoder.idxOf c < 4294967296
    · rw [if_pos hc, bind_eq_bind, bind_some, ih hc.2]
      simp [hc.1]
    · rw [if_neg hc, if_neg fun h => hc ⟨h.1 c (by simp), by omega⟩]
      rfl

theorem fromBase85_base85 (hv : v < 4294967296) : (base85 v).foldlM fromBase85 0 = some v := by
  have hdigit := fun n => encoder_spec (n % 85) (Nat.mod_lt n (by decide))
  have hnumber : number 0 (base85 v) = v := by
    simp only [number, base85, map_cons, map_nil, foldl_cons, foldl_nil, (hdigit _).2.1]
    omega
  have hmem : ∀ c ∈ base85 v, c ∈ encoder := by
    intro c hc
    obtain ⟨divisor, -, rfl⟩ := mem_map.mp hc
    exact (hdigit _).1
  rw [foldlM_fromBase85 _ (by decide), hnumber, if_pos ⟨hmem, hv⟩]

theorem fromBase256_base256 (hv : v < 4294967296) : (base256 v).foldlM fromBase256 0 = some v := by
  simp [base256, fromBase256, u32]
  omega

/-- The characters of a group are the digits of its number. -/
theorem base85_number (h : Denotes group) : base85 (number 0 group) = group := by
  have hdigit : ∀ c ∈ group, encoder.idxOf c < 85 ∧ encoder.getD (encoder.idxOf c) 0 = c := by
    intro c hc
    have hspec := decoder_spec c
    rw [if_pos (h.alphabet c hc)] at hspec
    exact ⟨hspec.2.1, hspec.2.2.2⟩
  have hlen := h.length
  rcases group with _ | ⟨c₁, _ | ⟨c₂, _ | ⟨c₃, _ | ⟨c₄, _ | ⟨c₅, _ | ⟨c₆, group⟩⟩⟩⟩⟩⟩ <;>
    simp only [length_cons, length_nil] at hlen
  any_goals omega
  simp only [forall_mem_cons] at hdigit
  obtain ⟨⟨h₁, hc₁⟩, ⟨h₂, hc₂⟩, ⟨h₃, hc₃⟩, ⟨h₄, hc₄⟩, ⟨h₅, hc₅⟩, -⟩ := hdigit
  simp only [base85, number, foldl_cons, foldl_nil, map_cons]
  generalize encoder.idxOf c₁ = d₁ at *
  generalize encoder.idxOf c₂ = d₂ at *
  generalize encoder.idxOf c₃ = d₃ at *
  generalize encoder.idxOf c₄ = d₄ at *
  generalize encoder.idxOf c₅ = d₅ at *
  rw [← hc₁, ← hc₂, ← hc₃, ← hc₄, ← hc₅]
  congr <;> omega

/-- Four bytes are the digits of a value. -/
theorem exists_base256 (hlen : group.length = 4) : ∃ v < 4294967296, base256 v = group := by
  rcases group with _ | ⟨b₁, _ | ⟨b₂, _ | ⟨b₃, _ | ⟨b₄, _ | ⟨b₅, group⟩⟩⟩⟩⟩ <;>
    simp only [length_cons, length_nil] at hlen
  any_goals omega
  have hbyte : ∀ (n : Nat) (b : UInt8), n = b.toNat → n.toUInt8 = b := by
    rintro _ b rfl
    exact UInt8.ofNat_toNat
  have h₁ := b₁.toNat_lt
  have h₂ := b₂.toNat_lt
  have h₃ := b₃.toNat_lt
  have h₄ := b₄.toNat_lt
  refine ⟨((b₁.toNat * 256 + b₂.toNat) * 256 + b₃.toNat) * 256 + b₄.toNat, by omega, ?_⟩
  simp only [base256, map_cons, map_nil]
  rw [hbyte _ b₁ (by omega), hbyte _ b₂ (by omega), hbyte _ b₃ (by omega), hbyte _ b₄ (by omega)]

/-! ## Groups -/

/-- Bytes that come in fours are the digits of values. -/
theorem values_of_bytes {data : Bytes} (hdata : data.length = n * 4) :
    ∃ vs : List Nat, (∀ v ∈ vs, v < 4294967296) ∧ data = vs.flatMap base256 := by
  induction n generalizing data with
  | zero => exact ⟨[], by simp, length_eq_zero_iff.mp (by omega)⟩
  | succ n ih =>
    have hfirst : (data.take 4).length = 4 := by rw [length_take]; omega
    have hothers : (data.drop 4).length = n * 4 := by rw [length_drop]; omega
    obtain ⟨v, hv, hhead⟩ := exists_base256 hfirst
    obtain ⟨vs, hvs, htail⟩ := ih hothers
    refine ⟨v :: vs, forall_mem_cons.mpr ⟨hv, hvs⟩, ?_⟩
    rw [flatMap_cons, hhead, ← htail, take_append_drop]

/-- A valid text begins with a group, and what follows is valid. -/
theorem Valid.split {text : Bytes} (h : Valid text) (hne : text ≠ []) :
    Denotes (text.take 5) ∧ Valid (text.drop 5) := by
  obtain ⟨groups, rfl, hgroups⟩ := h
  cases groups with
  | nil => exact absurd rfl hne
  | cons g groups =>
    obtain ⟨hg, hgroups⟩ := forall_mem_cons.mp hgroups
    rw [flatten_cons, take_left' hg.length, drop_left' hg.length]
    exact ⟨hg, groups, rfl, hgroups⟩

/-- The groups at the beginning of a text, up to `n` of them. -/
theorem exists_groups (n : Nat) (text : Bytes) :
    ∃ groups rest, text = flatten groups ++ rest ∧ (∀ g ∈ groups, Denotes g) ∧
      (Valid text → Valid rest) ∧ groups.length ≤ n ∧
      (groups.length = n ∨ ¬ Denotes (rest.take 5)) := by
  induction n generalizing text with
  | zero => exact ⟨[], text, rfl, by simp, id, Nat.le_refl 0, .inl rfl⟩
  | succ n ih =>
    by_cases hfirst : Denotes (text.take 5)
    · obtain ⟨groups, rest, htail, hgroups, hvalid, hle, hstop⟩ := ih (text.drop 5)
      refine ⟨text.take 5 :: groups, rest, ?_, forall_mem_cons.mpr ⟨hfirst, hgroups⟩, fun h => ?_,
        Nat.succ_le_succ hle, hstop.imp (congrArg (· + 1)) id⟩
      · rw [flatten_cons, append_assoc, ← htail, take_append_drop]
      · refine hvalid (h.split ?_).2
        rintro rfl
        cases hfirst.length
    · exact ⟨[], text, rfl, by simp, id, Nat.zero_le _, .inr hfirst⟩

theorem values_of_groups {groups : List Bytes} (h : ∀ g ∈ groups, Denotes g) :
    ∃ vs : List Nat, (∀ v ∈ vs, v < 4294967296) ∧ vs.length = groups.length ∧
      groups.flatten = vs.flatMap base85 := by
  refine ⟨groups.map (number 0), forall_mem_map.mpr fun g hg => (h g hg).small, length_map _, ?_⟩
  have hsame : groups.map (base85 ∘ number 0) = groups.map id :=
    map_congr_left fun g hg => base85_number (h g hg)
  rw [flatMap_def, List.map_map, hsame, List.map_id]

theorem length_groups {groups : List Bytes} (h : ∀ g ∈ groups, Denotes g) :
    groups.flatten.length = groups.length * 5 := by
  rw [length_flatten, map_congr_left fun g hg => (h g hg).length]
  simp

theorem length_flatMap_write (vs : List Nat) : (vs.flatMap base256).length = vs.length * 4 ∧
    (vs.flatMap base85).length = vs.length * 5 := by
  simp [base256, base85]

variable {vs : List Nat} {fuel m : Nat} {text input rest dest : Bytes}

theorem encode_values (hvs : ∀ v ∈ vs, v < 4294967296)
    (hlen : (vs.flatMap base256).length < 4294967296) (hfuel : (vs.flatMap base256).length < fuel) :
    encode fuel (vs.flatMap base256) = .done (vs.flatMap base85) := by
  rw [encode, if_neg (by simp [base256])]
  exact run_done (by decide) (fun v hv => ⟨rfl, fromBase256_base256 (hvs v hv)⟩) hlen hfuel

theorem decode_values (hvs : ∀ v ∈ vs, v < 4294967296)
    (hlen : (vs.flatMap base85).length < 4294967296) (hfuel : (vs.flatMap base85).length < fuel) :
    decode fuel (vs.flatMap base85) = .done (vs.flatMap base256) :=
  run_done (by decide) (fun v hv => ⟨rfl, fromBase85_base85 (hvs v hv)⟩) hlen hfuel

/-! ## Long texts -/

/-- The counter is 0 again after `2 ^ 32` characters, and the loop starts all over. -/
theorem decode_endless (h : Endless text) (fuel : Nat) : decode fuel text = .running := by
  obtain ⟨groups, c, rest, rfl, hlength, hgroups, hc⟩ := h
  obtain ⟨vs, hvs, hvslen, hflat⟩ := values_of_groups hgroups
  have hlen := (length_flatMap_write vs).2
  have hspec := decoder_spec c
  rw [if_pos hc] at hspec
  have hread := fromBase85_eq 0 c
  rw [if_pos ⟨hc, by omega⟩] at hread
  have hround : ∀ n dest, run ⟨fromBase85, 5, base256⟩ (vs.flatMap base85 ++ c :: rest)
      (n * 4294967296) 0 0 dest = .running := by
    intro n
    induction n with
    | zero => exact fun _ => rfl
    | succ n ih =>
      -- a round over all groups, and the character that makes the counter wrap
      intro dest
      have hsplit : (n + 1) * 4294967296 = (vs.flatMap base85).length + (n * 4294967296 + 1) := by
        omega
      have hitem : (vs.flatMap base85 ++ c :: rest)[0 + (vs.flatMap base85).length]? = some c := by
        rw [Nat.zero_add, getElem?_append_right (Nat.le_refl _), Nat.sub_self]
        rfl
      have hwrap : u32 (0 + (vs.flatMap base85).length + 1) = 0 := by
        unfold u32
        omega
      rw [hsplit, run_values (by decide) (fun v hv => ⟨rfl, fromBase85_base85 (hvs v hv)⟩) rfl rfl
        (by omega), run, hitem]
      simp only [hread, hwrap, Nat.zero_mod, if_true]
      exact ih _
  rw [hflat]
  refine run_mono (n := fuel * 4294967296 - fuel) ?_
  rw [Nat.add_sub_cancel' (by omega)]
  exact hround fuel []

/-- What follows the groups is refused: before the counter wraps only the first character is read,
otherwise five characters or what is left. -/
theorem run_refused (hnbr : input.drop (m * 5) = rest) (hm : m ≤ 858993459) (hne : rest ≠ [])
    (hfirst : m = 858993459 → ∀ c ∈ rest.head?, c ∉ encoder) (hbad : ¬ Denotes (rest.take 5))
    (hfuel : rest.length < fuel) :
    run ⟨fromBase85, 5, base256⟩ input fuel (m * 5) 0 dest = .invalid := by
  by_cases hlast : m = 858993459
  · obtain ⟨c, rest, rfl⟩ := exists_cons_of_ne_nil hne
    obtain ⟨fuel, rfl⟩ := Nat.exists_eq_add_one.mpr (Nat.zero_lt_of_lt hfuel)
    have hitem : input[m * 5]? = some c := by
      rw [← Nat.add_zero (m * 5), ← getElem?_drop, hnbr]
      rfl
    have hnone := fromBase85_eq 0 c
    rw [if_neg fun h => hfirst hlast c rfl h.1] at hnone
    rw [run, hitem]
    simp only [hnone]
  have hlen : (rest.take 5).length ≤ 5 := length_take_le 5 rest
  have hle : (rest.take 5).length ≤ rest.length := length_take_le' 5 rest
  have hdrop : input.drop (m * 5) = rest.take 5 ++ rest.drop 5 := by rw [hnbr, take_append_drop]
  obtain ⟨fuel, rfl⟩ := Nat.exists_eq_add_of_lt (Nat.lt_of_le_of_lt hle hfuel)
  rw [Nat.add_assoc, run_items (by omega) hdrop (by simpa using hne) (by simp only; omega),
    foldlM_fromBase85 _ (by decide)]
  split
  · -- all of them are digits, so that there are not five
    have hshort : (rest.take 5).length ≠ 5 := fun h => hbad ⟨h, ‹_ ∧ _›.1, ‹_ ∧ _›.2⟩
    have hwhole : rest.drop 5 = [] := drop_eq_nil_iff.mpr (by rw [length_take] at hshort; omega)
    have hpos : 0 < (rest.take 5).length := length_pos_iff.mpr (by simpa using hne)
    rw [elim_some, if_neg (by simp only; omega), run_end, if_pos (by simp only; omega)]
    rw [← drop_drop, hdrop, drop_left, hwhole]
  · rfl

/-- A text is treated as it should be, if and only if it is not endless. -/
theorem exact_iff (text : Bytes) : Exact text ↔ ¬ Endless text := by
  constructor
  · rintro ⟨hvalid, hinvalid⟩ hend
    have hrun := decode_endless hend (text.length + 1)
    by_cases h : Valid text
    · obtain ⟨data, hdone, -⟩ := hvalid h
      rw [hdone _ (Nat.lt_succ_self _)] at hrun
      cases hrun
    · rw [hinvalid h _ (Nat.lt_succ_self _)] at hrun
      cases hrun
  intro hend
  obtain ⟨groups, rest, rfl, hgroups, hvalid, hle, hstop⟩ := exists_groups 858993459 text
  obtain ⟨vs, hvs, hvslen, hflat⟩ := values_of_groups hgroups
  obtain ⟨h4, h5⟩ := length_flatMap_write vs
  by_cases hrest : rest = []
  · subst hrest
    rw [append_nil, hflat]
    exact ⟨fun _ => ⟨_, fun fuel hfuel => decode_values hvs (by omega) hfuel,
      fun fuel hfuel => encode_values hvs (by omega) hfuel⟩,
      fun h => absurd ⟨groups, hflat.symm, hgroups⟩ h⟩
  have hfirst : groups.length = 858993459 → ∀ c ∈ rest.head?, c ∉ encoder := by
    intro hlast c hc hmem
    obtain ⟨rest, rfl⟩ := head?_eq_some_iff.mp hc
    exact hend ⟨groups, c, rest, rfl, hlast, hgroups, hmem⟩
  have hbad : ¬ Denotes (rest.take 5) := by
    rcases hstop with hlast | hbad
    · obtain ⟨c, rest, rfl⟩ := exists_cons_of_ne_nil hrest
      exact fun h => hfirst hlast c rfl (h.alphabet c (by simp))
    · exact hbad
  refine ⟨fun h => absurd ((hvalid h).split hrest).1 hbad, fun _ fuel hfuel => ?_⟩
  rw [length_append, hflat] at hfuel
  obtain ⟨fuel, rfl⟩ := Nat.exists_eq_add_of_lt (show _ < fuel from hfuel)
  rw [hflat, decode, Nat.add_assoc, Nat.add_assoc, run_values (by decide)
    (fun v hv => ⟨rfl, fromBase85_base85 (hvs v hv)⟩) rfl rfl (by omega), Nat.zero_add, h5]
  refine run_refused ?_ (by omega) hrest (fun h => hfirst (by omega)) hbad (by omega)
  rw [← h5, drop_left]

/-- **The codec is exact**, but for texts whose first `2 ^ 32` characters are accepted. What
`encode` writes for a whole number of groups has five printable characters for four bytes, and is
decoded to the same bytes. A text is decoded if and only if it is valid, to bytes that are encoded
as the same text; and nothing wraps when a value is accumulated. -/
theorem z85_codec (data text : Bytes) (value summand : Nat) :
    (data.length % 4 = 0 → data.length < 1073741824 →
      ∃ t, t.length = data.length / 4 * 5 ∧ (∀ c ∈ t, 32 < c ∧ c < 127) ∧
        (∀ fuel > data.length, encode fuel data = .done t) ∧
        ∀ fuel > t.length, decode fuel t = .done data) ∧
    (Exact text ↔ ¬ Endless text) ∧
    (value ≤ 4294967295 / 85 → summand ≤ 4294967295 - u32 (value * 85) →
      u32 (value * 85) = value * 85 ∧
        u32 (u32 (value * 85) + summand) = value * 85 + summand) := by
  refine ⟨fun hgroups hdata => ?_, exact_iff text, fun hvalue hsummand => ?_⟩
  · obtain ⟨vs, hvs, rfl⟩ := values_of_bytes (show data.length = data.length / 4 * 4 by omega)
    obtain ⟨h4, h5⟩ := length_flatMap_write vs
    refine ⟨vs.flatMap base85, by omega, ?_, fun fuel hfuel => encode_values hvs (by omega) hfuel,
      fun fuel hfuel => decode_values hvs (by omega) hfuel⟩
    intro c hc
    obtain ⟨v, -, hv⟩ := mem_flatMap.mp hc
    obtain ⟨divisor, -, rfl⟩ := mem_map.mp hv
    exact (encoder_spec _ (Nat.mod_lt _ (by decide))).2.2
  · have hu : u32 (value * 85) = value * 85 := u32_of_lt (by omega)
    rw [hu] at hsummand ⊢
    exact ⟨rfl, u32_of_lt (by omega)⟩

/-- A group of five characters that stands for zero. -/
theorem denotes_zeros : Denotes (replicate 5 48) := ⟨rfl, by decide +kernel, by decide +kernel⟩

theorem z85_codec_five_zeros : Valid (replicate 5 48) ∧
    ∃ data, ∀ fuel > 5, decode fuel (replicate 5 48) = .done data := by
  have hvalid : Valid (replicate 5 48) :=
    ⟨[replicate 5 48], rfl, fun g hg => mem_singleton.mp hg ▸ denotes_zeros⟩
  have hend : ¬ Endless (replicate 5 48) := by
    rintro ⟨groups, c, rest, htext, hlength, hgroups, -⟩
    have hlen := congrArg length htext
    simp only [length_replicate, length_append, length_groups hgroups] at hlen
    omega
  obtain ⟨data, hdecode, -⟩ := ((z85_codec [] _ 0 0).2.1.mpr hend).1 hvalid
  exact ⟨hvalid, data, hdecode⟩

/-- A text whose end the counter never reaches. -/
theorem decode_never_returns : ∃ text, Valid text ∧ ∀ fuel, decode fuel text = .running := by
  have hgroups : ∀ n, ∀ g ∈ replicate n (replicate 5 48), Denotes g := fun n g hg =>
    eq_of_mem_replicate hg ▸ denotes_zeros
  refine ⟨_, ⟨replicate 858993460 (replicate 5 48), rfl, hgroups _⟩, decode_endless
    ⟨replicate 858993459 (replicate 5 48), 48, replicate 4 48, ?_, length_replicate, hgroups _, by
      decide +kernel⟩⟩
  rw [replicate_succ' (n := 858993459), flatten_append]
  rfl

end LibZmq.Z85
