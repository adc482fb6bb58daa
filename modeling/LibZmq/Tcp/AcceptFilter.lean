import Mathlib.Data.Nat.Bitwise
import Mathlib.Data.UInt
import Mathlib.Data.Vector.Basic
import LibZmq.Wire.Bytes

/-!
# Accept filters

With `ZMQ_TCP_ACCEPT_FILTER` a listener keeps only the connections from some networks
(`tcp_address.cpp`, `ip_resolver.cpp`, `tcp_listener.cpp`). A filter is an address, possibly
followed by a slash and the length of its prefix.

* `InNetwork` is what the user has written.
* `accept_filters_exact`: the filters admit exactly the networks, unless the client is admitted by
  a prefix that is compared with the beginning of a mapped address (`TooWide`), or is in the network
  of a filter that was read for the other family.
-/

namespace LibZmq

open List Option

/-- An address, as far as filters look at it. -/
inductive IpAddr where
  | inet (bytes : List.Vector UInt8 4)
  | inet6 (bytes : List.Vector UInt8 16)
deriving DecidableEq

namespace IpAddr

def bytes : IpAddr → Bytes
  | inet b => b.toList
  | inet6 b => b.toList

def isInet6 : IpAddr → Bool
  | inet _ => false
  | inet6 _ => true

/-- `full_mask_ipv4` and `full_mask_ipv6`. -/
def bits : IpAddr → Nat
  | inet _ => 32
  | inet6 _ => 128

/-- An IPv4 address as an IPv6 address. -/
def v4Mapped (b : List.Vector UInt8 4) : List.Vector UInt8 16 :=
  ⟨[0, 0, 0, 0, 0, 0, 0, 0, 0, 0, 0xff, 0xff] ++ b.toList, by simp⟩

/-- The address that `getaddrinfo` makes of an address that is written as a number. -/
def presented (ipv6 : Bool) : IpAddr → Option IpAddr
  | inet b => some (if ipv6 then inet6 (v4Mapped b) else inet b)
  | inet6 b => if ipv6 then some (inet6 b) else none

theorem isInet6_presented {a b : IpAddr} (h : a.presented ipv6 = some b) : b.isInet6 = ipv6 := by
  cases a <;> cases ipv6 <;> cases h <;> rfl

theorem length_bytes (a : IpAddr) : 8 * a.bytes.length = a.bits := by
  cases a <;> simp [bytes, bits]

end IpAddr

/-! ## Reading a filter -/

/-- What the operating system knows. -/
structure Platform where
  /-- The address that is written as a number (`AI_NUMERICHOST`). -/
  numericHost : Bytes → Option IpAddr
  ifNameToIndex : Bytes → Int

/-- `strrchr`: what stands before and after the last `c`. -/
def splitLast (c : UInt8) (l : Bytes) : Option (Bytes × Bytes) :=
  if c ∈ l then
    let after := (l.reverse.takeWhile (· != c)).reverse
    some (l.take (l.length - after.length - 1), after)
  else none

/-- The digits at the beginning of a text. -/
def digits (n : Int) : Bytes → Int
  | [] => n
  | c :: l => if 48 ≤ c ∧ c ≤ 57 then digits (10 * n + (c.toNat - 48)) l else n

/-- `strtol`, for numbers that a `long` can hold. -/
def strtol (l : Bytes) : Int :=
  match l.dropWhile fun c => c == 32 || (9 ≤ c && c ≤ 13) with
  | 45 :: l => - digits 0 l
  | 43 :: l => digits 0 l
  | l => digits 0 l

namespace Platform

variable (p : Platform)

/-- The number of the interface that is named after a `%`. -/
def zoneId : Bytes → Int
  -- `at` throws an exception.
  | [] => 0
  | c :: l =>
      if 65 ≤ c &&& 0xdf ∧ c &&& 0xdf ≤ 90 then p.ifNameToIndex (c :: l) else strtol (c :: l)

/-- The address that a text means: `ip_resolver_t::resolve` up to the call of `getaddrinfo`. -/
def literal (name : Bytes) : Option IpAddr :=
  let addr := if 2 ≤ name.length ∧ name.head? = some 91 ∧ name.getLast? = some 93 then
    name.tail.dropLast else name
  match splitLast 37 addr with
  | none => p.numericHost addr
  | some (addr, zone) => if p.zoneId zone = 0 then none else p.numericHost addr

/-- `ip_resolver_t::resolve`, without ports and names. -/
def resolve (ipv6 : Bool) (name : Bytes) : Option IpAddr :=
  (p.literal name).bind (·.presented ipv6)

end Platform

/-- `tcp_address_mask_t`. -/
structure AddressMask where
  network : IpAddr
  mask : Nat
  mask_le : mask ≤ network.bits

namespace AddressMask

/-- The length of the prefix is checked for the address that was found. -/
def ofMask (network : IpAddr) (mask : Int) : Option AddressMask :=
  if h : mask.toNat ≤ network.bits ∧ 1 ≤ mask then some ⟨network, mask.toNat, h.1⟩ else none

/-- `tcp_address_mask_t::resolve`. -/
def resolve (p : Platform) (ipv6 : Bool) (name : Bytes) : Option AddressMask :=
  match splitLast 47 name with
  | none => (p.resolve ipv6 name).map fun a => ⟨a, a.bits, le_rfl⟩
  | some (addr, mask) =>
      if mask = [] then none
      else (p.resolve ipv6 addr).bind fun a =>
        if mask = [48] then some ⟨a, 0, Nat.zero_le _⟩ else ofMask a (strtol mask)

/-- `0xffU << (8 - r)`, as a byte. -/
def lastByteBits (r : Nat) : UInt8 := (0xff <<< (8 - r) : Nat).toUInt8

/-- The comparison of `match_address`. -/
def sameBytes (mask : Nat) (ours theirs : Bytes) : Bool :=
  ours.take (mask / 8) == theirs.take (mask / 8) && (lastByteBits (mask % 8) == 0 ||
    theirs.getD (mask / 8) 0 &&& lastByteBits (mask % 8) ==
      ours.getD (mask / 8) 0 &&& lastByteBits (mask % 8))

def matchAddress (f : AddressMask) (client : IpAddr) : Bool :=
  if client.isInet6 != f.network.isInet6 then false
  else if 0 < f.mask then
    sameBytes (min f.mask client.bits) f.network.bytes client.bytes
  else true

end AddressMask

open AddressMask (resolve)

/-- The listener keeps a connection. -/
def accepts (filters : List AddressMask) (client : IpAddr) : Bool :=
  filters.isEmpty || filters.any (·.matchAddress client)

/-! ## Networks -/

/-- The bits of an address, the most significant one first. -/
def addressBit (l : Bytes) (i : Nat) : Bool := (l.getD (i / 8) 0).toNat.testBit (7 - i % 8)

/-- The first `m` bits agree. -/
def Agree (m : Nat) (x y : Bytes) : Prop := ∀ i < m, addressBit x i = addressBit y i

/-- The IPv4 address of a client. -/
def IpAddr.ipv4 (client : IpAddr) (b : List.Vector UInt8 4) : Prop :=
  client = .inet b ∨ client = .inet6 (IpAddr.v4Mapped b)

/-- The address and the length of the prefix that the user has written. -/
def written (p : Platform) (name : Bytes) : Option (IpAddr × Nat) :=
  match splitLast 47 name with
  | none => (p.literal name).map fun a => (a, a.bits)
  | some (addr, mask) => (p.literal addr).map fun a => (a, (strtol mask).toNat)

/-- The address of the client is in the network that the user has written. -/
def InNetwork (p : Platform) (name : Bytes) (client : IpAddr) : Prop :=
  (∃ x m y, written p name = some (.inet x, m) ∧ client.ipv4 y ∧ Agree m x.toList y.toList) ∨
  ∃ x m y, written p name = some (.inet6 x, m) ∧ client = .inet6 y ∧ Agree m x.toList y.toList

/-- The filter is an IPv4 address with a prefix that was read with IPv6 on. The length of the prefix
counts from the beginning of the mapped address, which agrees with the address of the client. -/
def TooWide (p : Platform) (ipv6 : Bool) (name : Bytes) (client : IpAddr) : Prop :=
  ipv6 = true ∧ 47 ∈ name ∧ ∃ x m y, written p name = some (.inet x, m) ∧ client = .inet6 y ∧
    Agree m (IpAddr.v4Mapped x).toList y.toList

/-! ## Comparing bits -/

theorem byte_eq_iff (u v : UInt8) : u = v ↔ ∀ k < 8, u.toNat.testBit k = v.toNat.testBit k := by
  refine ⟨fun h k _ => by rw [h], fun h => UInt8.toNat_inj.mp (Nat.eq_of_testBit_eq fun k => ?_)⟩
  rcases Nat.lt_or_ge k 8 with hk | hk
  · exact h k hk
  · have hpow : 2 ^ 8 ≤ 2 ^ k := Nat.pow_le_pow_right (by decide) hk
    rw [Nat.testBit_lt_two_pow (u.toNat_lt.trans_le hpow),
      Nat.testBit_lt_two_pow (v.toNat_lt.trans_le hpow)]

namespace AddressMask

theorem testBit_lastByteBits : ∀ r < 8, ∀ k < 8,
    (lastByteBits r).toNat.testBit k = decide (8 - r ≤ k) := by
  decide

theorem lastByteBits_eq_zero : ∀ r < 8, lastByteBits r = 0 → r = 0 := by
  decide

/-- The last byte, of which only the first `r` bits count. -/
theorem masked_eq_iff (hr : r < 8) (u v : UInt8) : u &&& lastByteBits r = v &&& lastByteBits r ↔
      ∀ k < r, u.toNat.testBit (7 - k) = v.toNat.testBit (7 - k) := by
  rw [byte_eq_iff]
  simp only [UInt8.toNat_and, Nat.testBit_and]
  constructor
  · intro h k hk
    have hbit := h (7 - k) (by omega)
    rw [testBit_lastByteBits r hr _ (by omega), decide_eq_true (by omega)] at hbit
    simpa using hbit
  · intro h k hk
    rw [testBit_lastByteBits r hr k hk]
    rcases Nat.lt_or_ge k (8 - r) with hlow | hhigh
    · rw [decide_eq_false (by omega), Bool.and_false, Bool.and_false]
    · have hbit := h (7 - k) (by omega)
      rw [show 7 - (7 - k) = k by omega] at hbit
      rw [hbit]

theorem sameBytes_iff (hlen : x.length = y.length) : sameBytes m x y = true ↔ Agree m x y := by
  have hmod : m % 8 < 8 := Nat.mod_lt _ (by decide)
  have hbytes : x.take (m / 8) = y.take (m / 8) ↔ ∀ j < m / 8, x.getD j 0 = y.getD j 0 := by
    constructor
    · intro h j hj
      have hget := congrArg (fun l => l.getD j 0) h
      simpa [hj] using hget
    · intro h
      refine ext_getElem (by simp [hlen]) fun j hj hj' => ?_
      rw [length_take] at hj hj'
      have hget := h j (by omega)
      simpa [getElem?_eq_getElem (show j < x.length by omega),
        getElem?_eq_getElem (show j < y.length by omega)] using hget
  simp only [sameBytes, Bool.and_eq_true, Bool.or_eq_true, beq_iff_eq, hbytes]
  constructor
  · rintro ⟨hfull, hlast⟩ i hi
    unfold addressBit
    rcases Nat.lt_or_ge (i / 8) (m / 8) with hlt | hge
    · rw [hfull _ hlt]
    have hdiv : i / 8 = m / 8 := by omega
    rcases hlast with hzero | hlast
    · have := lastByteBits_eq_zero _ hmod hzero
      omega
    · rw [hdiv]
      exact ((masked_eq_iff hmod _ _).mp hlast (i % 8) (by omega)).symm
  · intro h
    refine ⟨fun j _ => (byte_eq_iff _ _).mpr fun k hk => ?_,
      .inr ((masked_eq_iff hmod _ _).mpr fun k _ => ?_)⟩
    · have hbit := h (8 * j + (7 - k)) (by omega)
      rwa [addressBit, addressBit, show (8 * j + (7 - k)) / 8 = j by omega,
        show 7 - (8 * j + (7 - k)) % 8 = k by omega] at hbit
    · have hbit := h (8 * (m / 8) + k) (by omega)
      rw [addressBit, addressBit, show (8 * (m / 8) + k) / 8 = m / 8 by omega,
        show (8 * (m / 8) + k) % 8 = k by omega] at hbit
      exact hbit.symm

/-- Addresses agree in all of their bits only if they are the same. -/
theorem agree_full {x y : List.Vector UInt8 n} : Agree (8 * n) x.toList y.toList ↔ x = y := by
  rw [← sameBytes_iff (by simp), sameBytes]
  simp only [Nat.mul_div_cancel_left n (show 0 < 8 by decide), Nat.mul_mod_right,
    show lastByteBits 0 = 0 by decide, beq_self_eq_true, Bool.true_or, Bool.and_true, beq_iff_eq]
  rw [take_of_length_le (Nat.le_of_eq x.toList_length),
    take_of_length_le (Nat.le_of_eq y.toList_length)]
  exact ⟨List.Vector.eq x y, congrArg _⟩

theorem matchAddress_iff {f : AddressMask} {client : IpAddr}
    (hfamily : client.isInet6 = f.network.isInet6) :
    f.matchAddress client = true ↔ Agree f.mask f.network.bytes client.bytes := by
  have hbits : f.network.bits = client.bits := by
    revert hfamily
    cases f.network <;> cases client <;> simp [IpAddr.isInet6, IpAddr.bits]
  have hlen : f.network.bytes.length = client.bytes.length := by
    have := f.network.length_bytes
    have := client.length_bytes
    omega
  have hmin : min f.mask client.bits = f.mask := Nat.min_eq_left (hbits ▸ f.mask_le)
  unfold matchAddress
  rw [if_neg (by simp [hfamily]), hmin]
  split
  · exact sameBytes_iff hlen
  · exact iff_of_true rfl fun i _ => by omega

end AddressMask

/-! ## Filters admit networks -/

variable {p : Platform} {name : Bytes} {f : AddressMask} {client : IpAddr}

theorem AddressMask.resolve_spec (h : resolve p ipv6 name = some f) :
    ∃ a m, written p name = some (a, m) ∧ a.presented ipv6 = some f.network ∧
      (47 ∈ name ∧ f.mask = m ∨ 47 ∉ name ∧ m = a.bits ∧ f.mask = f.network.bits) := by
  have hmem : (splitLast 47 name).isSome ↔ 47 ∈ name := by
    unfold splitLast
    split <;> simp [*]
  unfold resolve at h
  unfold written
  split at h
  · obtain ⟨b, hb, rfl⟩ := map_eq_some_iff.mp h
    obtain ⟨a, ha, hpres⟩ := bind_eq_some_iff.mp hb
    exact ⟨a, a.bits, by simp [ha], hpres, .inr ⟨by simp_all, rfl, rfl⟩⟩
  rename_i addr mask hsplit
  have hmem := hmem.mp (by rw [hsplit]; rfl)
  split at h
  · cases h
  obtain ⟨b, hb, h⟩ := bind_eq_some_iff.mp h
  obtain ⟨a, ha, hpres⟩ := bind_eq_some_iff.mp hb
  refine ⟨a, (strtol mask).toNat, by simp [ha], ?_⟩
  split at h
  · rename_i hzero
    cases h
    exact ⟨hpres, .inl ⟨hmem, by rw [hzero]; rfl⟩⟩
  unfold ofMask at h
  split at h
  · cases h
    exact ⟨hpres, .inl ⟨hmem, rfl⟩⟩
  · cases h

theorem inNetwork_inet (h : written p name = some (.inet x, m)) :
    InNetwork p name client ↔ ∃ y, client.ipv4 y ∧ Agree m x.toList y.toList := by
  simp [InNetwork, h]

theorem inNetwork_inet6 (h : written p name = some (.inet6 x, m)) :
    InNetwork p name client ↔ ∃ y, client = .inet6 y ∧ Agree m x.toList y.toList := by
  simp [InNetwork, h]

theorem IpAddr.v4Mapped_injective : Function.Injective v4Mapped := by
  intro x y h
  exact List.Vector.eq x y (append_cancel_left (congrArg List.Vector.toList h))

/-- Mapped addresses begin alike, so that they agree in every prefix in which the addresses do. -/
theorem agree_v4Mapped {x y : List.Vector UInt8 4} (h : Agree m x.toList y.toList) :
    Agree m (IpAddr.v4Mapped x).toList (IpAddr.v4Mapped y).toList := by
  intro i hi
  unfold addressBit IpAddr.v4Mapped
  simp only [List.Vector.toList_mk, getD_eq_getElem?_getD]
  rcases Nat.lt_or_ge (i / 8) 12 with hlt | hge
  · rw [getElem?_append_left hlt, getElem?_append_left hlt]
  · have hbit := h (i - 96) (by omega)
    unfold addressBit at hbit
    rw [show (i - 96) / 8 = i / 8 - 12 by omega, show (i - 96) % 8 = i % 8 by omega] at hbit
    rw [getElem?_append_right hge, getElem?_append_right hge]
    simpa using hbit

/-- A filter that was read admits the clients of its family that are in the network, and those for
which it is too wide. -/
theorem AddressMask.matchAddress_resolve (h : resolve p ipv6 name = some f) (client : IpAddr) :
    f.matchAddress client = true ↔
      ipv6 = client.isInet6 ∧ (InNetwork p name client ∨ TooWide p ipv6 name client) := by
  obtain ⟨a, m, hwritten, hpres, hmask⟩ := resolve_spec h
  have hfamily := IpAddr.isInet6_presented hpres
  by_cases hclient : ipv6 = client.isInet6
  swap
  · refine iff_of_false ?_ fun h => hclient h.1
    unfold matchAddress
    rw [if_pos (by simpa [hfamily] using Ne.symm hclient)]
    exact Bool.false_ne_true
  rw [matchAddress_iff (hclient.symm.trans hfamily.symm)]
  simp only [hclient, true_and]
  obtain ⟨network, mask, hle⟩ := f
  subst hclient
  cases a with
  | inet x =>
    rw [inNetwork_inet hwritten]
    cases client with
    | inet y =>
      cases hpres
      obtain rfl : mask = m := by
        rcases hmask with h | h
        · exact h.2
        · exact h.2.2.trans h.2.1.symm
      refine ⟨fun h => .inl ⟨y, .inl rfl, h⟩, ?_⟩
      rintro (⟨z, hz | hz, h⟩ | ⟨⟨⟩, -⟩) <;> cases hz
      exact h
    | inet6 y =>
      cases hpres
      rcases hmask with ⟨hslash, rfl⟩ | ⟨hslash, rfl, hfull⟩
      · refine ⟨fun h => .inr ⟨rfl, hslash, x, _, y, hwritten, rfl, h⟩, ?_⟩
        rintro (⟨z, hz | hz, hagree⟩ | ⟨-, -, _, _, _, hsame, ⟨⟩, hagree⟩)
        · cases hz
        · cases hz
          exact agree_v4Mapped hagree
        · cases hwritten.symm.trans hsame
          exact hagree
      -- The prefix is the whole address, which begins with the zeros of a mapped address.
      obtain rfl : mask = 128 := hfull
      refine (agree_full (n := 16)).trans ⟨?_, ?_⟩
      · rintro rfl
        exact .inl ⟨x, .inr rfl, fun _ _ => rfl⟩
      · rintro (⟨z, hz | hz, hagree⟩ | h)
        · cases hz
        · cases hz
          rw [(agree_full (n := 4)).mp hagree]
        · exact absurd h.2.1 hslash
  | inet6 =>
    rw [inNetwork_inet6 hwritten]
    cases client with
    | inet => cases hpres
    | inet6 y =>
      cases hpres
      obtain rfl : mask = m := by
        rcases hmask with h | h
        · exact h.2
        · exact h.2.2.trans h.2.1.symm
      refine ⟨fun h => .inl ⟨y, rfl, h⟩, ?_⟩
      rintro (⟨z, hz, h⟩ | ⟨-, -, _, _, _, hsame, -⟩)
      · cases hz
        exact h
      · cases hwritten.symm.trans hsame

/-- **Filters admit exactly their networks**, for the settings since the last empty one, each with
the value of `ZMQ_IPV6` at its time, and a client, if and only if: where a filter is too wide for
the client, it is in the network of some filter, and where it is in the network of a filter for the
other family, a filter for its own family admits it. -/
theorem accept_filters_exact (p : Platform) (settings : List (Bool × Bytes))
    (filters : List AddressMask)
    (hset : List.Forall₂ (fun s f => AddressMask.resolve p s.1 s.2 = some f) settings filters)
    (client : IpAddr) :
    (accepts filters client = true ↔ settings = [] ∨ ∃ s ∈ settings, InNetwork p s.2 client) ↔
      (∀ s ∈ settings, TooWide p s.1 s.2 client → ∃ s' ∈ settings, InNetwork p s'.2 client) ∧
      ∀ s ∈ settings, s.1 ≠ client.isInet6 → InNetwork p s.2 client →
        ∃ s' ∈ settings, s'.1 = client.isInet6 ∧
          (InNetwork p s'.2 client ∨ TooWide p s'.1 s'.2 client) := by
  have hany : filters.any (·.matchAddress client) = true ↔ ∃ s ∈ settings,
      s.1 = client.isInet6 ∧ (InNetwork p s.2 client ∨ TooWide p s.1 s.2 client) := by
    induction hset with
    | nil => simp
    | cons hname _ ih =>
      rw [any_cons, Bool.or_eq_true, ih, AddressMask.matchAddress_resolve hname]
      simp
  have hwide : ∀ s : Bool × Bytes, TooWide p s.1 s.2 client → s.1 = client.isInet6 := by
    rintro s ⟨htrue, -, _, _, _, -, rfl, -⟩
    exact htrue
  have hempty : filters.isEmpty = true ↔ settings = [] := by
    cases hset <;> simp
  rw [accepts, Bool.or_eq_true, hany, hempty]
  constructor
  · intro h
    refine ⟨fun s hs hw => ?_, fun s hs _ hin => ?_⟩
    · have hne : settings ≠ [] := ne_nil_of_mem hs
      exact (h.mp (.inr ⟨s, hs, hwide s hw, .inr hw⟩)).resolve_left hne
    · exact (h.mpr (.inr ⟨s, hs, hin⟩)).resolve_left (ne_nil_of_mem hs)
  · rintro ⟨hcover, hfit⟩
    refine or_congr_right ⟨?_, ?_⟩
    · rintro ⟨s, hs, -, hin | hw⟩
      · exact ⟨s, hs, hin⟩
      · exact hcover s hs hw
    · rintro ⟨s, hs, hin⟩
      by_cases hs' : s.1 = client.isInet6
      · exact ⟨s, hs, hs', .inl hin⟩
      · exact hfit s hs hs' hin

/-! ## Filters for two networks -/

/-- A platform that knows the addresses "A" (10.0.0.0) and "B" (all zeros in IPv6). -/
def samplePlatform : Platform where
  numericHost
    | [65] => some (.inet ⟨[10, 0, 0, 0], rfl⟩)
    | [66] => some (.inet6 ⟨List.replicate 16 0, rfl⟩)
    | _ => none
  ifNameToIndex _ := 0

/-- The filters "A" and "B/128", with IPv6 on. -/
theorem accept_filters_exact_sample : ∃ f g,
    AddressMask.resolve samplePlatform true [65] = some f ∧
    AddressMask.resolve samplePlatform true [66, 47, 49, 50, 56] = some g ∧
    accepts [f, g] (.inet6 (IpAddr.v4Mapped ⟨[10, 1, 2, 3], rfl⟩)) = false ∧
    ¬ InNetwork samplePlatform [65] (.inet6 (IpAddr.v4Mapped ⟨[10, 1, 2, 3], rfl⟩)) := by
  refine ⟨_, _, rfl, rfl, rfl, fun hin => ?_⟩
  have h := ((accept_filters_exact samplePlatform [(true, [65]), (true, [66, 47, 49, 50, 56])] _
    (.cons rfl (.cons rfl .nil)) (.inet6 (IpAddr.v4Mapped ⟨[10, 1, 2, 3], rfl⟩))).mpr
    ⟨fun s hs hwide => ?_, fun s hs hother => ?_⟩).mpr (.inr ⟨_, .head _, hin⟩)
  · exact absurd h (by decide)
  · obtain ⟨-, hslash, x, m, -, hwritten, -⟩ := hwide
    rcases mem_pair.mp hs with rfl | rfl
    · exact absurd hslash (by decide)
    · cases hwritten
  · rcases mem_pair.mp hs with rfl | rfl <;> exact absurd rfl hother

/-- **An IPv4 prefix is compared with the zeros of a mapped address.**  With IPv6 on, the filter
"A/8" for the network 10.0.0.0/8 admits the client 192.168.1.1. -/
theorem accept_filter_too_wide : ∃ f,
    AddressMask.resolve samplePlatform true [65, 47, 56] = some f ∧
    accepts [f] (.inet6 (IpAddr.v4Mapped ⟨[192, 168, 1, 1], rfl⟩)) = true ∧
    ¬ InNetwork samplePlatform [65, 47, 56] (.inet6 (IpAddr.v4Mapped ⟨[192, 168, 1, 1], rfl⟩)) := by
  refine ⟨_, rfl, rfl, ?_⟩
  rw [inNetwork_inet rfl]
  rintro ⟨y, hy | hy, hagree⟩
  · cases hy
  · obtain rfl := IpAddr.v4Mapped_injective (IpAddr.inet6.inj hy)
    exact absurd (hagree 0 (by decide)) (by decide)

end LibZmq
