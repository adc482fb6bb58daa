import LibZmq.Core.Execution
import LibZmq.Wire.Bytes

/-!
# Metadata

Both peers of a connection tell each other properties: the type of the socket, its routing id, and
what the application wants to add (`mechanism.cpp`). A property is a name and a value with their
lengths in front of them.

* `addProperty`, `addBasicProperties` write properties and `parseMetadata` reads them.
* `parseMetadata_addBasicProperties`: what is written is read again, if the types of the sockets fit
  together.
-/

namespace LibZmq

open List Option
open Wire (ascii putUint32 getUint32)

/-! ## Options -/

/-- The types of sockets. -/
inductive SocketType where
  | pair | pub | sub | req | rep | dealer | router | pull | push | xpub | xsub | stream
  | server | client | radio | dish | gather | scatter | dgram
deriving DecidableEq, Repr

namespace SocketType

/-- `socket_type_string`. -/
def name : SocketType → Bytes
  | pair => ascii "PAIR"
  | pub => ascii "PUB"
  | sub => ascii "SUB"
  | req => ascii "REQ"
  | rep => ascii "REP"
  | dealer => ascii "DEALER"
  | router => ascii "ROUTER"
  | pull => ascii "PULL"
  | push => ascii "PUSH"
  | xpub => ascii "XPUB"
  | xsub => ascii "XSUB"
  | stream => ascii "STREAM"
  | server => ascii "SERVER"
  | client => ascii "CLIENT"
  | radio => ascii "RADIO"
  | dish => ascii "DISH"
  | gather => ascii "GATHER"
  | scatter => ascii "SCATTER"
  | dgram => ascii "DGRAM"

/-- The types that a socket accepts as its peer. -/
def peers : SocketType → List SocketType
  | req => [rep, router]
  | rep => [req, dealer]
  | dealer => [rep, dealer, router]
  | router => [req, dealer, router]
  | push => [pull]
  | pull => [push]
  | pub => [sub, xsub]
  | sub => [pub, xpub]
  | xpub => [sub, xsub]
  | xsub => [pub, xpub]
  | pair => [pair]
  | server => [client]
  | client => [server]
  | radio => [dish]
  | dish => [radio]
  | gather => [scatter]
  | scatter => [gather]
  | dgram => [dgram]
  | stream => []

def checkSocketType (t : SocketType) (value : Bytes) : Bool :=
  t.peers.any fun p => value == p.name

theorem checkSocketType_of_mem {t p : SocketType} (h : p ∈ t.peers) :
    t.checkSocketType p.name = true :=
  any_eq_true.mpr ⟨p, h, beq_self_eq_true _⟩

/-- `options.type == ZMQ_REQ || options.type == ZMQ_DEALER || options.type == ZMQ_ROUTER`. -/
def hasIdentity (t : SocketType) : Bool := t == req || t == dealer || t == router

end SocketType

/-- What the application adds: a map from names to values, both texts without a zero. -/
structure AppMetadata where
  /-- In the order of the names. -/
  entries : List (Bytes × Bytes)
  distinct : (entries.map Prod.fst).Nodup
  named : ∀ e ∈ entries, e.1.take 2 = ascii "X-" ∧ e.1.length ≤ 255
  text : ∀ e ∈ entries, (0 : UInt8) ∉ e.1 ∧ (0 : UInt8) ∉ e.2

namespace AppMetadata

def empty : AppMetadata := ⟨[], List.nodup_nil, nofun, nofun⟩

/-- Where the map puts a new name. -/
def place (entries : List (Bytes × Bytes)) (e : Bytes × Bytes) :
    List (Bytes × Bytes) :=
  entries.takeWhile (fun x => x.1 < e.1) ++ e :: entries.dropWhile (fun x => x.1 < e.1)

theorem place_perm (entries : List (Bytes × Bytes)) (e : Bytes × Bytes) :
    (place entries e).Perm (e :: entries) := by
  refine perm_middle.trans (.cons e ?_)
  rw [takeWhile_append_dropWhile]

/-- `app_metadata.insert`: a name that is there keeps its value. -/
def insert (a : AppMetadata) (key value : Bytes)
    (hkey : key.take 2 = ascii "X-" ∧ key.length ≤ 255)
    (htext : (0 : UInt8) ∉ key ∧ (0 : UInt8) ∉ value) : AppMetadata :=
  if hnew : key ∈ a.entries.map Prod.fst then a
  else
    { entries := place a.entries (key, value)
      distinct := by
        rw [((place_perm a.entries (key, value)).map Prod.fst).nodup_iff]
        exact List.nodup_cons.mpr ⟨hnew, a.distinct⟩
      named := fun e he => by
        rcases List.mem_cons.mp ((place_perm _ _).mem_iff.mp he) with rfl | he
        · exact hkey
        · exact a.named e he
      text := fun e he => by
        rcases List.mem_cons.mp ((place_perm _ _).mem_iff.mp he) with rfl | he
        · exact htext
        · exact a.text e he }

end AppMetadata

/-- The part of `options_t` that the mechanisms read. -/
structure Options where
  type : SocketType
  routingId : Bytes
  recvRoutingId : Bool
  appMetadata : AppMetadata
  zapDomain : Bytes
  zapEnforceDomain : Bool

def Options.zapRequired (o : Options) : Bool := !o.zapDomain.isEmpty

theorem Options.zapRequired_iff (o : Options) : o.zapRequired = true ↔ o.zapDomain ≠ [] := by
  simp [zapRequired]

/-! ## How the functions of a mechanism end -/

/-- The values of `errno`. -/
inductive HandshakeErrno where
  | eagain
  | eproto
  | einval
  | efsm
  | econnrefused
  | enotconn
  /-- The function does not set `errno`. -/
  | stale
deriving DecidableEq, Repr

/-- `0`, or `-1` and `errno`. -/
inductive Rc where
  | ok
  | error (e : HandshakeErrno)
deriving DecidableEq, Repr

theorem Rc.error_ne_ok (e : HandshakeErrno) : Rc.error e ≠ .ok := nofun

/-- `mechanism_t::status_t`. -/
inductive MechanismStatus where
  | handshaking
  | ready
  | error
deriving DecidableEq, Repr

/-- Why a mechanism ends in another way. -/
inductive MechanismFault where
  /-- `zmq_assert`. -/
  | assertion
  /-- A key is read that was never written. -/
  | uninitialised
deriving DecidableEq, Repr

/-! ## What a mechanism knows about the peer -/

/-- `metadata_t::dict_t`. -/
abbrev Properties := List (Bytes × Bytes)

/-- `emplace`: a name that is there keeps its value. -/
def Properties.emplace (ps : Properties) (name value : Bytes) : Properties :=
  if ps.any (fun e => e.1 == name) then ps else ps ++ [(name, value)]

/-- The value of a name. -/
def Properties.find (ps : Properties) (name : Bytes) : Option Bytes :=
  (List.find? (fun e => e.1 == name) ps).map Prod.snd

/-- A value that is there stays. -/
theorem Properties.find_emplace {ps : Properties} {key name value v : Bytes}
    (h : ps.find key = some v) : (ps.emplace name value).find key = some v := by
  unfold emplace
  split
  · exact h
  unfold find at h ⊢
  obtain ⟨e, he, hv⟩ := map_eq_some_iff.mp h
  rw [find?_append, he]
  exact congrArg some hv

theorem Properties.emplace_of_notMem {ps : Properties} {name value : Bytes}
    (h : name ∉ ps.map Prod.fst) : ps.emplace name value = ps ++ [(name, value)] := by
  refine if_neg fun hany => h ?_
  obtain ⟨e, he, hname⟩ := any_eq_true.mp hany
  rw [← beq_iff_eq.mp hname]
  exact mem_map_of_mem he

/-- The data of `mechanism_t`. -/
structure Mechanism where
  /-- The routing id of the peer. -/
  routingId : Bytes
  userId : Bytes
  zapProperties : Properties
  zmtpProperties : Properties
deriving DecidableEq, Repr

namespace Mechanism

def new : Mechanism := { routingId := [], userId := [], zapProperties := [], zmtpProperties := [] }

def setUserId (m : Mechanism) (id : Bytes) : Mechanism :=
  { m with userId := id, zapProperties := m.zapProperties.emplace (ascii "User-Id") id }

def identity : Bytes := ascii "Identity"

def socketType : Bytes := ascii "Socket-Type"

/-- A property is stored among those of the ZAP handler or among those of the peer. -/
def store (m : Mechanism) (zap : Bool) (name value : Bytes) : Mechanism :=
  if zap then { m with zapProperties := m.zapProperties.emplace name value }
  else { m with zmtpProperties := m.zmtpProperties.emplace name value }

/-- What `parse_metadata` does with a property; `none` if the value is refused. -/
def takeProperty (m : Mechanism) (o : Options) (zap : Bool) (name value : Bytes) :
    Option Mechanism :=
  if name = identity ∧ o.recvRoutingId then
    some (store { m with routingId := value } zap name value)
  else if name = socketType then
    if o.type.checkSocketType value then some (m.store zap name value) else none
  else some (m.store zap name value)

/-- Cut the next property off; otherwise the number of bytes that are left when it turns out to be
too short. -/
def nextProperty : Bytes → Except Nat (Bytes × Bytes × Bytes)
  | [] => .error 0
  | length :: bytes =>
      if bytes.length < length.toNat then .error bytes.length
      else
        let name := bytes.take length.toNat
        let bytes := bytes.drop length.toNat
        if bytes.length < 4 then .error bytes.length
        else
          let size := (getUint32 (bytes.take 4)).toNat
          let bytes := bytes.drop 4
          if bytes.length < size then .error bytes.length
          else .ok (name, bytes.take size, bytes.drop size)

/-- The end of `parse_metadata`. -/
def finish (bytesLeft : Nat) : Rc := if 0 < bytesLeft then .error .eproto else .ok

/-- The loop of `parse_metadata`; at most `n` properties. -/
def parseLoop (o : Options) (zap : Bool) : Nat → Mechanism → Bytes → Rc × Mechanism
  | 0, m, bytes => (finish bytes.length, m)
  | n + 1, m, bytes =>
      if bytes.length ≤ 1 then (finish bytes.length, m)
      else
        match nextProperty bytes with
        | .error bytesLeft => (finish bytesLeft, m)
        | .ok (name, value, rest) =>
            match m.takeProperty o zap name value with
            | none => (.error .einval, m)
            | some m => parseLoop o zap n m rest

def parseMetadata (m : Mechanism) (o : Options) (zap : Bool) (bytes : Bytes) :
    Rc × Mechanism :=
  parseLoop o zap bytes.length m bytes

end Mechanism

namespace Mechanism

/-- What every property leaves as it is, `parse_metadata` does, too. -/
theorem parseMetadata_keeps {P : Mechanism → Prop}
    (htake : ∀ m name value m', P m → takeProperty m o zap name value = some m' → P m')
    (hm : P m) (bytes : Bytes) : P (m.parseMetadata o zap bytes).2 := by
  suffices hloop : ∀ n m bytes, P m → P (parseLoop o zap n m bytes).2 from hloop _ m bytes hm
  intro n
  induction n with
  | zero => exact fun _ _ hm => hm
  | succ n ih =>
    intro m _ hm
    unfold parseLoop
    split
    · exact hm
    split
    · exact hm
    rename_i name value rest _
    split
    · exact hm
    · rename_i m' hproperty
      exact ih m' rest (htake m name value m' hm hproperty)

theorem takeProperty_isSome (o : Options) (zap : Bool) (m m' : Mechanism) (name value : Bytes) :
    (m.takeProperty o zap name value).isSome = (m'.takeProperty o zap name value).isSome := by
  unfold takeProperty
  split
  · rfl
  · split
    · split <;> rfl
    · rfl

/-- Whether metadata is proper does not depend on what is known already. -/
theorem parseMetadata_rc (m m' : Mechanism) (bytes : Bytes) :
    (m.parseMetadata o zap bytes).1 = (m'.parseMetadata o zap bytes).1 := by
  suffices hloop : ∀ n m m' bytes,
      (parseLoop o zap n m bytes).1 = (parseLoop o zap n m' bytes).1 from hloop _ m m' bytes
  intro n
  induction n with
  | zero => exact fun _ _ _ => rfl
  | succ n ih =>
    intro m m' _
    unfold parseLoop
    split
    · rfl
    split
    · rfl
    rename_i name value rest _
    have hsome := takeProperty_isSome o zap m m' name value
    cases h : m.takeProperty o zap name value with
    | none =>
      rw [h] at hsome
      have h' : m'.takeProperty o zap name value = none :=
        not_isSome_iff_eq_none.mp (by rw [← hsome]; nofun)
      rw [h']
    | some m₁ =>
      rw [h] at hsome
      obtain ⟨m₁', h'⟩ := isSome_iff_exists.mp hsome.symm
      rw [h']
      exact ih m₁ m₁' rest

/-- A property of the peer changes neither the user id nor what the ZAP handler has said. -/
theorem takeProperty_zmtp {m m' : Mechanism} {name value : Bytes}
    (h : m.takeProperty o false name value = some m') :
    m'.userId = m.userId ∧ m'.zapProperties = m.zapProperties := by
  unfold takeProperty store at h
  split at h
  · cases h
    exact ⟨rfl, rfl⟩
  split at h
  · split at h
    · cases h
      exact ⟨rfl, rfl⟩
    · cases h
  · cases h
    exact ⟨rfl, rfl⟩

theorem parseMetadata_zmtp (m : Mechanism) (bytes : Bytes) :
    (m.parseMetadata o false bytes).2.userId = m.userId ∧
      (m.parseMetadata o false bytes).2.zapProperties = m.zapProperties :=
  parseMetadata_keeps (P := fun m' => m'.userId = m.userId ∧ m'.zapProperties = m.zapProperties)
    (fun _ _ _ _ hm h => ⟨(takeProperty_zmtp h).1.trans hm.1, (takeProperty_zmtp h).2.trans hm.2⟩)
    ⟨rfl, rfl⟩ bytes

end Mechanism

/-! ## Writing properties -/

def addProperty (name value : Bytes) : Except MechanismFault Bytes :=
  if name.length ≤ 255 ∧ value.length ≤ 0x7fffffff then
    .ok (name.length.toUInt8 :: name ++ putUint32 value.length.toUInt32 ++ value)
  else .error .assertion

namespace Options

/-- The properties of a socket. -/
def properties (o : Options) : Properties :=
  [(Mechanism.socketType, o.type.name)] ++
    (if o.type.hasIdentity then [(Mechanism.identity, o.routingId)] else []) ++
    o.appMetadata.entries

/-- Properties one after the other. -/
def addProperties : Properties → Except MechanismFault Bytes
  | [] => .ok []
  | (name, value) :: ps => do
      let bytes ← addProperty name value
      let rest ← addProperties ps
      .ok (bytes ++ rest)

def addBasicProperties (o : Options) : Except MechanismFault Bytes :=
  addProperties o.properties

theorem addProperties_ne_uninitialised (ps : Properties) :
    addProperties ps ≠ .error .uninitialised := by
  induction ps with
  | nil => nofun
  | cons p _ ih =>
    refine bind_ne_error ?_ fun _ _ => bind_ne_error ih fun _ _ => nofun
    unfold addProperty
    split <;> nofun

end Options

/-! ## What is written is read again -/

namespace Mechanism

variable {o : Options} {m : Mechanism} {name value bytes rest : Bytes} {ps : Properties}
  {peer : Options}

theorem nextProperty_complete {length : UInt8} {size : Bytes} (hname : name.length = length.toNat)
    (hsize : size.length = 4) (hvalue : value.length = (getUint32 size).toNat) (rest : Bytes) :
    nextProperty (length :: (name ++ (size ++ (value ++ rest)))) = .ok (name, value, rest) := by
  have htake : (size ++ (value ++ rest)).take 4 = size := take_left' hsize
  have hdrop : (size ++ (value ++ rest)).drop 4 = value ++ rest := drop_left' hsize
  simp only [nextProperty, ← hname, take_left, drop_left, htake, hdrop, ← hvalue, length_append]
  rw [if_neg (by omega), if_neg (by omega), if_neg (by omega)]

section
variable (h : addProperty name value = .ok bytes)
include h

theorem addProperty_eq :
    ∃ (length : UInt8) (size : Bytes), bytes = length :: (name ++ (size ++ value)) ∧
      name.length = length.toNat ∧ size.length = 4 ∧ value.length = (getUint32 size).toNat := by
  unfold addProperty at h
  split at h
  · cases h
    refine ⟨name.length.toUInt8, putUint32 value.length.toUInt32, by simp, ?_,
      Wire.length_putUint32 _, ?_⟩
    · rw [UInt8.toNat_ofNat']
      omega
    · rw [Wire.getUint32_putUint32, UInt32.toNat_ofNat']
      omega
  · cases h

theorem nextProperty_addProperty (rest : Bytes) :
    nextProperty (bytes ++ rest) = .ok (name, value, rest) := by
  obtain ⟨length, size, rfl, hname, hsize, hvalue⟩ := addProperty_eq h
  simpa using
    nextProperty_complete hname hsize hvalue rest

theorem length_addProperty : bytes.length = 1 + name.length + 4 + value.length := by
  obtain ⟨-, size, rfl, -, hsize, -⟩ := addProperty_eq h
  simp only [length_cons, length_append]
  omega

end

/-- The properties are taken one after the other. -/
def takeProperties (o : Options) (zap : Bool) : Mechanism → Properties → Option Mechanism
  | m, [] => some m
  | m, (name, value) :: ps =>
      (m.takeProperty o zap name value).bind fun m => takeProperties o zap m ps

theorem parseLoop_addProperties
    (h : Options.addProperties ps = .ok bytes) (htake : takeProperties o zap m ps = some m')
    (hn : bytes.length ≤ n) : parseLoop o zap n m bytes = (.ok, m') := by
  induction ps generalizing m n bytes with
  | nil =>
    cases h
    cases htake
    cases n <;> rfl
  | cons p _ ih =>
    obtain ⟨first, hfirst, h⟩ := bind_ok h
    obtain ⟨rest, hrest, ⟨⟩⟩ := bind_ok h
    have hlen := length_addProperty hfirst
    rw [length_append] at hn
    obtain ⟨m₁, htake₁, htake'⟩ := bind_eq_some_iff.mp htake
    cases n with
    | zero => omega
    | succ =>
      rw [parseLoop, if_neg (by rw [length_append]; omega), nextProperty_addProperty hfirst]
      simp only [htake₁]
      exact ih hrest htake' (by omega)

/-- What a socket knows after it has read the properties of its peer. -/
def after (m : Mechanism) (o peer : Options) : Mechanism :=
  { m with
    routingId := if peer.type.hasIdentity ∧ o.recvRoutingId then peer.routingId else m.routingId
    zmtpProperties := peer.properties }

theorem store_zmtp (hnew : name ∉ m.zmtpProperties.map Prod.fst) : m.store false name value =
      { m with zmtpProperties := m.zmtpProperties ++ [(name, value)] } := by
  rw [store, if_neg Bool.false_ne_true, Properties.emplace_of_notMem hnew]

theorem takeProperties_app (hnew : ∀ e ∈ ps, e.1.take 2 = ascii "X-")
    (hdistinct : (ps.map Prod.fst).Nodup) (hold : ∀ e ∈ m.zmtpProperties, e.1 ∉ ps.map Prod.fst) :
    takeProperties o false m ps = some { m with zmtpProperties := m.zmtpProperties ++ ps } := by
  induction ps generalizing m with
  | nil => rw [takeProperties, append_nil]
  | cons p _ ih =>
    obtain ⟨name, value⟩ := p
    have hx : name.take 2 = ascii "X-" := hnew _ (.head _)
    have hid : name ≠ identity := fun e => absurd hx (by rw [e]; decide)
    have htype : name ≠ socketType := fun e => absurd hx (by rw [e]; decide)
    have habsent : name ∉ m.zmtpProperties.map Prod.fst := by
      intro hmem
      obtain ⟨e, he, rfl⟩ := mem_map.mp hmem
      exact hold e he (.head _)
    rw [takeProperties, takeProperty, if_neg fun h => hid h.1, if_neg htype, store_zmtp habsent]
    rw [map_cons, nodup_cons] at hdistinct
    rw [bind_some, ih (fun e he => hnew e (.tail _ he)) hdistinct.2]
    · simp
    · intro e he
      rcases mem_append.mp he with he | he
      · exact fun hmem => hold e he (.tail _ hmem)
      · rw [mem_singleton.mp he]
        exact hdistinct.1

section
variable (hfit : peer.type ∈ o.type.peers) (hempty : m.zmtpProperties = [])
include hfit hempty

/-- Every property of the peer is taken, if the sockets fit together. -/
theorem takeProperties_properties :
    takeProperties o false m peer.properties = some (m.after o peer) := by
  have hcheck := SocketType.checkSocketType_of_mem hfit
  have hX : ∀ e ∈ peer.appMetadata.entries, e.1.take 2 = ascii "X-" := fun e he =>
    (peer.appMetadata.named e he).1
  have hnotX : ∀ name, name.take 2 ≠ ascii "X-" → name ∉ peer.appMetadata.entries.map Prod.fst := by
    intro _ hname hmem
    obtain ⟨e, he, rfl⟩ := mem_map.mp hmem
    exact hname (hX e he)
  have htype : socketType ∉ peer.appMetadata.entries.map Prod.fst := hnotX _ (by decide)
  have hid : identity ∉ peer.appMetadata.entries.map Prod.fst := hnotX _ (by decide)
  have hne : socketType ≠ identity := by decide
  rw [Options.properties, append_assoc, singleton_append, takeProperties, takeProperty,
    if_neg fun h => hne h.1, if_pos rfl, if_pos hcheck, bind_some,
    store_zmtp (by rw [hempty]; exact not_mem_nil), hempty, nil_append]
  by_cases hhas : peer.type.hasIdentity = true
  · -- `Identity` is recorded whether or not the routing id is wanted
    have hstore : ∀ m' : Mechanism, m'.zmtpProperties = [(socketType, peer.type.name)] →
        m'.store false identity peer.routingId = { m' with
            zmtpProperties := [(socketType, peer.type.name), (identity, peer.routingId)] } := by
      intro m' hm'
      rw [store_zmtp (by rw [hm']; simpa using hne.symm), hm']
      rfl
    have htake : ∀ m' : Mechanism, m'.zmtpProperties = [(socketType, peer.type.name)] →
        m'.takeProperty o false identity peer.routingId = some { m' with
            routingId := if o.recvRoutingId then peer.routingId else m'.routingId
            zmtpProperties := [(socketType, peer.type.name), (identity, peer.routingId)] } := by
      intro _ hm'
      unfold takeProperty
      by_cases hrecv : o.recvRoutingId = true
      · rw [if_pos ⟨rfl, hrecv⟩, hstore _ (by exact hm'), if_pos hrecv]
      · rw [if_neg fun h => hrecv h.2, if_neg hne.symm, hstore _ hm', if_neg hrecv]
    rw [if_pos hhas, singleton_append, takeProperties, htake _ rfl, bind_some,
      takeProperties_app hX peer.appMetadata.distinct]
    · simp [after, Options.properties, hhas]
    · intro e he
      simp only [mem_cons, not_mem_nil, or_false] at he
      rcases he with rfl | rfl
      · exact htype
      · exact hid
  · rw [if_neg hhas, nil_append, takeProperties_app hX peer.appMetadata.distinct]
    · simp [after, Options.properties, hhas]
    · intro e he
      rw [mem_singleton.mp he]
      exact htype

/-- **What is written is read again**: after the handshake a socket knows the properties of its
peer. -/
theorem parseMetadata_addBasicProperties (hbytes : peer.addBasicProperties = .ok bytes) :
    m.parseMetadata o false bytes = (.ok, m.after o peer) :=
  parseLoop_addProperties hbytes (takeProperties_properties hfit hempty) le_rfl

end

end Mechanism
end LibZmq
