import LibZmq.Core.Counter
import LibZmq.Security.CurveServer

/-!
# The encrypted connection

Two ends that have a key in common encode messages, and an attacker delivers whatever frames it
likes to either of them (`curve_mechanism_base.cpp`).

* `CurveLink` is the two ends, with all the boxes that were made under the key.
* `Unforged` is the ideal cipher: a frame opens only if its text was encrypted with its nonce.
* `channel_intact`: what comes out is what went in, in the same order and nothing twice, what is too
  short, replayed or late is refused, and no nonce is used twice.
* `wrapped_counter_reorders`: once the counter has wrapped around, the order can be changed.
-/

namespace LibZmq

open List Option
open LibZmq.Core (cut Exec Guarded counterAt)
open Wire (getUint64)
open MsgFlag (more command)

/-! ## What decoding can do -/

namespace CurveBase

variable {nacl : Nacl} {key : Block 32} {b b' : CurveBase} {m m' : Msg} {rc : Rc}

/-- The number in a frame. -/
def frameCounter (m : Msg) (hsize : 33 ≤ m.data.length) : UInt64 :=
  getUint64 (cut m.data 8 8 (by omega)).toList

/-- The nonce that a frame is opened with. -/
def frameNonce (b : CurveBase) (m : Msg) (hsize : 33 ≤ m.data.length) : Block 24 :=
  b.decodeNoncePrefix ++ cut m.data 8 8 (by omega)

/-- The text of a frame that can be opened. -/
def openMessage (nacl : Nacl) (key : Block 32) (b : CurveBase) (m : Msg)
    (hsize : 33 ≤ m.data.length) : Option (Block (m.data.length - 33 + 1)) :=
  nacl.afternm.decrypt key (b.frameNonce m hsize)
    (cut m.data 16 (m.data.length - 33 + 1 + 16) (by omega))

/-- A frame that is not even opened. -/
def Stale (b : CurveBase) (m : Msg) : Prop :=
  checkBasicCommandStructure m.data = false ∨ isCommand messageName m.data = false ∨
    ∀ hsize : 33 ≤ m.data.length, frameCounter m hsize ≤ b.cnPeerNonce

theorem Stale.mono (h : b.Stale m) (hle : b.cnPeerNonce ≤ b'.cnPeerNonce) : b'.Stale m := by
  rcases h with h | h | h
  · exact .inl h
  · exact .inr (.inl h)
  · exact .inr (.inr fun hsize => UInt64.le_trans (h hsize) hle)

/-- What `decode` can do. -/
inductive Decoded (nacl : Nacl) (key : Block 32) (b : CurveBase) (m : Msg) :
    Rc → Msg → CurveBase → Prop where
  | stale (hstale : b.Stale m) : Decoded nacl key b m (.error .eproto) m b
  | unopened {hsize : 33 ≤ m.data.length} (hnew : b.cnPeerNonce < frameCounter m hsize) :
      Decoded nacl key b m (.error .eproto) m { b with cnPeerNonce := frameCounter m hsize }
  | opened {hsize : 33 ≤ m.data.length} {text : Block (m.data.length - 33 + 1)}
      (hnew : b.cnPeerNonce < frameCounter m hsize)
      (hopen : openMessage nacl key b m hsize = some text) :
      Decoded nacl key b m .ok (ofPlaintext text)
        { b with cnPeerNonce := frameCounter m hsize }

theorem decode_spec (nacl : Nacl) (hkey : b.cnPrecom = some key) (m : Msg) :
    ∃ rc m' b', b.decode nacl m = .ok (rc, m', b') ∧ Decoded nacl key b m rc m' b' := by
  unfold decode
  split
  · rename_i hform
    exact ⟨_, _, _, rfl, .stale (.inl hform)⟩
  split
  · rename_i hname
    exact ⟨_, _, _, rfl, .stale (.inr (.inl hname))⟩
  split
  · rename_i hsize
    exact ⟨_, _, _, rfl, .stale (.inr (.inr fun h => absurd hsize (Nat.not_lt.mpr h)))⟩
  rename_i hsize
  have hsize : 33 ≤ m.data.length := Nat.not_lt.mp hsize
  dsimp only
  split
  · rename_i hold
    exact ⟨_, _, _, rfl, .stale (.inr (.inr fun _ => hold))⟩
  rename_i hnew
  have hnew : b.cnPeerNonce < frameCounter m hsize := UInt64.not_le.mp hnew
  split
  · rename_i hnone
    cases hkey.symm.trans hnone
  rename_i key' hkey'
  cases hkey.symm.trans hkey'
  split
  · exact ⟨_, _, _, rfl, .unopened hnew⟩
  · rename_i text hopen
    exact ⟨_, _, _, rfl, .opened hnew hopen⟩

/-- A frame is refused. -/
def Refuses (nacl : Nacl) (b : CurveBase) (m : Msg) : Prop :=
  ∃ e m' b', b.decode nacl m = .ok (.error e, m', b')

theorem Stale.refuses (h : b.Stale m) : b.Refuses nacl m := by
  unfold Refuses decode
  split
  · exact ⟨_, _, _, rfl⟩
  rename_i hform
  split
  · exact ⟨_, _, _, rfl⟩
  rename_i hname
  split
  · exact ⟨_, _, _, rfl⟩
  rename_i hsize
  rcases h with h | h | h
  · exact absurd h hform
  · exact absurd h hname
  dsimp only
  split
  · exact ⟨_, _, _, rfl⟩
  · rename_i hnew
    exact absurd (h (Nat.not_lt.mp hsize)) hnew

/-- The frame that is made of a message. -/
def frame (nacl : Nacl) (key : Block 32) (pre : Block 16) (counter : UInt64) (m : Msg) : Msg :=
  let box := nacl.afternm.encrypt key (pre ++ shortNonce counter) (plaintext m)
  ofData 0 (messageName ++ ((shortNonce counter).toList ++ box.toList))

theorem encode_eq (hkey : b.cnPrecom = some key) (m : Msg) :
    b.encode nacl m = .ok (frame nacl key b.encodeNoncePrefix b.cnNonce m,
      { b with cnNonce := b.cnNonce + 1 }) := by
  unfold encode
  rw [hkey]
  rfl

theorem cut_frame (nacl : Nacl) (key : Block 32) (pre : Block 16) (counter : UInt64) (m : Msg)
    (h : 8 + 8 ≤ (frame nacl key pre counter m).data.length) :
    cut (frame nacl key pre counter m).data 8 8 h = shortNonce counter :=
  Core.cut_eq rfl rfl

theorem frameCounter_frame (nacl : Nacl) (key : Block 32) (pre : Block 16) (counter : UInt64)
    (m : Msg) (hsize : 33 ≤ (frame nacl key pre counter m).data.length) :
    frameCounter (frame nacl key pre counter m) hsize = counter := by
  unfold frameCounter
  rw [cut_frame, getUint64_shortNonce]

/-! ## Payload and flags -/

/-- What a message is for the peer: its data, and its flags `more` and `command`. -/
def content (m : Msg) : UInt8 × Bytes :=
  (m.flags &&& (MsgFlag.more ||| MsgFlag.command), m.data)

/-- The flags `more` and `command` come through, whatever the others are. -/
theorem flags_wireFlags : ∀ b : Fin 256, let wire := wireFlags ⟨.vsm, UInt8.ofFin b, []⟩
    ((if wire &&& 1 != 0 then more else 0) |||
      (if wire &&& 2 != 0 then command else 0)) &&& (more ||| command) =
      UInt8.ofFin b &&& (more ||| command) := by
  decide +kernel

theorem content_ofPlaintext
    (h : text.toList = (plaintext m).toList) : content (ofPlaintext text) = content m := by
  obtain ⟨_ | ⟨flags, data⟩, hlength⟩ := text
  · cases h
  · obtain ⟨rfl, rfl⟩ : flags = wireFlags m ∧ data = m.data := cons_eq_cons.mp h
    exact Prod.ext (flags_wireFlags m.flags.toFin) rfl

end CurveBase

/-! ## The nonces of the handshake -/

open CurveBase (content messageC messageS plaintext frameCounter openMessage ofPlaintext ofData)
open CurveClientTools (helloPrefix vouchPrefix initiatePrefix welcomePrefix readyPrefix)

/-- The nonces that `next_handshake_command` of the client encrypts with. -/
def CurveClient.nonces (c : CurveClient) (random : Block 16) : List (Block 24) :=
  match c.state with
  | .sendHello => [helloPrefix ++ shortNonce c.base.cnNonce]
  | .sendInitiate => [vouchPrefix ++ random, initiatePrefix ++ shortNonce c.base.cnNonce]
  | _ => []

/-- The nonces that `next_handshake_command` of the server encrypts with. -/
def CurveServer.nonces (s : CurveServer) (random : WelcomeRandom) : List (Block 24) :=
  match s.handshake.state with
  | .sendingWelcome =>
      [cookiePrefix ++ random.cookieNonce, welcomePrefix ++ random.welcomeNonce]
  | .sendingReady => [readyPrefix ++ shortNonce s.base.cnNonce]
  | _ => []

/-! ## Two ends -/

/-- The two ends of a connection. -/
inductive CurvePeer where
  | client
  | server
deriving DecidableEq, Repr

namespace CurvePeer

def other : CurvePeer → CurvePeer
  | client => server
  | server => client

@[simp] theorem other_other (p : CurvePeer) : p.other.other = p := by cases p <;> rfl

theorem other_ne (p : CurvePeer) : p.other ≠ p := by cases p <;> nofun

variable {p q : CurvePeer}

theorem eq_other_of_ne (h : q ≠ p) : p = q.other := by
  cases p <;> cases q <;> first | rfl | exact absurd rfl h

/-- What the nonces of the messages of an end begin with. -/
def messagePrefix : CurvePeer → Block 16
  | client => CurveBase.messageC
  | server => CurveBase.messageS

theorem messagePrefix_inj (h : p.messagePrefix = q.messagePrefix) : p = q := by
  cases p <;> cases q <;> first | rfl | exact absurd h (by decide)

end CurvePeer

/-- A text that was encrypted, with its nonce. -/
structure Sealed where
  nonce : Block 24
  text : Bytes
deriving DecidableEq

/-- An end of the connection and its history. -/
structure CurveEnd where
  base : CurveBase
  /-- The messages that it has encoded. -/
  sent : List Msg
  /-- What it has encrypted for them. -/
  boxes : List Sealed
  /-- What was made of them. -/
  frames : List Msg
  /-- The frames that it was to decode. -/
  delivered : List Msg
  /-- Those of them that were not refused. -/
  accepted : List Msg
  /-- What came out of those. -/
  received : List Msg
deriving DecidableEq

namespace CurveEnd

def new (base : CurveBase) : CurveEnd :=
  { base, sent := [], boxes := [], frames := [], delivered := [], accepted := [], received := [] }

/-- The end encodes a message. -/
def encode (nacl : Nacl) (e : CurveEnd) (m : Msg) : Except MechanismFault CurveEnd := do
  let (frame, base) ← e.base.encode nacl m
  .ok { e with
        base
        sent := e.sent ++ [m]
        boxes := e.boxes ++ [⟨e.base.encodeNoncePrefix ++ shortNonce e.base.cnNonce,
          (CurveBase.plaintext m).toList⟩]
        frames := e.frames ++ [frame] }

/-- The end is given a frame. -/
def deliver (nacl : Nacl) (e : CurveEnd) (frame : Msg) : Except MechanismFault CurveEnd := do
  match ← e.base.decode nacl frame with
  | (.ok, m, base) =>
      .ok { e with base, delivered := e.delivered ++ [frame], accepted := e.accepted ++ [frame],
                   received := e.received ++ [m] }
  | (.error _, _, base) => .ok { e with base, delivered := e.delivered ++ [frame] }

variable {nacl : Nacl} {key : Block 32} {e : CurveEnd}

/-- The end after it has encoded a message. -/
def encoded (nacl : Nacl) (key : Block 32) (e : CurveEnd) (m : Msg) : CurveEnd :=
  { e with
    base := { e.base with cnNonce := e.base.cnNonce + 1 }
    sent := e.sent ++ [m]
    boxes := e.boxes ++ [⟨e.base.encodeNoncePrefix ++ shortNonce e.base.cnNonce,
      (CurveBase.plaintext m).toList⟩]
    frames := e.frames ++ [CurveBase.frame nacl key e.base.encodeNoncePrefix e.base.cnNonce m] }

theorem encode_eq (hkey : e.base.cnPrecom = some key) (m : Msg) :
    e.encode nacl m = .ok (e.encoded nacl key m) := by
  unfold encode
  rw [CurveBase.encode_eq hkey]
  rfl

/-- The end after it was given a frame; `counter` is what it has seen last. -/
def given (e : CurveEnd) (counter : UInt64) (frame : Msg) : CurveEnd :=
  { e with
    base := { e.base with cnPeerNonce := counter }
    delivered := e.delivered ++ [frame] }

/-- What the delivery of a frame can do. -/
inductive Delivered (nacl : Nacl) (key : Block 32) (e : CurveEnd) (frame : Msg) :
    CurveEnd → Prop where
  | refused {counter : UInt64} (hle : e.base.cnPeerNonce ≤ counter)
      (hstale : (e.given counter frame).base.Stale frame) :
      Delivered nacl key e frame (e.given counter frame)
  | accepted {hsize : 33 ≤ frame.data.length} {text : Block (frame.data.length - 33 + 1)}
      (hnew : e.base.cnPeerNonce < CurveBase.frameCounter frame hsize)
      (hopen : CurveBase.openMessage nacl key e.base frame hsize = some text) :
      Delivered nacl key e frame
        { e.given (CurveBase.frameCounter frame hsize) frame with
          accepted := e.accepted ++ [frame]
          received := e.received ++ [CurveBase.ofPlaintext text] }

theorem deliver_spec (nacl : Nacl) (hkey : e.base.cnPrecom = some key) (frame : Msg) :
    ∃ e', e.deliver nacl frame = .ok e' ∧ Delivered nacl key e frame e' := by
  obtain ⟨rc, m, base, hdecode, hspec⟩ := CurveBase.decode_spec nacl hkey frame
  unfold deliver
  rw [hdecode]
  cases hspec with
  | stale hstale => exact ⟨_, rfl, .refused UInt64.le_rfl hstale⟩
  | unopened hnew =>
    exact ⟨_, rfl, .refused (UInt64.le_of_lt hnew) (.inr (.inr fun _ => UInt64.le_rfl))⟩
  | opened hnew hopen => exact ⟨_, rfl, .accepted hnew hopen⟩

end CurveEnd

open CurveEnd (Delivered encode_eq deliver_spec)

/-- Two ends that have a key in common, and what was encrypted under it in their handshake. -/
structure CurveLink where
  ends : CurvePeer → CurveEnd
  handshake : List Sealed

/-- What happens on the connection. Any frame can be delivered to either end. -/
inductive CurveLinkAct where
  | encode (p : CurvePeer) (m : Msg)
  | deliver (p : CurvePeer) (frame : Msg)
deriving DecidableEq

namespace CurveLink

variable {nacl : Nacl} {key : Block 32} {start : CurvePeer → CurveBase} {n n' : CurveLink}
  {p : CurvePeer} {handshake : List Sealed}

def initial (start : CurvePeer → CurveBase) (handshake : List Sealed) : CurveLink :=
  { ends := fun p => .new (start p), handshake }

def set (n : CurveLink) (p : CurvePeer) (e : CurveEnd) : CurveLink :=
  { n with ends := Function.update n.ends p e }

@[simp] theorem set_ends_same (n : CurveLink) (p : CurvePeer) (e : CurveEnd) :
    (n.set p e).ends p = e := Function.update_self ..

theorem set_ends_ne (n : CurveLink) (e : CurveEnd) (h : q ≠ p) : (n.set p e).ends q = n.ends q :=
  Function.update_of_ne h ..

theorem set_same (n : CurveLink) (p : CurvePeer) (e : CurveEnd) (h : n.ends p = e) :
    n.set p e = n := by
  unfold set
  rw [← h, Function.update_eq_self]

theorem set_set (n : CurveLink) (p : CurvePeer) (e e' : CurveEnd) :
    (n.set p e).set p e' = n.set p e' := by
  unfold set
  rw [Function.update_idem]

variable {e e' : CurveEnd} {b : Sealed} {i : Nat}

/-- What holds for every end and for the one that is new. -/
theorem forall_set {P : CurvePeer → CurveEnd → Prop}
    (hnew : P p e) (h : ∀ q, P q (n.ends q)) (q : CurvePeer) : P q ((n.set p e).ends q) := by
  by_cases hq : q = p
  · subst hq
    rwa [set_ends_same]
  · rw [set_ends_ne n e hq]
    exact h q

def next (nacl : Nacl) (n : CurveLink) : CurveLinkAct → Except MechanismFault CurveLink
  | .encode p m => ((n.ends p).encode nacl m).map (n.set p)
  | .deliver p frame => ((n.ends p).deliver nacl frame).map (n.set p)

def Step (nacl : Nacl) (n : CurveLink) (a : CurveLinkAct) (n' : CurveLink) : Prop :=
  n.next nacl a = .ok n'

/-- Everything that was encrypted under the key. -/
def boxes (n : CurveLink) : List Sealed :=
  n.handshake ++ ((n.ends .client).boxes ++ (n.ends .server).boxes)

/-- The ideal cipher: a frame that is delivered opens only to a text that was encrypted under the
key, with the nonce of the frame. -/
def Unforged (nacl : Nacl) (key : Block 32) (n : CurveLink) : CurveLinkAct → Prop
  | .encode _ _ => True
  | .deliver p frame => ∀ hsize : 33 ≤ frame.data.length,
      ∀ text ∈ CurveBase.openMessage nacl key (n.ends p).base frame hsize,
        ⟨(n.ends p).base.frameNonce frame hsize, text.toList⟩ ∈ n.boxes

/-- Two ends that have the key in common, a client and a server. -/
structure Joined (key : Block 32) (start : CurvePeer → CurveBase) : Prop where
  encodes : ∀ p, (start p).encodeNoncePrefix = p.messagePrefix
  decodes : ∀ p, (start p).decodeNoncePrefix = p.other.messagePrefix
  keyed : ∀ p, (start p).cnPrecom = some key

/-- A text with its nonce was encrypted by `next_handshake_command` of one of the ends. -/
def FromHandshake (b : Sealed) : Prop :=
  (∃ c random, b.nonce ∈ CurveClient.nonces c random) ∨
    ∃ s random, b.nonce ∈ CurveServer.nonces s random

/-- Blocks that begin differently are different. -/
theorem ne_of_take {a : Block 8} {b : Block 16} {a' : Block 16} {b' : Block 8}
    (h : a.toList ≠ a'.toList.take 8) : (a ++ b) ≠ a' ++ b' := by
  intro heq
  have hlists := congrArg (fun v : Block 24 => v.toList.take 8) heq
  rw [List.Vector.toList_append, List.Vector.toList_append,
    take_left' a.toList_length, take_append_of_le_length (by simp)] at hlists
  exact h hlists

/-- No nonce of the handshake is one of a message. -/
theorem FromHandshake.nonce_ne (h : FromHandshake b) (q : CurvePeer)
    (short : Block 8) : b.nonce ≠ q.messagePrefix ++ short := by
  rcases h with ⟨c, random, h⟩ | ⟨s, random, h⟩
  · unfold CurveClient.nonces at h
    split at h
    · rw [mem_singleton.mp h]
      exact fun heq => absurd (Core.append_inj heq).1 (by cases q <;> decide)
    · rcases mem_pair.mp h with h | h
      · rw [h]
        exact ne_of_take (by cases q <;> decide)
      · rw [h]
        exact fun heq => absurd (Core.append_inj heq).1 (by cases q <;> decide)
    · cases h
  unfold CurveServer.nonces at h
  split at h
  · rcases mem_pair.mp h with h | h
    · rw [h]
      exact ne_of_take (by cases q <;> decide)
    · rw [h]
      exact ne_of_take (by cases q <;> decide)
  · rw [mem_singleton.mp h]
    exact fun heq => absurd (Core.append_inj heq).1 (by cases q <;> decide)
  · cases h

/-- The counter of an end has not come round to what the other one saw last in the handshake. -/
def Unwrapped (start : CurvePeer → CurveBase) (n : CurveLink) (p : CurvePeer) : Prop :=
  (start p).cnNonce.toNat + (n.ends p).sent.length ≤ 2 ^ 64 + (start p.other).cnPeerNonce.toNat + 1

/-- **Integrity and freshness.**  What an end receives is what the other one has sent, in the same
order; frames that are short, replayed or late are refused; the connection goes on with whatever
comes; no nonce is used twice. -/
structure Intact (nacl : Nacl) (start : CurvePeer → CurveBase) (n : CurveLink) : Prop where
  received : ∀ p, Unwrapped start n p →
    ((n.ends p.other).received.map content).Sublist ((n.ends p).sent.map content)
  short : ∀ p m, m.data.length < 33 → (n.ends p).base.Refuses nacl m
  replayed : ∀ p, ∀ m ∈ (n.ends p).delivered, (n.ends p).base.Refuses nacl m
  late : ∀ p, Unwrapped start n p → ∀ (i j : Nat) (f g : Msg), i ≤ j →
    (n.ends p).frames[i]? = some f → (n.ends p).frames[j]? = some g →
    g ∈ (n.ends p.other).accepted → (n.ends p.other).base.Refuses nacl f
  total : ∀ a, ∃ n', n.Step nacl a n'
  fresh : (∀ p, (n.ends p).sent.length < 2 ^ 64) →
    (((n.ends .client).boxes ++ (n.ends .server).boxes).map Sealed.nonce).Nodup ∧
    ∀ b ∈ (n.ends .client).boxes ++ (n.ends .server).boxes, ∀ h ∈ n.handshake, b.nonce ≠ h.nonce

/-! ## The invariant -/

/-- What an end encrypts for the message with index `i`. -/
def sealedAt (start : CurvePeer → CurveBase) (p : CurvePeer) (i : Nat) (m : Msg) : Sealed :=
  ⟨p.messagePrefix ++ shortNonce (counterAt (start p).cnNonce i), (CurveBase.plaintext m).toList⟩

/-- The frame that an end makes of the message with index `i`. -/
def frameAt (nacl : Nacl) (key : Block 32) (start : CurvePeer → CurveBase) (p : CurvePeer) (i : Nat)
    (m : Msg) : Msg :=
  CurveBase.frame nacl key p.messagePrefix (counterAt (start p).cnNonce i) m

/-- An end numbers what it sends. -/
structure Numbers (nacl : Nacl) (key : Block 32) (start : CurvePeer → CurveBase) (p : CurvePeer)
    (e : CurveEnd) : Prop where
  keyed : e.base.cnPrecom = some key
  encodes : e.base.encodeNoncePrefix = p.messagePrefix
  decodes : e.base.decodeNoncePrefix = p.other.messagePrefix
  counter : e.base.cnNonce = counterAt (start p).cnNonce e.sent.length
  boxes : e.boxes = e.sent.mapIdx (sealedAt start p)
  frames : e.frames = e.sent.mapIdx (frameAt nacl key start p)

/-- An end goes forward in what it accepts, from the number `low` on. -/
structure Advances (low : UInt64) (e : CurveEnd) : Prop where
  seen : low ≤ e.base.cnPeerNonce
  stale : ∀ m ∈ e.delivered, e.base.Stale m
  accepted : ∀ m ∈ e.accepted, ∃ hsize, low < CurveBase.frameCounter m hsize ∧
    CurveBase.frameCounter m hsize ≤ e.base.cnPeerNonce

/-- The messages up to the number that the receiver has seen last. -/
def passed (start : CurvePeer → CurveBase) (n : CurveLink) (p : CurvePeer) : List Msg :=
  (n.ends p).sent.take ((n.ends p.other).base.cnPeerNonce.toNat + 1 - (start p).cnNonce.toNat)

structure Sound (nacl : Nacl) (key : Block 32) (start : CurvePeer → CurveBase)
    (handshake : List Sealed) (n : CurveLink) : Prop where
  handshake : n.handshake = handshake
  numbers : ∀ p, Numbers nacl key start p (n.ends p)
  advances : ∀ p, Advances (start p).cnPeerNonce (n.ends p)
  received : ∀ p, Unwrapped start n p →
    ((n.ends p.other).received.map content).Sublist ((passed start n p).map content)

theorem Numbers.initial (hjoined : Joined key start) (p : CurvePeer) :
    Numbers nacl key start p (.new (start p)) where
  keyed := hjoined.keyed p
  encodes := hjoined.encodes p
  decodes := hjoined.decodes p
  counter := (Core.counterAt_zero _).symm
  boxes := rfl
  frames := rfl

theorem Advances.initial (base : CurveBase) : Advances base.cnPeerNonce (.new base) where
  seen := UInt64.le_rfl
  stale := fun _ hm => absurd hm not_mem_nil
  accepted := fun _ hm => absurd hm not_mem_nil

theorem Sound.initial (hjoined : Joined key start) (handshake : List Sealed) :
    Sound nacl key start handshake (initial start handshake) where
  handshake := rfl
  numbers := .initial hjoined
  advances := fun p => .initial (start p)
  received := fun _ _ => nil_sublist _

/-! ## Encoding -/

theorem Numbers.encoded (h : Numbers nacl key start p e) (m : Msg) :
    Numbers nacl key start p (e.encoded nacl key m) := by
  refine ⟨h.keyed, h.encodes, h.decodes, ?_, ?_, ?_⟩
  · show e.base.cnNonce + 1 = counterAt (start p).cnNonce (e.sent ++ [m]).length
    rw [h.counter, Core.counterAt_succ, length_append]
    rfl
  · show e.boxes ++ [_] = (e.sent ++ [m]).mapIdx _
    rw [mapIdx_concat, h.boxes, h.encodes, h.counter]
    rfl
  · show e.frames ++ [_] = (e.sent ++ [m]).mapIdx _
    rw [mapIdx_concat, h.frames, h.encodes, h.counter]
    rfl

/-- Nothing changes for what an end receives when it sends something. -/
theorem Advances.encoded (h : Advances low e) (m : Msg) : Advances low (e.encoded nacl key m) :=
  { h with }

theorem Sound.encode (h : Sound nacl key start handshake n) (p : CurvePeer) (m : Msg) :
    Sound nacl key start handshake (n.set p ((n.ends p).encoded nacl key m)) where
  handshake := h.handshake
  numbers := forall_set ((h.numbers p).encoded m) h.numbers
  advances := forall_set ((h.advances p).encoded m) h.advances
  received := fun q hq => by
    by_cases hqp : q = p
    · -- The sender has one more message, behind those that the receiver has passed.
      subst hqp
      unfold Unwrapped at hq
      unfold passed
      rw [set_ends_same] at hq ⊢
      rw [set_ends_ne n _ q.other_ne]
      have hbefore : Unwrapped start n q := by
        refine Nat.le_trans ?_ hq
        exact Nat.add_le_add_left ((sublist_append_left _ _).length_le) _
      refine (h.received q hbefore).trans (Sublist.map _ ?_)
      exact ((prefix_append _ _).take _).sublist
    · -- The receiver is the one that sends, and what it has received is as before.
      obtain rfl := CurvePeer.eq_other_of_ne hqp
      unfold Unwrapped at hq
      unfold passed
      rw [set_ends_ne n _ hqp] at hq ⊢
      rw [set_ends_same]
      exact h.received q hq

/-! ## Delivering -/

section
variable (h : Sound nacl key start handshake n) (hhandshake : ∀ b ∈ handshake, FromHandshake b)
include h hhandshake

/-- A box under the key that has the nonce of a message was made for a message. -/
theorem Sound.origin
    (hmem : ⟨p.messagePrefix ++ short, text⟩ ∈ n.boxes) : ∃ i m, (n.ends p).sent[i]? = some m ∧
      short = shortNonce (counterAt (start p).cnNonce i) ∧
      text = (plaintext m).toList := by
  have hends : ∀ q, ⟨p.messagePrefix ++ short, text⟩ ∈ (n.ends q).boxes →
      ∃ i m, (n.ends p).sent[i]? = some m ∧ short = shortNonce (counterAt (start p).cnNonce i) ∧
        text = (plaintext m).toList := by
    intro q hbox
    rw [(h.numbers q).boxes] at hbox
    obtain ⟨i, hi⟩ := mem_iff_getElem?.mp hbox
    rw [getElem?_mapIdx] at hi
    obtain ⟨m, hm, heq⟩ := map_eq_some_iff.mp hi
    obtain ⟨hnonce, htext⟩ := Sealed.mk.inj heq
    -- The prefix tells whose message it is.
    obtain ⟨hhead, hshort⟩ := Core.append_inj hnonce
    obtain rfl := CurvePeer.messagePrefix_inj hhead
    exact ⟨i, m, hm, hshort.symm, htext.symm⟩
  rcases mem_append.mp hmem with hbox | hbox
  · rw [h.handshake] at hbox
    exact absurd rfl ((hhandshake _ hbox).nonce_ne p short)
  · rcases mem_append.mp hbox with hbox | hbox
    · exact hends _ hbox
    · exact hends _ hbox

/-- The number in a frame that opens is the one of the message in it. -/
theorem Sound.opened (hideal : Unforged nacl key n (.deliver p.other frame))
    (hopen : openMessage nacl key (n.ends p.other).base frame hsize = some text) :
    ∃ i m, (n.ends p).sent[i]? = some m ∧
      frameCounter frame hsize = counterAt (start p).cnNonce i ∧
      content (ofPlaintext text) = content m := by
  have hbox := hideal hsize text hopen
  unfold CurveBase.frameNonce at hbox
  rw [(h.numbers p.other).decodes, CurvePeer.other_other] at hbox
  obtain ⟨i, m, hm, hshort, htext⟩ := h.origin hhandshake hbox
  refine ⟨i, m, hm, ?_, CurveBase.content_ofPlaintext htext⟩
  unfold frameCounter
  rw [hshort, getUint64_shortNonce]

end

theorem Numbers.delivered (h : Numbers nacl key start p e)
    (hspec : Delivered nacl key e frame e') : Numbers nacl key start p e' := by
  cases hspec <;> exact { h with }

theorem Advances.delivered (h : Advances low e)
    (hspec : Delivered nacl key e frame e') : Advances low e' := by
  -- What was stale stays stale, and the frame itself is stale from now on.
  have hstale : ∀ counter, e.base.cnPeerNonce ≤ counter → (e.given counter frame).base.Stale frame →
      ∀ m ∈ e.delivered ++ [frame], (e.given counter frame).base.Stale m := by
    intro _ hle hframe m hm
    rcases mem_append.mp hm with hm | hm
    · exact (h.stale m hm).mono hle
    · rwa [mem_singleton.mp hm]
  cases hspec with
  | refused hle hframe =>
    refine ⟨UInt64.le_trans h.seen hle, hstale _ hle hframe, fun m hm => ?_⟩
    obtain ⟨hsize, hlow, hseen⟩ := h.accepted m hm
    exact ⟨hsize, hlow, UInt64.le_trans hseen hle⟩
  | @accepted hsize text hnew =>
    have hle := UInt64.le_of_lt hnew
    refine ⟨UInt64.le_trans h.seen hle,
      hstale _ hle (.inr (.inr fun _ => UInt64.le_rfl)), fun m hm => ?_⟩
    rcases mem_append.mp hm with hm | hm
    · obtain ⟨hsize, hlow, hseen⟩ := h.accepted m hm
      exact ⟨hsize, hlow, UInt64.le_trans hseen hle⟩
    · rw [mem_singleton.mp hm]
      exact ⟨hsize, UInt64.lt_of_le_of_lt h.seen hnew, UInt64.le_rfl⟩

section
variable (h : Sound nacl key start handshake n) (hhandshake : ∀ b ∈ handshake, FromHandshake b)
  {frame : Msg}
include h hhandshake

theorem Sound.received_delivered (hideal : Unforged nacl key n (.deliver p.other frame))
    (hspec : Delivered nacl key (n.ends p.other) frame e) (hp : Unwrapped start n p) :
    (e.received.map content).Sublist
      (((n.ends p).sent.take (e.base.cnPeerNonce.toNat + 1 - (start p).cnNonce.toNat)).map
        content) := by
  have hbefore := h.received p hp
  unfold passed at hbefore
  cases hspec with
  | @refused counter hle =>
    refine hbefore.trans (Sublist.map _ (take_sublist_take_left ?_))
    have := UInt64.le_iff_toNat_le.mp hle
    show _ ≤ counter.toNat + 1 - _
    omega
  | @accepted hsize text hnew hopen =>
    obtain ⟨i, m, hm, hcounter, hcontent⟩ := h.opened hhandshake hideal hopen
    have hlow := UInt64.lt_of_le_of_lt (h.advances p.other).seen hnew
    have hnewNat := UInt64.lt_iff_toNat_lt.mp hnew
    -- The number of the frame has not wrapped, so it says which message it is.
    have hindex : (frameCounter frame hsize).toNat = (start p).cnNonce.toNat + i := by
      rw [hcounter] at hlow ⊢
      exact Core.toNat_counterAt_of_lt hp (List.getElem?_eq_some_iff.mp hm).1 hlow
    have hlast : (frameCounter frame hsize).toNat + 1 - (start p).cnNonce.toNat = i + 1 := by omega
    show ((_ ++ [_]).map content).Sublist (((n.ends p).sent.take
      ((frameCounter frame hsize).toNat + 1 - _)).map content)
    rw [hlast, map_append, map_singleton, hcontent, map_take]
    rw [map_take] at hbefore
    refine Core.sublist_take_concat hbefore (by omega) ?_
    rw [getElem?_map, hm]
    rfl

theorem Sound.deliver (hideal : Unforged nacl key n (.deliver p frame))
    (hspec : Delivered nacl key (n.ends p) frame e) :
    Sound nacl key start handshake (n.set p e) where
  handshake := h.handshake
  numbers := forall_set ((h.numbers p).delivered hspec) h.numbers
  advances := forall_set ((h.advances p).delivered hspec) h.advances
  received := fun q hq => by
    have hsent : e.sent = (n.ends p).sent := by cases hspec <;> rfl
    by_cases hqp : q = p
    · subst hqp
      unfold Unwrapped at hq
      unfold passed
      rw [set_ends_same, hsent] at hq ⊢
      rw [set_ends_ne n _ q.other_ne]
      exact h.received q hq
    obtain rfl := CurvePeer.eq_other_of_ne hqp
    unfold Unwrapped at hq
    unfold passed
    rw [set_ends_ne n _ hqp] at hq ⊢
    rw [set_ends_same]
    exact h.received_delivered hhandshake hideal hspec hq

end

/-! ## Whole runs -/

theorem Sound.step (hhandshake : ∀ b ∈ handshake, FromHandshake b) (n : CurveLink)
    (a : CurveLinkAct) (n' : CurveLink) (h : Sound nacl key start handshake n)
    (hstep : Guarded (Step nacl) (Unforged nacl key) n a n') :
    Sound nacl key start handshake n' := by
  obtain ⟨hstep, hideal⟩ := hstep
  cases a with
  | encode p m =>
    obtain ⟨e, hencode, rfl⟩ := map_ok hstep
    cases (encode_eq (h.numbers p).keyed m).symm.trans hencode
    exact h.encode p m
  | deliver p frame =>
    obtain ⟨e, hdeliver, rfl⟩ := map_ok hstep
    obtain ⟨e', hdeliver', hspec⟩ := deliver_spec nacl (h.numbers p).keyed frame
    cases hdeliver'.symm.trans hdeliver
    exact h.deliver hhandshake hideal hspec

theorem Numbers.frame (h : Numbers nacl key start p e) (hf : e.frames[i]? = some f) :
    i < e.sent.length ∧
      ∀ hsize, frameCounter f hsize = counterAt (start p).cnNonce i := by
  rw [h.frames, getElem?_mapIdx] at hf
  obtain ⟨m, hm, rfl⟩ := map_eq_some_iff.mp hf
  exact ⟨(List.getElem?_eq_some_iff.mp hm).1, CurveBase.frameCounter_frame _ _ _ _ _⟩

/-- A frame that was sent before one that was accepted comes too late. -/
theorem Sound.late (h : Sound nacl key start handshake n) (hp : Unwrapped start n p) (hle : i ≤ j)
    (hf : (n.ends p).frames[i]? = some f) (hg : (n.ends p).frames[j]? = some g)
    (haccepted : g ∈ (n.ends p.other).accepted) : (n.ends p.other).base.Stale f := by
  obtain ⟨-, hcounter⟩ := (h.numbers p).frame hf
  obtain ⟨hj, hcounter'⟩ := (h.numbers p).frame hg
  obtain ⟨hsize', hlow, hseen⟩ := (h.advances p.other).accepted g haccepted
  rw [hcounter'] at hlow hseen
  have hindex := Core.toNat_counterAt_of_lt hp hj hlow
  refine .inr (.inr fun _ => ?_)
  have hseenNat := UInt64.le_iff_toNat_le.mp hseen
  rw [hcounter, UInt64.le_iff_toNat_le, Core.toNat_counterAt]
  -- The number of `f` is at most that of `g`, which has not wrapped.
  omega

theorem Numbers.nodup (h : Numbers nacl key start p e)
    (hcount : e.sent.length < 2 ^ 64) : (e.boxes.map Sealed.nonce).Nodup := by
  rw [h.boxes, nodup_iff_getElem?_ne_getElem?]
  intro i j hij hj heq
  rw [length_map, length_mapIdx] at hj
  rw [getElem?_map, getElem?_map, getElem?_mapIdx, getElem?_mapIdx,
    getElem?_eq_getElem hj, getElem?_eq_getElem (Nat.lt_trans hij hj)] at heq
  have hshort := (Core.append_inj (some.inj heq)).2
  have hcounter := congrArg (fun b : Block 8 => getUint64 b.toList) hshort
  simp only [getUint64_shortNonce] at hcounter
  have := Core.counterAt_inj (by omega) (by omega) hcounter
  omega

/-- The nonces of an end begin with its prefix. -/
theorem Numbers.nonce (h : Numbers nacl key start p e)
    (hb : b ∈ e.boxes) : ∃ short : Block 8, b.nonce = p.messagePrefix ++ short := by
  rw [h.boxes] at hb
  obtain ⟨i, hi⟩ := mem_iff_getElem?.mp hb
  rw [getElem?_mapIdx] at hi
  obtain ⟨m, -, rfl⟩ := map_eq_some_iff.mp hi
  exact ⟨_, rfl⟩

section
variable (h : Sound nacl key start handshake n)
include h

theorem Sound.fresh (hcount : ∀ p, (n.ends p).sent.length < 2 ^ 64) :
    (((n.ends .client).boxes ++ (n.ends .server).boxes).map Sealed.nonce).Nodup := by
  rw [map_append, nodup_append]
  refine ⟨(h.numbers _).nodup (hcount _), (h.numbers _).nodup (hcount _), ?_⟩
  intro _ hclient _ hserver heq
  obtain ⟨b, hb, rfl⟩ := mem_map.mp hclient
  obtain ⟨b', hb', rfl⟩ := mem_map.mp hserver
  obtain ⟨short, hnonce⟩ := (h.numbers _).nonce hb
  obtain ⟨short', hnonce'⟩ := (h.numbers _).nonce hb'
  rw [hnonce, hnonce'] at heq
  cases CurvePeer.messagePrefix_inj (Core.append_inj heq).1

/-- Neither `encode` nor `decode` misses the key. -/
theorem Sound.total (a : CurveLinkAct) : ∃ n', n.Step nacl a n' := by
  unfold Step next
  cases a with
  | encode p =>
    dsimp only
    rw [encode_eq (h.numbers p).keyed]
    exact ⟨_, rfl⟩
  | deliver p frame =>
    obtain ⟨e, hdeliver, -⟩ := deliver_spec nacl (h.numbers p).keyed frame
    dsimp only
    rw [hdeliver]
    exact ⟨_, rfl⟩

theorem Sound.intact (hhandshake : ∀ b ∈ handshake, FromHandshake b) : Intact nacl start n where
  received := fun p hp =>
    (h.received p hp).trans (Sublist.map _ (take_sublist _ _))
  short := fun p m hshort =>
    CurveBase.Stale.refuses (.inr (.inr fun hsize => absurd hshort (Nat.not_lt.mpr hsize)))
  replayed := fun p m hm => ((h.advances p).stale m hm).refuses
  late := fun p hp i j f g hle hf hg haccepted => (h.late hp hle hf hg haccepted).refuses
  total := h.total
  fresh := fun hcount => by
    refine ⟨h.fresh hcount, fun b hb b' hb' => ?_⟩
    rw [h.handshake] at hb'
    have hnonce : ∃ (p : CurvePeer) (short : Block 8), b.nonce = p.messagePrefix ++ short := by
      rcases mem_append.mp hb with hb | hb
      · exact ⟨_, (h.numbers _).nonce hb⟩
      · exact ⟨_, (h.numbers _).nonce hb⟩
    obtain ⟨p, short, hnonce⟩ := hnonce
    rw [hnonce]
    exact ((hhandshake b' hb').nonce_ne p short).symm

end

/-- **Integrity and freshness of the connection.**  Two ends have a key in common, with any counters
that the handshake has left; an attacker delivers any frames in any order. -/
theorem channel_intact {tr : List CurveLinkAct} (hjoined : Joined key start)
    (hhandshake : ∀ b ∈ handshake, FromHandshake b)
    (hrun : Exec (Guarded (Step nacl) (Unforged nacl key)) (initial start handshake) tr n) :
    Intact nacl start n := by
  have hsound : Sound nacl key start handshake n :=
    hrun.invariant _ (Sound.step hhandshake) (.initial hjoined handshake)
  exact hsound.intact hhandshake

-- Blocks are finitely many, but a box has at most one text.
instance {k : Nat} (o : Option (Block k)) (P : Block k → Prop) [DecidablePred P] :
    Decidable (∀ text ∈ o, P text) :=
  Option.decidableForallMem o

instance (nacl : Nacl) (key : Block 32) (n : CurveLink) (a : CurveLinkAct) :
    Decidable (Unforged nacl key n a) := by
  rcases a <;> dsimp only [Unforged] <;> infer_instance

theorem step_of_attempt (nacl : Nacl) (key : Block 32) (n : CurveLink) (a b : CurveLinkAct)
    (n' : CurveLink) (h : Core.attempt (next nacl) (Unforged nacl key) n a = some (b, n')) :
    Guarded (Step nacl) (Unforged nacl key) n b n' := by
  obtain ⟨hguard, hnext⟩ := Core.attempt_eq_some h
  exact ⟨hnext, hguard⟩

open CurveClientNet (same sampleOptions)

def sampleKey : Block 32 := same 32 7

/-- The two ends as a handshake leaves them. -/
def sampleStart : CurvePeer → CurveBase
  | .client => { encodeNoncePrefix := CurveBase.messageC, decodeNoncePrefix := CurveBase.messageS,
                 cnNonce := 3, cnPeerNonce := 1, cnPrecom := some sampleKey }
  | .server => { encodeNoncePrefix := CurveBase.messageS, decodeNoncePrefix := CurveBase.messageC,
                 cnNonce := 2, cnPeerNonce := 2, cnPrecom := some sampleKey }

theorem joined_sampleStart : Joined sampleKey sampleStart where
  encodes p := by cases p <;> rfl
  decodes p := by cases p <;> rfl
  keyed p := by cases p <;> rfl

/-- The box of the READY of the server. -/
def sampleReady : Sealed := ⟨readyPrefix ++ shortNonce 1, []⟩

theorem fromHandshake_sampleReady (b : Sealed) (h : b ∈ [sampleReady]) : FromHandshake b := by
  obtain rfl := mem_singleton.mp h
  exact .inr ⟨(CurveServer.new (sampleOptions .pair) [] (same 32 1) (same 32 2)
    (same 32 3)).setState .sendingReady, ⟨same 16 0, same 32 0, same 16 0⟩, .head _⟩

def sampleMessage (flags byte : UInt8) : Msg := ⟨.vsm, flags, [byte]⟩

def sampleFrame (p : CurvePeer) (counter : UInt64) (m : Msg) : Msg :=
  CurveBase.frame .mark sampleKey p.messagePrefix counter m

/-- The second of two frames of the client gets through; then the first one is late, and the second
one is replayed. A frame of the server does not pass for one of the client. -/
theorem channel_intact_late : ∃ tr n,
    Exec (Guarded (Step .mark) (Unforged .mark sampleKey)) (initial sampleStart [sampleReady]) tr
      n ∧
    ((n.ends .server).received = [CurveBase.ofData MsgFlag.command [2]] ∧
      (n.ends .server).delivered.length = 4 ∧
      (n.ends .client).received = [CurveBase.ofData MsgFlag.more [3]]) ∧
    Intact .mark sampleStart n := by
  obtain ⟨tr, n, hrun, hfacts⟩ := Core.exists_exec_of_replay
    (step_of_attempt .mark sampleKey)
    (Q := fun n => (n.ends .server).received = [ofData command [2]] ∧
      (n.ends .server).delivered.length = 4 ∧
      (n.ends .client).received = [ofData more [3]])
    (s := initial sampleStart [sampleReady])
    [.encode .client (sampleMessage 0 1), .encode .client (sampleMessage command 2),
      .encode .server (sampleMessage more 3),
      .deliver .server (sampleFrame .client 4 (sampleMessage command 2)),
      .deliver .server (sampleFrame .client 3 (sampleMessage 0 1)),
      .deliver .server (sampleFrame .client 4 (sampleMessage command 2)),
      .deliver .server (sampleFrame .server 5 (sampleMessage more 3)),
      .deliver .client (sampleFrame .server 2 (sampleMessage more 3))]
    (by decide +kernel)
  exact ⟨tr, n, hrun, hfacts, channel_intact joined_sampleStart fromHandshake_sampleReady hrun⟩

/-! ## After the counter has wrapped around -/

/-- The client after it has encoded some messages. -/
def wound (ms : List Msg) : CurveEnd :=
  { CurveEnd.new (sampleStart .client) with
    base := { sampleStart .client with cnNonce := counterAt 3 ms.length }
    sent := ms
    boxes := ms.mapIdx (sealedAt sampleStart .client)
    frames := ms.mapIdx (frameAt .mark sampleKey sampleStart .client) }

theorem encoded_wound (ms : List Msg) (m : Msg) :
    (wound ms).encoded .mark sampleKey m = wound (ms ++ [m]) := by
  unfold wound CurveEnd.encoded
  rw [Core.counterAt_succ, mapIdx_concat, mapIdx_concat, length_append]
  rfl

/-- The client encodes any messages. -/
theorem exec_encode (ms : List Msg) :
    Exec (Guarded (Step .mark) (Unforged .mark sampleKey)) (initial sampleStart [])
      (ms.map (.encode .client)) ((initial sampleStart []).set .client (wound ms)) := by
  induction ms using reverseRecOn with
  | nil =>
    rw [set_same _ _ (wound []) rfl]
    exact .nil _
  | append_singleton _ m ih =>
    rw [map_append]
    refine .snoc ih ⟨?_, trivial⟩
    unfold Step next
    dsimp only
    rw [set_ends_same, encode_eq rfl, encoded_wound]
    exact congrArg Except.ok (set_set _ _ _ _)

/-- The second message of the client, and the one that has the number of the first one again. -/
def early : Msg := sampleMessage 0 1

def wrapped : Msg := sampleMessage 0 3

/-- Many messages of the client. -/
def manyMessages (count : Nat) : List Msg :=
  [sampleMessage 0 0, early] ++ List.replicate count (sampleMessage 0 2) ++ [wrapped]

theorem early_mem (count : Nat) : (manyMessages count)[1]? = some early := rfl

theorem wrapped_mem (count : Nat) : (manyMessages count)[count + 2]? = some wrapped := by
  have hlength : ([sampleMessage 0 0, early] ++
      replicate count (sampleMessage 0 2)).length = count + 2 := by
    rw [length_append, length_replicate]
    exact Nat.add_comm 2 count
  unfold manyMessages
  rw [getElem?_append_right (Nat.le_of_eq hlength), hlength, Nat.sub_self]
  rfl

/-- The last message is not one of the others. -/
theorem not_sublist (count : Nat) :
    ¬ ([content wrapped, content early].Sublist ((manyMessages count).map content)) := by
  intro h
  unfold manyMessages at h
  rw [map_append, sublist_append_iff] at h
  obtain ⟨l, l', heq, hl, hl'⟩ := h
  have hwrapped : content wrapped ∉
      ([sampleMessage 0 0, early] ++ replicate count (sampleMessage 0 2)).map content := by
    intro hmem
    obtain ⟨m, hm, hcontent⟩ := mem_map.mp hmem
    rcases mem_append.mp hm with hm | hm
    · rcases mem_pair.mp hm with rfl | rfl <;> exact absurd hcontent (by decide)
    · rw [(mem_replicate.mp hm).2] at hcontent
      exact absurd hcontent (by decide)
  cases l with
  | nil =>
    obtain rfl : _ = l' := heq
    exact absurd hl'.length_le (by decide)
  | cons =>
    obtain rfl := (cons_eq_cons.mp heq).1
    exact hwrapped (hl.subset (.head _))

/-- The client has sent some messages; nothing or something was delivered to the server. -/
def sentTo (ms : List Msg) (e : CurveEnd) : CurveLink :=
  ((initial sampleStart []).set .client (wound ms)).set .server e

theorem sentTo_server (ms : List Msg) (e : CurveEnd) : (sentTo ms e).ends .server = e :=
  set_ends_same _ _ _

theorem step_sentTo (hm : ms[i]? = some m) (hcounter : counterAt 3 i = counter)
    (hopen : ∀ hsize, ∀ text ∈ openMessage .mark sampleKey e.base
        (sampleFrame .client counter m) hsize,
      (⟨e.base.frameNonce (sampleFrame .client counter m) hsize, text.toList⟩ : Sealed) =
        ⟨messageC ++ shortNonce counter, (plaintext m).toList⟩)
    (hdeliver : e.deliver .mark (sampleFrame .client counter m) = .ok f) :
    Guarded (Step .mark) (Unforged .mark sampleKey) (sentTo ms e)
      (.deliver .server (sampleFrame .client counter m)) (sentTo ms f) := by
  constructor
  · unfold Step next
    dsimp only
    rw [sentTo_server, hdeliver]
    exact congrArg Except.ok (set_set _ _ _ _)
  · unfold Unforged
    dsimp only
    rw [sentTo_server]
    intro hsize text htext
    rw [hopen hsize text htext]
    refine mem_append.mpr (.inr (mem_append.mpr (.inl ?_)))
    refine mem_iff_getElem?.mpr ⟨i, ?_⟩
    show (ms.mapIdx _)[i]? = _
    rw [getElem?_mapIdx, hm, ← hcounter]
    rfl

/-- The server after the frame of the last message. -/
def served : CurveEnd :=
  { CurveEnd.new (sampleStart .server) with
    base := { sampleStart .server with cnPeerNonce := 3 }
    delivered := [sampleFrame .client 3 wrapped]
    accepted := [sampleFrame .client 3 wrapped]
    received := [CurveBase.ofData 0 [3]] }

/-- The server after the frame of the second message. -/
def servedTwice : CurveEnd :=
  { CurveEnd.new (sampleStart .server) with
    base := { sampleStart .server with cnPeerNonce := 4 }
    delivered := [sampleFrame .client 3 wrapped, sampleFrame .client 4 early]
    accepted := [sampleFrame .client 3 wrapped, sampleFrame .client 4 early]
    received := [CurveBase.ofData 0 [3], CurveBase.ofData 0 [1]] }

theorem exec_wrapped (count : Nat) (hcount : count + 2 = 2 ^ 64) :
    ∃ tr, Exec (Guarded (Step .mark) (Unforged .mark sampleKey)) (initial sampleStart []) tr
      (sentTo (manyMessages count) servedTwice) := by
  have hsent := exec_encode (manyMessages count)
  have hfresh : (initial sampleStart []).set .client (wound (manyMessages count)) =
      sentTo (manyMessages count) (.new (sampleStart .server)) :=
    (set_same _ _ _ (set_ends_ne _ _ (by decide))).symm
  rw [hfresh] at hsent
  -- The last message has the number of the first one again.
  have hwrapped : counterAt 3 (count + 2) = 3 := by
    rw [hcount]
    decide
  have hearly : counterAt 3 1 = 4 := by decide
  exact ⟨_, (hsent.snoc (step_sentTo (f := served) (wrapped_mem count) hwrapped (by decide +kernel)
    rfl)).snoc (step_sentTo (early_mem count) hearly (by decide +kernel) rfl)⟩

/-- **A counter that wraps around.**  After `2 ^ 64 + 1` messages of the client, the last one gets
through first, with the number of the first one, and the second one after it. -/
theorem wrapped_counter_reorders : ∃ tr n,
    Exec (Guarded (Step .mark) (Unforged .mark sampleKey)) (initial sampleStart []) tr n ∧
    Joined sampleKey sampleStart ∧
    ¬ ((n.ends .server).received.map content).Sublist ((n.ends .client).sent.map content) := by
  obtain ⟨tr, hrun⟩ := exec_wrapped (2 ^ 64 - 2) rfl
  refine ⟨tr, _, hrun, joined_sampleStart, ?_⟩
  exact not_sublist _

end CurveLink
end LibZmq
