import LibZmq.Core.Blocks
import LibZmq.Msg
import LibZmq.Security.Metadata

/-!
# The CURVE mechanism

What the client and the server of CURVE have in common: the cryptography, which is not part of the
library, and the encryption of messages once both share a key (`curve_mechanism_base.cpp`).

* `Nacl` is what the library asks of the cryptography: the functions, without any assumption about
  them.
* `CurveBase.encode` and `CurveBase.decode` are the two ends of the encrypted connection.
-/

namespace LibZmq

open LibZmq.Core (cut slice)
open Wire (ascii putUint64 getUint64)

/-! ## Cryptography -/

/-- Bytes of a fixed number. -/
abbrev Block := List.Vector UInt8

/-- Any bytes are a block. -/
def Block.ofList (bytes : Bytes) : Block bytes.length := ⟨bytes, rfl⟩

@[simp] theorem Block.toList_ofList (bytes : Bytes) : (ofList bytes).toList = bytes := rfl

/-- An authenticated cipher with keys of 32 bytes and nonces of 24 bytes, which makes a text longer
by 16 bytes. -/
structure Cipher where
  encrypt : {n : Nat} → Block 32 → Block 24 → Block n → Block (n + 16)
  /-- `none` if the text was not encrypted with this key and this nonce. -/
  decrypt : {n : Nat} → Block 32 → Block 24 → Block (n + 16) → Option (Block n)

/-- The functions of the cryptographic library. -/
structure Nacl where
  /-- `crypto_box_beforenm`: the common key of a public and a secret key. -/
  beforenm : Block 32 → Block 32 → Option (Block 32)
  /-- `crypto_box_afternm` and `crypto_box_open_afternm`. -/
  afternm : Cipher
  /-- `crypto_secretbox` and `crypto_secretbox_open`. -/
  secretbox : Cipher

namespace Nacl

variable (nacl : Nacl) {n : Nat}

/-- `crypto_box`. -/
def box (publicKey secretKey : Block 32) (nonce : Block 24) (plaintext : Block n) :
    Option (Block (n + 16)) :=
  (nacl.beforenm publicKey secretKey).map fun key => nacl.afternm.encrypt key nonce plaintext

/-- `crypto_box_open`. -/
def boxOpen (publicKey secretKey : Block 32) (nonce : Block 24) (box : Block (n + 16)) :
    Option (Block n) :=
  (nacl.beforenm publicKey secretKey).bind fun key => nacl.afternm.decrypt key nonce box

end Nacl

/-- A cipher that hides nothing and marks a text with its key and its nonce, to try the functions
with. -/
def Cipher.mark : Cipher where
  encrypt key nonce text :=
    text ++ List.Vector.map₂ (· ^^^ ·) (slice key 0 16 (by decide)) (slice nonce 8 16 (by decide))
  decrypt {n} key nonce box :=
    if slice box n 16 le_rfl =
        List.Vector.map₂ (· ^^^ ·) (slice key 0 16 (by decide)) (slice nonce 8 16 (by decide)) then
      some (slice box 0 n (by omega))
    else none

/-- A public key is the same as its secret key. -/
def Nacl.mark : Nacl where
  beforenm publicKey secretKey := some (List.Vector.map₂ (· ^^^ ·) publicKey secretKey)
  afternm := .mark
  secretbox := .mark

/-- The last eight bytes of a nonce that counts. -/
def shortNonce (n : UInt64) : Block 8 := ⟨putUint64 n, Wire.length_putUint64 n⟩

theorem getUint64_shortNonce (n : UInt64) : getUint64 (shortNonce n).toList = n :=
  Wire.getUint64_putUint64 n

/-! ## Commands -/

/-- A command begins with its name. -/
def isCommand (name data : Bytes) : Bool := name.isPrefixOf data

def checkBasicCommandStructure (data : Bytes) : Bool :=
  decide (1 < data.length) && decide ((data.headD 0).toNat < data.length)

/-! ## The encrypted connection -/

/-- The data of `curve_mechanism_base_t`. -/
structure CurveBase where
  encodeNoncePrefix : Block 16
  decodeNoncePrefix : Block 16
  cnNonce : UInt64
  cnPeerNonce : UInt64
  /-- None as long as the array is not initialised. -/
  cnPrecom : Option (Block 32)
deriving DecidableEq

namespace CurveBase

def messageC : Block 16 := ⟨ascii "CurveZMQMESSAGEC", rfl⟩

def messageS : Block 16 := ⟨ascii "CurveZMQMESSAGES", rfl⟩

/-- The name of an encrypted message. -/
def messageName : Bytes := 7 :: ascii "MESSAGE"

def new (encodeNoncePrefix decodeNoncePrefix : Block 16) : CurveBase :=
  { encodeNoncePrefix, decodeNoncePrefix, cnNonce := 1, cnPeerNonce := 1, cnPrecom := none }

/-- The flags that are encrypted together with a message. -/
def wireFlags (m : Msg) : UInt8 :=
  (if m.flags &&& MsgFlag.more != 0 then 1 else 0) |||
    (if m.flags &&& MsgFlag.command != 0 then 2 else 0)

/-- What is encrypted. -/
def plaintext (m : Msg) : Block (m.data.length + 1) := ⟨wireFlags m :: m.data, rfl⟩

/-- A new message with the given content. -/
def ofData (flags : UInt8) (data : Bytes) : Msg :=
  { type := if data.length ≤ Msg.maxVsmSize then .vsm else .lmsg, flags, data }

def encode (nacl : Nacl) (b : CurveBase) (m : Msg) : Except MechanismFault (Msg × CurveBase) :=
  match b.cnPrecom with
  | none => .error .uninitialised
  | some key =>
      let short := shortNonce b.cnNonce
      let box := nacl.afternm.encrypt key (b.encodeNoncePrefix ++ short) (plaintext m)
      let data := messageName ++ (short.toList ++ box.toList)
      .ok (ofData 0 data, { b with cnNonce := b.cnNonce + 1 })

/-- The message that was encrypted. -/
def ofPlaintext {n : Nat} (plaintext : Block (n + 1)) : Msg :=
  let flags := plaintext.head
  ofData ((if flags &&& 1 != 0 then MsgFlag.more else 0) |||
    (if flags &&& 2 != 0 then MsgFlag.command else 0)) plaintext.tail.toList

/-- `decode`. If it fails, the caller is left with the message as it was. -/
def decode (nacl : Nacl) (b : CurveBase) (m : Msg) : Except MechanismFault (Rc × Msg × CurveBase) :=
  if checkBasicCommandStructure m.data = false then .ok (.error .eproto, m, b)
  else if isCommand messageName m.data = false then .ok (.error .eproto, m, b)
  else if hsize : m.data.length < 33 then .ok (.error .eproto, m, b)
  else
    let short := cut m.data 8 8 (by omega)
    let nonce := getUint64 short.toList
    if nonce ≤ b.cnPeerNonce then .ok (.error .eproto, m, b)
    else
      let b := { b with cnPeerNonce := nonce }
      match b.cnPrecom with
      | none => .error .uninitialised
      | some key =>
          let box : Block (m.data.length - 33 + 1 + 16) := cut m.data 16 _ (by omega)
          match nacl.afternm.decrypt key (b.decodeNoncePrefix ++ short) box with
          | none => .ok (.error .eproto, m, b)
          | some plaintext => .ok (.ok, ofPlaintext plaintext, b)

end CurveBase
end LibZmq
