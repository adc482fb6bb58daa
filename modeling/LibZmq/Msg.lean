import Mathlib.Algebra.Group.Nat.Defs
import LibZmq.Wire.Bytes

/-!
# `msg_t`

The part of a message that the pipes look at (`msg.hpp`): its type, its flags
and its data. Metadata, group, routing id and reference counts travel with the
message and are not read here.
-/

namespace LibZmq

/-- `msg_t::type_t`. -/
inductive MsgType where
  | vsm
  | lmsg
  | delimiter
  | cmsg
  | zclmsg
  | join
  | leave
deriving DecidableEq, Repr

/-! ## Flags -/

namespace MsgFlag

def more : UInt8 := 1
def command : UInt8 := 2
def credential : UInt8 := 32
def routingId : UInt8 := 64

/-- `CMD_TYPE_MASK`: the bits that say which command a message is. -/
def cmdTypeMask : UInt8 := 0x1c
def subscribe : UInt8 := 12
def cancel : UInt8 := 16

end MsgFlag

/-- `msg_t`. -/
structure Msg where
  type : MsgType
  flags : UInt8
  data : Bytes
deriving DecidableEq, Repr

namespace Msg

/-- `init ()`: an empty message. -/
def init : Msg := { type := .vsm, flags := 0, data := [] }

/-- `max_vsm_size`: the size up to which the data is kept in the message itself. -/
def maxVsmSize : Nat := 33

/-- `init_size ()`: the type of the message, or `none` for `ENOMEM`. A longer message needs a
block of memory that begins with a `content_t` of 40 bytes; `malloc` says which sizes can be
allocated. -/
def initSize (malloc : Nat → Bool) (size : Nat) : Option MsgType :=
  if size ≤ maxVsmSize then some .vsm
  else if 40 + size < 2 ^ 64 ∧ malloc (40 + size) = true then some .lmsg
  else none

/-- `init_delimiter ()`. -/
def initDelimiter : Msg := { type := .delimiter, flags := 0, data := [] }

/-- `(flags () & more) != 0`: further parts of the same message follow. -/
def hasMore (m : Msg) : Bool := m.flags &&& MsgFlag.more != 0

/-- `is_routing_id ()`. -/
def isRoutingId (m : Msg) : Bool := m.flags &&& MsgFlag.routingId == MsgFlag.routingId

/-- `is_credential ()`. -/
def isCredential (m : Msg) : Bool := m.flags &&& MsgFlag.credential == MsgFlag.credential

/-- `is_delimiter ()`. -/
def isDelimiter (m : Msg) : Bool := m.type == .delimiter

/-- `is_subscribe ()`. -/
def isSubscribe (m : Msg) : Bool := m.flags &&& MsgFlag.cmdTypeMask == MsgFlag.subscribe

/-- `is_cancel ()`. -/
def isCancel (m : Msg) : Bool := m.flags &&& MsgFlag.cmdTypeMask == MsgFlag.cancel

/-- `command_body ()` and `command_body_size ()` of a subscription or a cancellation: what
follows the name of the command. `none` if the message is too short for the name. -/
def commandBody (m : Msg) : Option Bytes :=
  let nameSize := if m.isSubscribe then 10 else 7
  if m.data.length < nameSize then none else some (m.data.drop nameSize)

@[simp] theorem isDelimiter_initDelimiter : initDelimiter.isDelimiter = true := rfl
@[simp] theorem hasMore_initDelimiter : initDelimiter.hasMore = false := by decide
@[simp] theorem isCredential_initDelimiter : initDelimiter.isCredential = false := by decide

end Msg
end LibZmq
