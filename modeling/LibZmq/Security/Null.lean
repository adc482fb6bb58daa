import LibZmq.Security.CurveServer

/-!
# The NULL mechanism

Both peers send READY or ERROR and are done when they have sent and received one of them. If a ZAP
domain is set, the ZAP handler is asked first (`null_mechanism.cpp`).
-/

namespace LibZmq

open Wire (ascii)
open CurveClientTools (readyName errorName)

/-- `null_mechanism_t`. -/
structure NullMechanism where
  zap : ZapClient
  readyCommandSent : Bool
  errorCommandSent : Bool
  readyCommandReceived : Bool
  errorCommandReceived : Bool
  zapRequestSent : Bool
  zapReplyReceived : Bool

namespace NullMechanism

def new (options : Options) (peerAddress : Bytes) : NullMechanism :=
  { zap := .new options peerAddress, readyCommandSent := false, errorCommandSent := false,
    readyCommandReceived := false, errorCommandReceived := false, zapRequestSent := false,
    zapReplyReceived := false }

/-- The end of `next_handshake_command`: ERROR or READY. -/
def produce (n : NullMechanism) :
    Except MechanismFault (Except HandshakeErrno Bytes × NullMechanism) :=
  if n.zapReplyReceived = true ∧ n.zap.statusCode ≠ ascii "200" then
    let n := { n with errorCommandSent := true }
    if n.zap.statusCode ≠ ascii "300" then .ok (.ok (errorName ++ (3 :: n.zap.statusCode)), n)
    else .ok (.error .eagain, n)
  else do
    let properties ← n.zap.options.addBasicProperties
    .ok (.ok (readyName ++ properties), { n with readyCommandSent := true })

def nextHandshakeCommand (n : NullMechanism) (handler : ZapHandler) :
    Except MechanismFault (Except HandshakeErrno Bytes × NullMechanism) :=
  if n.readyCommandSent || n.errorCommandSent then .ok (.error .eagain, n)
  else if n.zap.options.zapRequired && !n.zapReplyReceived then
    if n.zapRequestSent then .ok (.error .eagain, n)
    else
      match n.zap.session.zapConnect handler with
      | none => if n.zap.options.zapEnforceDomain then .ok (.error .econnrefused, n) else n.produce
      | some session =>
          let zap := ZapClient.sendZapRequest { n.zap with session } handler (ascii "NULL") []
          match zap.receiveAndProcessZapReply with
          | (.processed, zap) => produce { n with zap, zapRequestSent := true,
                                                  zapReplyReceived := true }
          | (.again, zap) => .ok (.error .eagain, { n with zap, zapRequestSent := true })
          | (.failed e, zap) => .ok (.error e, { n with zap, zapRequestSent := true })
  else n.produce

def processReadyCommand (n : NullMechanism) (msg : Bytes) : Rc × NullMechanism :=
  let r := n.zap.mechanism.parseMetadata n.zap.options false (msg.drop 6)
  (r.1, { n with readyCommandReceived := true, zap := { n.zap with mechanism := r.2 } })

def processErrorCommand (n : NullMechanism) (msg : Bytes) : Rc × NullMechanism :=
  if msg.length < 7 then (.error .eproto, n)
  else if msg.length - 7 < (msg.getD 6 0).toNat then (.error .eproto, n)
  else (.ok, { n with errorCommandReceived := true })

def processHandshakeCommand (n : NullMechanism) (msg : Bytes) : Rc × NullMechanism :=
  if n.readyCommandReceived || n.errorCommandReceived then (.error .eproto, n)
  else if isCommand readyName msg then n.processReadyCommand msg
  else if isCommand errorName msg then n.processErrorCommand msg
  else (.error .eproto, n)

def zapMsgAvailable (n : NullMechanism) : Rc × NullMechanism :=
  if n.zapReplyReceived then (.error .efsm, n)
  else
    match n.zap.receiveAndProcessZapReply with
    | (.processed, zap) => (.ok, { n with zap, zapReplyReceived := true })
    | (outcome, zap) => (outcome.rc, { n with zap })

def status (n : NullMechanism) : MechanismStatus :=
  if n.readyCommandSent && n.readyCommandReceived then .ready
  else if (n.readyCommandSent || n.errorCommandSent) &&
      (n.readyCommandReceived || n.errorCommandReceived) then .error
  else .handshaking

def perform (n : NullMechanism) :
    ServerCall ZapHandler → Except MechanismFault (Rc × NullMechanism)
  | .next handler => (n.nextHandshakeCommand handler).map fun r => (.ofProduced r.1, r.2)
  | .process msg _ => .ok (n.processHandshakeCommand msg)
  | .zapMsgAvailable => .ok (zapMsgAvailable { n with zap := n.zap.activate })

end NullMechanism
end LibZmq
