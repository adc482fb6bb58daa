import LibZmq.Security.CurveServer

/-!
# PLAIN

The client says HELLO with a user name and a password, which the ZAP handler of the server has to
approve (`plain_server.cpp`).
-/

namespace LibZmq

open Wire (ascii)
open CurveClientTools (helloName welcomeName initiateName readyName errorName)

/-- `plain_server_t`. -/
structure PlainServer where
  handshake : ZapHandshake

namespace PlainServer

def options (s : PlainServer) : Options := s.handshake.zap.options

def new (options : Options) (peerAddress : Bytes) : Except MechanismFault PlainServer :=
  if options.zapEnforceDomain = true ∧ options.zapRequired = false then .error .assertion
  else .ok { handshake := .new options peerAddress .sendingWelcome }

def setState (s : PlainServer) (state : ServerState) : PlainServer :=
  { s with handshake := { s.handshake with state } }

/-- User name and password in a HELLO; `none` if it is malformed. -/
def parseHello (msg : Bytes) : Option (Bytes × Bytes) :=
  match msg.drop 6 with
  | [] => none
  | usernameLength :: bytes =>
      if bytes.length < usernameLength.toNat then none
      else
        match bytes.drop usernameLength.toNat with
        | [] => none
        | passwordLength :: password =>
            if password.length ≠ passwordLength.toNat then none
            else some (bytes.take usernameLength.toNat, password)

def processHello (s : PlainServer) (msg : Bytes) (handler : ZapHandler) :
    Except MechanismFault (Rc × PlainServer) :=
  if checkBasicCommandStructure msg = false then .ok (.error .eproto, s)
  else if isCommand helloName msg = false then .ok (.error .eproto, s)
  else
    match parseHello msg with
    | none => .ok (.error .eproto, s)
    | some (username, password) =>
        match s.handshake.zap.session.zapConnect handler with
        | none => .ok (.error .econnrefused, s)
        | some session => do
            let (outcome, handshake) ←
              s.handshake.ask session handler (ascii "PLAIN") [username, password]
            .ok (outcome.rc, { s with handshake })

def processInitiate (s : PlainServer) (msg : Bytes) : Rc × PlainServer :=
  if isCommand initiateName msg = false then (.error .eproto, s)
  else
    let r := s.handshake.zap.mechanism.parseMetadata s.options false (msg.drop 9)
    let handshake := { s.handshake with zap := { s.handshake.zap with mechanism := r.2 } }
    (r.1, { s with handshake := if r.1 = .ok then { handshake with state := .sendingReady }
                                else handshake })

def nextHandshakeCommand (s : PlainServer) :
    Except MechanismFault (Except HandshakeErrno Bytes × PlainServer) :=
  match s.handshake.state with
  | .sendingWelcome => .ok (.ok welcomeName, s.setState .waitingForInitiate)
  | .sendingReady => do
      let properties ← s.options.addBasicProperties
      .ok (.ok (readyName ++ properties), s.setState .ready)
  | .sendingError =>
      if s.handshake.zap.statusCode.length = 3 then
        .ok (.ok (errorName ++ (3 :: s.handshake.zap.statusCode)), s.setState .errorSent)
      else .error .assertion
  | _ => .ok (.error .eagain, s)

def processHandshakeCommand (s : PlainServer) (msg : Bytes) (handler : ZapHandler) :
    Except MechanismFault (Rc × PlainServer) :=
  match s.handshake.state with
  | .waitingForHello => s.processHello msg handler
  | .waitingForInitiate => .ok (s.processInitiate msg)
  | _ => .ok (.error .eproto, s)

def zapMsgAvailable (s : PlainServer) : Except MechanismFault (Rc × PlainServer) :=
  s.handshake.zapMsgAvailable.map fun r => (r.1, { s with handshake := r.2 })

def perform (s : PlainServer) : ServerCall Unit → Except MechanismFault (Rc × PlainServer)
  | .next () => s.nextHandshakeCommand.map fun r => (.ofProduced r.1, r.2)
  | .process msg handler => s.processHandshakeCommand msg handler
  | .zapMsgAvailable =>
      zapMsgAvailable { s with handshake := { s.handshake with zap := s.handshake.zap.activate } }

end PlainServer
end LibZmq
