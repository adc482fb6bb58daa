import LibZmq.Security.CurveClient
import LibZmq.Security.Zap

/-!
# The server of CURVE

The server opens the HELLO of a client, sends it a WELCOME with a cookie, opens its INITIATE, asks
the ZAP handler about the key of the client, and ends with READY (`curve_server.cpp`).
-/

namespace LibZmq

open LibZmq.Core (cut slice Exec)
open Wire (ascii getUint64)
open CurveClientTools (helloPrefix welcomePrefix vouchPrefix initiatePrefix readyPrefix helloName
  welcomeName initiateName readyName errorName)

/-- The random bytes that go into a WELCOME. -/
structure WelcomeRandom where
  cookieNonce : Block 16
  cookieKey : Block 32
  welcomeNonce : Block 16
deriving DecidableEq

/-- `curve_server_t`. A key is none as long as it is not initialised. -/
structure CurveServer where
  handshake : ZapHandshake
  base : CurveBase
  secretKey : Block 32
  cnPublic : Block 32
  cnSecret : Block 32
  cnClient : Option (Block 32)
  cookieKey : Option (Block 32)

namespace CurveServer

variable (nacl : Nacl)

/-- The constructor; the key pair `cnPublic`, `cnSecret` is generated. -/
def new (options : Options) (peerAddress : Bytes) (secretKey cnPublic cnSecret : Block 32) :
    CurveServer :=
  { handshake := .new options peerAddress .sendingReady
    base := .new CurveBase.messageS CurveBase.messageC
    secretKey, cnPublic, cnSecret, cnClient := none, cookieKey := none }

def options (s : CurveServer) : Options := s.handshake.zap.options

def status (s : CurveServer) : MechanismStatus := s.handshake.status

def setState (s : CurveServer) (state : ServerState) : CurveServer :=
  { s with handshake := { s.handshake with state } }

/-! ## HELLO and WELCOME -/

/-- The text of a HELLO that can be opened. -/
def openHello (cnClient secretKey : Block 32) (msg : Bytes) (hsize : msg.length = 200) :
    Option (Block 64) :=
  nacl.boxOpen cnClient secretKey (helloPrefix ++ cut msg 112 8 (by omega))
    (cut msg 120 (64 + 16) (by omega))

def processHello (s : CurveServer) (msg : Bytes) : Rc × CurveServer :=
  if checkBasicCommandStructure msg = false then (.error .eproto, s)
  else if isCommand helloName msg = false then (.error .eproto, s)
  else if hsize : msg.length = 200 then
    if msg.getD 6 0 ≠ 1 ∨ msg.getD 7 0 ≠ 0 then (.error .eproto, s)
    else
      let cnClient := cut msg 80 32 (by omega)
      let cnPeerNonce := getUint64 (cut msg 112 8 (by omega)).toList
      let s := { s with cnClient := some cnClient, base := { s.base with cnPeerNonce } }
      match openHello nacl cnClient s.secretKey msg hsize with
      | none => (.error .eproto, s)
      | some _ => (.ok, s.setState .sendingWelcome)
  else (.error .eproto, s)

def cookiePrefix : Block 8 := ⟨ascii "COOKIE--", rfl⟩

def produceWelcome (s : CurveServer) (random : WelcomeRandom) :
    Except MechanismFault (Except HandshakeErrno Bytes × CurveServer) :=
  match s.cnClient with
  | none => .error .uninitialised
  | some cnClient =>
      let cookie := nacl.secretbox.encrypt random.cookieKey (cookiePrefix ++ random.cookieNonce)
        (cnClient ++ s.cnSecret)
      let s := { s with cookieKey := some random.cookieKey }
      match nacl.box cnClient s.secretKey (welcomePrefix ++ random.welcomeNonce)
          (s.cnPublic ++ (random.cookieNonce ++ cookie)) with
      | none => .ok (.error .stale, s)
      | some box => .ok (.ok (welcomeName ++ (random.welcomeNonce.toList ++ box.toList)), s)

theorem produceWelcome_of_box {nacl : Nacl} {s : CurveServer} {random : WelcomeRandom}
    {cnClient : Block 32} {box : Block (32 + (16 + (32 + 32 + 16)) + 16)}
    (hclient : s.cnClient = some cnClient)
    (hbox : nacl.box cnClient s.secretKey (welcomePrefix ++ random.welcomeNonce)
      (s.cnPublic ++ (random.cookieNonce ++ nacl.secretbox.encrypt random.cookieKey
        (cookiePrefix ++ random.cookieNonce) (cnClient ++ s.cnSecret))) = some box) :
    s.produceWelcome nacl random = .ok (.ok (welcomeName ++ (random.welcomeNonce.toList ++
      box.toList)), { s with cookieKey := some random.cookieKey }) := by
  simp [produceWelcome, hclient, hbox]

/-! ## INITIATE and READY -/

/-- The text of the cookie in an INITIATE. -/
def openCookie (cookieKey : Block 32) (msg : Bytes) (hsize : 257 ≤ msg.length) :
    Option (Block 64) :=
  nacl.secretbox.decrypt cookieKey (cookiePrefix ++ cut msg 9 16 (by omega))
    (cut msg 25 (64 + 16) (by omega))

/-- The text of the box in an INITIATE. -/
def openInitiate (cnClient cnSecret : Block 32) (msg : Bytes) (hsize : 257 ≤ msg.length) :
    Option (Block (msg.length - 257 + 128)) :=
  nacl.boxOpen cnClient cnSecret (initiatePrefix ++ cut msg 105 8 (by omega))
    (cut msg 113 (msg.length - 257 + 128 + 16) (by omega))

/-- The key of the client in the text of an INITIATE. -/
def initiateKey {n : Nat} (plaintext : Block (n + 128)) : Block 32 :=
  slice plaintext 0 32 (by omega)

/-- The metadata in the text of an INITIATE. -/
def initiateMetadata {n : Nat} (plaintext : Block (n + 128)) : Block n :=
  slice plaintext 128 n (by omega)

/-- The text of the vouch in the text of an INITIATE. -/
def openVouch {n : Nat} (cnSecret : Block 32) (plaintext : Block (n + 128)) : Option (Block 64) :=
  nacl.boxOpen (initiateKey plaintext) cnSecret (vouchPrefix ++ slice plaintext 32 16 (by omega))
    (slice plaintext 48 (64 + 16) (by omega))

/-- The last lines of `process_initiate`. -/
def takeMetadata (s : CurveServer) (metadata : Bytes) : Rc × CurveServer :=
  let r := s.handshake.zap.mechanism.parseMetadata s.options false metadata
  (r.1, { s with handshake := { s.handshake with
                                zap := { s.handshake.zap with mechanism := r.2 } } })

/-- The part of `process_initiate` that asks the ZAP handler. -/
def authenticate (s : CurveServer) (handler : ZapHandler) (clientKey : Block 32)
    (metadata : Bytes) : Except MechanismFault (Rc × CurveServer) :=
  if s.options.zapRequired || !s.options.zapEnforceDomain then
    match s.handshake.zap.session.zapConnect handler with
    | some session => do
        match ← s.handshake.ask session handler (ascii "CURVE") [clientKey.toList] with
        | (.failed e, handshake) => .ok (.error e, { s with handshake })
        | (_, handshake) => .ok (takeMetadata { s with handshake } metadata)
    | none =>
        if !s.options.zapEnforceDomain then .ok ((s.setState .sendingReady).takeMetadata metadata)
        else .ok (.error .econnrefused, s)
  else .ok ((s.setState .sendingReady).takeMetadata metadata)

def processInitiate (s : CurveServer) (msg : Bytes) (handler : ZapHandler) :
    Except MechanismFault (Rc × CurveServer) :=
  if checkBasicCommandStructure msg = false then .ok (.error .eproto, s)
  else if isCommand initiateName msg = false then .ok (.error .eproto, s)
  else if hsize : 257 ≤ msg.length then
    match s.cookieKey, s.cnClient with
    | some cookieKey, some cnClient =>
        match openCookie nacl cookieKey msg hsize with
        | none => .ok (.error .eproto, s)
        | some cookie =>
            if slice cookie 0 32 (by decide) ≠ cnClient ∨
                slice cookie 32 32 (by decide) ≠ s.cnSecret then .ok (.error .eproto, s)
            else
              let cnPeerNonce := getUint64 (cut msg 105 8 (by omega)).toList
              let s := { s with base := { s.base with cnPeerNonce } }
              match openInitiate nacl cnClient s.cnSecret msg hsize with
              | none => .ok (.error .eproto, s)
              | some plaintext =>
                  match openVouch nacl s.cnSecret plaintext with
                  | none => .ok (.error .eproto, s)
                  | some vouch =>
                      if slice vouch 0 32 (by decide) ≠ cnClient then .ok (.error .eproto, s)
                      else
                        match nacl.beforenm cnClient s.cnSecret with
                        | none => .error .assertion
                        | some key =>
                            authenticate { s with base := { s.base with cnPrecom := some key } }
                              handler (initiateKey plaintext) (initiateMetadata plaintext).toList
    | _, _ => .error .uninitialised
  else .ok (.error .eproto, s)

def produceReady (s : CurveServer) : Except MechanismFault (Bytes × CurveServer) := do
  let metadata ← s.options.addBasicProperties
  match s.base.cnPrecom with
  | none => .error .uninitialised
  | some key =>
      let short := shortNonce s.base.cnNonce
      let box := nacl.afternm.encrypt key (readyPrefix ++ short) (Block.ofList metadata)
      .ok (readyName ++ (short.toList ++ box.toList),
        { s with base := { s.base with cnNonce := s.base.cnNonce + 1 } })

def produceError (s : CurveServer) : Except MechanismFault Bytes :=
  if s.handshake.zap.statusCode.length = 3 then
    .ok (errorName ++ (3 :: s.handshake.zap.statusCode))
  else .error .assertion

/-! ## Calls of the engine -/

def nextHandshakeCommand (s : CurveServer) (random : WelcomeRandom) :
    Except MechanismFault (Except HandshakeErrno Bytes × CurveServer) :=
  match s.handshake.state with
  | .sendingWelcome => do
      match ← s.produceWelcome nacl random with
      | (.ok msg, s) => .ok (.ok msg, s.setState .waitingForInitiate)
      | (.error e, s) => .ok (.error e, s)
  | .sendingReady => do
      let (msg, s) ← s.produceReady nacl
      .ok (.ok msg, s.setState .ready)
  | .sendingError => do
      let msg ← s.produceError
      .ok (.ok msg, s.setState .errorSent)
  | _ => .ok (.error .eagain, s)

def processHandshakeCommand (s : CurveServer) (msg : Bytes) (handler : ZapHandler) :
    Except MechanismFault (Rc × CurveServer) :=
  match s.handshake.state with
  | .waitingForHello => .ok (s.processHello nacl msg)
  | .waitingForInitiate => s.processInitiate nacl msg handler
  | _ => .ok (.error .eproto, s)

def zapMsgAvailable (s : CurveServer) : Except MechanismFault (Rc × CurveServer) :=
  s.handshake.zapMsgAvailable.map fun r => (r.1, { s with handshake := r.2 })

def encode (s : CurveServer) (m : Msg) : Except MechanismFault (Msg × CurveServer) :=
  if s.handshake.state = .ready then
    (s.base.encode nacl m).map fun r => (r.1, { s with base := r.2 })
  else .error .assertion

def decode (s : CurveServer) (m : Msg) : Except MechanismFault (Rc × Msg × CurveServer) :=
  if s.handshake.state = .ready then
    (s.base.decode nacl m).map fun r => (r.1, r.2.1, { s with base := r.2.2 })
  else .error .assertion

end CurveServer

/-- How the engine calls a server; `ι` is what `next_handshake_command` needs. The ZAP handler may
do something during a call, and before `zap_msg_available` the pipe is activated. -/
inductive ServerCall (ι : Type) where
  | next (input : ι)
  | process (msg : Bytes) (handler : ZapHandler)
  | zapMsgAvailable
deriving DecidableEq

namespace CurveServer

variable {s s' : CurveServer} {msg metadata : Bytes} {handler : ZapHandler}
  {clientKey : Block 32} {rc : Rc}

/-- The session of a server changes. -/
def setSession (s : CurveServer) (session : ZapSession) : CurveServer :=
  { s with handshake := { s.handshake with zap := { s.handshake.zap with session } } }

def perform (nacl : Nacl) (s : CurveServer) :
    ServerCall WelcomeRandom → Except MechanismFault (Rc × CurveServer)
  | .next random => (s.nextHandshakeCommand nacl random).map fun r => (.ofProduced r.1, r.2)
  | .process msg handler => s.processHandshakeCommand nacl msg handler
  | .zapMsgAvailable => (s.setSession s.handshake.zap.session.activate).zapMsgAvailable

/-! ## What a call can do -/

/-- What never changes. -/
structure SameConnection (s s' : CurveServer) : Prop where
  secretKey : s'.secretKey = s.secretKey
  cnSecret : s'.cnSecret = s.cnSecret
  options : s'.options = s.options
  peerAddress : s'.handshake.zap.peerAddress = s.handshake.zap.peerAddress
  okState : s'.handshake.zapReplyOkState = s.handshake.zapReplyOkState

theorem SameConnection.refl (s : CurveServer) : SameConnection s s := ⟨rfl, rfl, rfl, rfl, rfl⟩

theorem SameConnection.trans (h : SameConnection s s')
    (h' : SameConnection s' s'') : SameConnection s s'' where
  secretKey := h'.secretKey.trans h.secretKey
  cnSecret := h'.cnSecret.trans h.cnSecret
  options := h'.options.trans h.options
  peerAddress := h'.peerAddress.trans h.peerAddress
  okState := h'.okState.trans h.okState

/-- What `next_handshake_command` can do. -/
inductive Nexted (s : CurveServer) (random : WelcomeRandom) : Rc → CurveServer → Prop where
  | idle {rc : Rc} {s' : CurveServer} (hrc : rc ≠ .ok) (hsame : s'.handshake = s.handshake)
      (hcookie : s.handshake.state = .sendingWelcome ∨ s'.cookieKey = s.cookieKey)
      (hclient : s'.cnClient = s.cnClient) (hprecom : s'.base.cnPrecom = s.base.cnPrecom)
      (hconnection : SameConnection s s') : Nexted s random rc s'
  | welcome {cnClient : Block 32} {s' : CurveServer} (hstate : s.handshake.state = .sendingWelcome)
      (hsame : s'.handshake = { s.handshake with state := .waitingForInitiate })
      (hcookie : s'.cookieKey = some random.cookieKey) (hclient : s.cnClient = some cnClient)
      (hclient' : s'.cnClient = some cnClient) (hconnection : SameConnection s s') :
      Nexted s random .ok s'
  | ready {s' : CurveServer} (hstate : s.handshake.state = .sendingReady)
      (hsame : s'.handshake = { s.handshake with state := .ready })
      (hclient : s'.cnClient = s.cnClient) (hcookie : s'.cookieKey = s.cookieKey)
      (hprecom : s'.base.cnPrecom = s.base.cnPrecom) (hconnection : SameConnection s s') :
      Nexted s random .ok s'
  | error {s' : CurveServer} (hstate : s.handshake.state = .sendingError)
      (hsame : s'.handshake = { s.handshake with state := .errorSent })
      (hconnection : SameConnection s s') : Nexted s random .ok s'

theorem perform_next (h : s.perform nacl (.next random) = .ok (rc, s')) :
    Nexted s random rc s' := by
  obtain ⟨r, hnext, ⟨⟩⟩ := map_ok h
  unfold nextHandshakeCommand at hnext
  split at hnext
  · rename_i hstate
    obtain ⟨⟨produced, s₁⟩, hproduce, hnext⟩ := bind_ok hnext
    unfold produceWelcome at hproduce
    split at hproduce
    · cases hproduce
    rename_i cnClient hclient
    dsimp only at hproduce
    split at hproduce
    · cases hproduce
      cases hnext
      exact .idle nofun rfl (.inl hstate) rfl rfl ⟨rfl, rfl, rfl, rfl, rfl⟩
    · cases hproduce
      cases hnext
      exact .welcome hstate rfl rfl hclient hclient ⟨rfl, rfl, rfl, rfl, rfl⟩
  · rename_i hstate
    obtain ⟨⟨produced, s₁⟩, hproduce, ⟨⟩⟩ := bind_ok hnext
    obtain ⟨metadata, -, hproduce⟩ := bind_ok hproduce
    split at hproduce
    · cases hproduce
    · cases hproduce
      exact .ready hstate rfl rfl rfl rfl ⟨rfl, rfl, rfl, rfl, rfl⟩
  · rename_i hstate
    obtain ⟨-, -, ⟨⟩⟩ := bind_ok hnext
    exact .error hstate rfl ⟨rfl, rfl, rfl, rfl, rfl⟩
  · cases hnext
    exact .idle nofun rfl (.inr rfl) rfl rfl (.refl _)

/-- A HELLO with the short-term key `cnClient` that opens. -/
def HelloOpens (nacl : Nacl) (secretKey cnClient : Block 32) (msg : Bytes) : Prop :=
  isCommand helloName msg = true ∧ ∃ hsize : msg.length = 200,
    cut msg 80 32 (by omega) = cnClient ∧ (openHello nacl cnClient secretKey msg hsize).isSome

/-- What `process_hello` can do. -/
inductive Greeted (nacl : Nacl) (s : CurveServer) (msg : Bytes) : Rc → CurveServer → Prop where
  | refused {rc : Rc} {s' : CurveServer} (hrc : rc ≠ .ok) (hsame : s'.handshake = s.handshake) :
      Greeted nacl s msg rc s'
  | accepted {cnClient : Block 32} {s' : CurveServer}
      (hopen : HelloOpens nacl s.secretKey cnClient msg)
      (hsame : s'.handshake = { s.handshake with state := .sendingWelcome })
      (hclient : s'.cnClient = some cnClient) (hconnection : SameConnection s s') :
      Greeted nacl s msg .ok s'

theorem processHello_spec (nacl : Nacl) (s : CurveServer) (msg : Bytes) :
    Greeted nacl s msg (s.processHello nacl msg).1 (s.processHello nacl msg).2 := by
  unfold processHello
  split
  · exact .refused (Rc.error_ne_ok _) rfl
  split
  · exact .refused (Rc.error_ne_ok _) rfl
  rename_i hname
  split
  · rename_i hsize
    split
    · exact .refused (Rc.error_ne_ok _) rfl
    dsimp only
    split
    · exact .refused (Rc.error_ne_ok _) rfl
    · rename_i plaintext hopen
      exact .accepted ⟨by simpa using hname, hsize, rfl, by rw [hopen]; rfl⟩ rfl rfl
        ⟨rfl, rfl, rfl, rfl, rfl⟩
  · exact .refused (Rc.error_ne_ok _) rfl

/-- An INITIATE all of whose boxes open and fit together. `clientKey` is the key of the client. -/
def InitiateOpens (nacl : Nacl) (cookieKey cnClient cnSecret : Block 32) (msg : Bytes)
    (clientKey : Block 32) (metadata : Bytes) : Prop :=
  isCommand initiateName msg = true ∧ ∃ (hsize : 257 ≤ msg.length) (cookie vouch : Block 64)
      (plaintext : Block (msg.length - 257 + 128)),
    openCookie nacl cookieKey msg hsize = some cookie ∧
    slice cookie 0 32 (by decide) = cnClient ∧ slice cookie 32 32 (by decide) = cnSecret ∧
    openInitiate nacl cnClient cnSecret msg hsize = some plaintext ∧
    initiateKey plaintext = clientKey ∧ (initiateMetadata plaintext).toList = metadata ∧
    openVouch nacl cnSecret plaintext = some vouch ∧ slice vouch 0 32 (by decide) = cnClient

/-- How the ZAP handler was asked about the client, and what it has said up to now. -/
inductive Verdict (h : ZapHandshake) (clientKey : Block 32) (h' : ZapHandshake) : Prop where
  | unasked (hfree : ¬ (h.zap.options.zapRequired = true ∧ h.zap.options.zapEnforceDomain = true))
      (hrequests : h'.zap.session.requests = h.zap.session.requests)
      (hstate : h'.state = .sendingReady)
  | pending (hrequests : h'.zap.session.requests =
        h.zap.session.requests ++ [h.zap.request (ascii "CURVE") [clientKey.toList]])
      (hstate : h'.state = .waitingForZapReply)
  | approved {r : ZapReply} (hrequests : h'.zap.session.requests =
        h.zap.session.requests ++ [h.zap.request (ascii "CURVE") [clientKey.toList]])
      (hform : r.WellFormed h.zap.options) (hstatus : r.status = ascii "200")
      (hread : h'.zap.session.readings = h.zap.session.readings ++ [zapFrames r.parts])
      (hstate : h'.state = h.zapReplyOkState)
  | denied (hstate : h'.state = .errorSent ∨ h'.state = .sendingError)

theorem Verdict.congr (hverdict : Verdict h clientKey h₁)
    (hsession : h₂.zap.session = h₁.zap.session) (hstate : h₂.state = h₁.state) :
    Verdict h clientKey h₂ := by
  cases hverdict with
  | unasked hfree hreq hst => exact .unasked hfree (by rw [hsession, hreq]) (hstate.trans hst)
  | pending hreq hst => exact .pending (by rw [hsession, hreq]) (hstate.trans hst)
  | approved hreq hform hstatus hread hst =>
    exact .approved (by rw [hsession, hreq]) hform hstatus (by rw [hsession, hread])
      (hstate.trans hst)
  | denied => exact .denied (by rwa [hstate])

/-- What the part of `process_initiate` can do that asks the handler. -/
inductive Authenticated (s : CurveServer) (handler : ZapHandler) (clientKey : Block 32)
    (metadata : Bytes) : Rc → CurveServer → Prop where
  | unreachable : Authenticated s handler clientKey metadata (.error .econnrefused) s
  | unasked (hfree : ¬ (s.options.zapRequired = true ∧ s.options.zapEnforceDomain = true)) :
      Authenticated s handler clientKey metadata
        ((s.setState .sendingReady).takeMetadata metadata).1
        ((s.setState .sendingReady).takeMetadata metadata).2
  | failed {session : ZapSession} {e : HandshakeErrno} {handshake : ZapHandshake}
      (hconnect : s.handshake.zap.session.zapConnect handler = some session)
      (hask : s.handshake.ask session handler (ascii "CURVE") [clientKey.toList] =
        .ok (.failed e, handshake)) :
      Authenticated s handler clientKey metadata (.error e) { s with handshake }
  | asked {session : ZapSession} {outcome : ZapOutcome} {handshake : ZapHandshake}
      (hconnect : s.handshake.zap.session.zapConnect handler = some session)
      (hask : s.handshake.ask session handler (ascii "CURVE") [clientKey.toList] =
        .ok (outcome, handshake)) (hnot : ∀ e, outcome ≠ .failed e) :
      Authenticated s handler clientKey metadata (takeMetadata { s with handshake } metadata).1
        (takeMetadata { s with handshake } metadata).2

theorem authenticate_cases (h : s.authenticate handler clientKey metadata = .ok (rc, s')) :
    Authenticated s handler clientKey metadata rc s' := by
  unfold authenticate at h
  split at h
  · split at h
    · rename_i session hconnect
      obtain ⟨⟨outcome, handshake⟩, hask, h⟩ := bind_ok h
      split at h
      · rename_i heq
        cases heq
        cases h
        exact .failed hconnect hask
      · rename_i hnot heq
        cases heq
        cases h
        exact .asked hconnect hask hnot
    · split at h
      · rename_i henforce
        cases h
        exact .unasked fun hboth => by simp [hboth.2] at henforce
      · cases h
        exact .unreachable
  · rename_i hoff
    cases h
    exact .unasked fun hboth => hoff (by rw [hboth.1]; rfl)

/-- A call that goes on to the metadata of the client. -/
theorem takeMetadata_spec (hconnection : SameConnection s s₁)
    (hbase : s₁.base = s.base) (hverdict : Verdict s.handshake clientKey s₁.handshake) :
    SameConnection s (s₁.takeMetadata metadata).2 ∧
      (s₁.takeMetadata metadata).2.base = s.base ∧
      Verdict s.handshake clientKey (s₁.takeMetadata metadata).2.handshake ∧
      (s₁.takeMetadata metadata).1 = (Mechanism.new.parseMetadata s.options false metadata).1 := by
  refine ⟨hconnection.trans ⟨rfl, rfl, rfl, rfl, rfl⟩, hbase, hverdict.congr rfl rfl, ?_⟩
  rw [← hconnection.options]
  exact Mechanism.parseMetadata_rc _ _ _

/-- The handler is asked, or need not be asked, before the metadata is read. -/
theorem authenticate_spec (h : s.authenticate handler clientKey metadata = .ok (rc, s')) :
    (SameConnection s s' ∧ s'.base = s.base ∧ Verdict s.handshake clientKey s'.handshake ∧
      rc = (Mechanism.new.parseMetadata s.options false metadata).1) ∨
    (rc ≠ .ok ∧ (s'.handshake.state = s.handshake.state ∨
      s'.handshake.state = .waitingForZapReply)) := by
  cases authenticate_cases h with
  | unreachable => exact .inr ⟨nofun, .inl rfl⟩
  | unasked hfree =>
    exact .inl (takeMetadata_spec ⟨rfl, rfl, rfl, rfl, rfl⟩ rfl (.unasked hfree rfl rfl))
  | failed hconnect hask =>
    rcases (ZapHandshake.ask_cases hconnect hask).2.2 with ⟨-, hstate⟩ | ⟨hprocessed, -⟩
    · exact .inr ⟨nofun, .inr hstate⟩
    · cases hprocessed
  | asked hconnect hask =>
    obtain ⟨⟨hoptions, haddress, hok⟩, hrequests, hcases⟩ := ZapHandshake.ask_cases hconnect hask
    refine .inl (takeMetadata_spec ⟨rfl, rfl, hoptions, haddress, hok⟩ rfl ?_)
    rcases hcases with ⟨-, hstate⟩ | ⟨-, r, hform, hread, ⟨hstatus, hstate⟩ | ⟨-, hstate⟩⟩
    · exact .pending hrequests hstate
    · exact .approved hrequests hform hstatus hread hstate
    · exact .denied hstate

/-- What `process_initiate` can do. -/
inductive Initiated (nacl : Nacl) (s : CurveServer) (msg : Bytes) :
    Rc → CurveServer → Prop where
  | refused {rc : Rc} {s' : CurveServer} (hrc : rc ≠ .ok) (hstate : s'.handshake.state ≠ .ready) :
      Initiated nacl s msg rc s'
  | accepted {cookieKey cnClient clientKey key : Block 32} {metadata : Bytes}
      {s' : CurveServer} (hcookie : s.cookieKey = some cookieKey)
      (hclient : s.cnClient = some cnClient)
      (hopen : InitiateOpens nacl cookieKey cnClient s.cnSecret msg clientKey metadata)
      (hparse : (Mechanism.new.parseMetadata s.options false metadata).1 = .ok)
      (hkey : nacl.beforenm cnClient s.cnSecret = some key)
      (hprecom : s'.base.cnPrecom = some key)
      (hverdict : Verdict s.handshake clientKey s'.handshake)
      (hconnection : SameConnection s s') : Initiated nacl s msg .ok s'

theorem Verdict.ne_ready (hverdict : Verdict h clientKey h')
    (hok : h.zapReplyOkState = .sendingReady) : h'.state ≠ .ready := by
  cases hverdict with
  | unasked _ _ hstate | pending _ hstate => rw [hstate]; nofun
  | approved _ _ _ _ hstate => rw [hstate, hok]; nofun
  | denied hstate => rcases hstate with hstate | hstate <;> rw [hstate] <;> nofun

/-- `process_initiate` changes nothing but nonces before all boxes are open. -/
theorem processInitiate_cases (h : s.processInitiate nacl msg handler = .ok (rc, s')) :
    (∃ e base, rc = .error e ∧ s' = { s with base }) ∨
    ∃ cookieKey cnClient clientKey key metadata base, s.cookieKey = some cookieKey ∧
      s.cnClient = some cnClient ∧
      InitiateOpens nacl cookieKey cnClient s.cnSecret msg clientKey metadata ∧
      nacl.beforenm cnClient s.cnSecret = some key ∧ base.cnPrecom = some key ∧
      authenticate { s with base } handler clientKey metadata = .ok (rc, s') := by
  unfold processInitiate at h
  split at h
  · cases h
    exact .inl ⟨_, _, rfl, rfl⟩
  split at h
  · cases h
    exact .inl ⟨_, _, rfl, rfl⟩
  rename_i hname
  split at h
  · rename_i hsize
    split at h
    · rename_i cookieKey cnClient hcookieKey hclient
      split at h
      · cases h
        exact .inl ⟨_, _, rfl, rfl⟩
      rename_i cookie hcookie
      split at h
      · cases h
        exact .inl ⟨_, _, rfl, rfl⟩
      rename_i hsame
      obtain ⟨hsameClient, hsameSecret⟩ := not_or.mp hsame
      dsimp only at h
      split at h
      · cases h
        exact .inl ⟨_, _, rfl, rfl⟩
      rename_i plaintext hinitiate
      split at h
      · cases h
        exact .inl ⟨_, _, rfl, rfl⟩
      rename_i vouch hvouch
      split at h
      · cases h
        exact .inl ⟨_, _, rfl, rfl⟩
      rename_i hsameVouch
      split at h
      · cases h
      rename_i key hkey
      exact .inr ⟨_, _, _, key, _, _, hcookieKey, hclient,
        ⟨by simpa using hname, hsize, cookie, vouch, plaintext, hcookie, not_not.mp hsameClient,
          not_not.mp hsameSecret, hinitiate, rfl, rfl, hvouch, not_not.mp hsameVouch⟩,
        hkey, rfl, h⟩
    · cases h
  · cases h
    exact .inl ⟨_, _, rfl, rfl⟩

theorem processInitiate_spec (hstate : s.handshake.state = .waitingForInitiate)
    (hok : s.handshake.zapReplyOkState = .sendingReady)
    (h : s.processInitiate nacl msg handler = .ok (rc, s')) : Initiated nacl s msg rc s' := by
  have hwaits : s.handshake.state ≠ .ready := by rw [hstate]; decide
  rcases processInitiate_cases h with ⟨e, base, rfl, rfl⟩ |
    ⟨cookieKey, cnClient, clientKey, key, metadata, base, hcookie, hclient, hopens, hkey,
      hprecom, h⟩
  · exact .refused (Rc.error_ne_ok e) hwaits
  rcases authenticate_spec h with ⟨hconnection, hbase, hverdict, hrc⟩ | ⟨hrc, hfinal⟩
  · cases hparse : (Mechanism.new.parseMetadata s.options false metadata).1 with
    | ok =>
      obtain rfl := hrc.trans hparse
      exact .accepted hcookie hclient hopens hparse hkey (by rw [hbase, hprecom]) hverdict
        { hconnection with }
    | error =>
      obtain rfl := hrc.trans hparse
      exact .refused (Rc.error_ne_ok _) (hverdict.ne_ready hok)
  · refine .refused hrc ?_
    rcases hfinal with hfinal | hfinal <;> rw [hfinal]
    · exact hwaits
    · decide

theorem zapMsgAvailable_spec (h : s.zapMsgAvailable = .ok (rc, s')) :
    ∃ handshake outcome, s.handshake.receiveAndProcessZapReply = .ok (outcome, handshake) ∧
      rc = outcome.rc ∧ s' = { s with handshake } := by
  obtain ⟨⟨rc₁, handshake⟩, hcall, heq⟩ := map_ok h
  obtain ⟨outcome, hreceive, hrc⟩ := ZapHandshake.zapMsgAvailable_spec hcall
  cases heq
  exact ⟨handshake, outcome, hreceive, hrc, rfl⟩

end CurveServer
end LibZmq
