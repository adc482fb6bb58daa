import LibZmq.Security.CurveServerAuth
import LibZmq.Security.Null
import LibZmq.Security.Plain

/-!
# ZAP fails closed

A server with one of the mechanisms NULL, PLAIN and CURVE, its peer and the ZAP handler. The
handler may be missing, may not answer, and may answer with any messages at any time.

* `ZapServer` is a mechanism of one of the three kinds, and `ZapNet` a server with the messages that
  the handler has sent. The engine does not call it again after a failure, apart from that of
  `next_handshake_command`, and calls `zap_msg_available` when the session is told of a reply.
* `FailsClosed`: a server that has asked, or has to ask, is ready only with the approval of the
  handler, and the user id is that of the reply.
* `zap_frames_closed`: when the frames of a reply are closed.
-/

namespace LibZmq

open PlainServer List
open LibZmq.Core (Exec exists_exec_with step_of_pure)
open Wire (ascii)
open ZapReply (of? parts)

/-! ## Whole messages on the pipe -/

variable {fresh : Prop} {parts parts' : List Bytes} {rest rest' : List ZapFrame}
  {ms ms' : List (List Bytes)}

/-- A message ends at the first frame that no other one follows. -/
theorem zapFrames_append (hparts : parts ≠ []) (hparts' : parts' ≠ [])
    (h : zapFrames parts ++ rest = zapFrames parts' ++ rest') : parts = parts' ∧ rest = rest' := by
  induction parts using zapFrames.induct generalizing parts' with
  | case1 => exact absurd rfl hparts
  | case2 =>
    rcases parts' with _ | ⟨part', _ | ⟨next', parts''⟩⟩
    · exact absurd rfl hparts'
    · cases h
      exact ⟨rfl, rfl⟩
    · cases h
  | case3 _ _ _ ih =>
    rcases parts' with _ | ⟨part', _ | ⟨next', parts''⟩⟩
    · exact absurd rfl hparts'
    · cases h
    · simp only [zapFrames, cons_append, cons.injEq, ZapFrame.mk.injEq, true_and] at h
      obtain ⟨hsame, hrest⟩ := ih (cons_ne_nil _ _) (cons_ne_nil next' parts'') h.2
      exact ⟨by rw [h.1, hsame], hrest⟩

theorem exists_last_frame (h : parts ≠ []) : ∃ f ∈ zapFrames parts, f.more = false := by
  induction parts using zapFrames.induct with
  | case1 => exact absurd rfl h
  | case2 => exact ⟨_, .head _, rfl⟩
  | case3 _ _ _ ih =>
    obtain ⟨f, hf, hlast⟩ := ih (cons_ne_nil _ _)
    exact ⟨f, .tail _ hf, hlast⟩

/-- The pipe holds whole messages that the handler has sent. -/
def WholeMessages (answered : List (List Bytes)) (inbox : List ZapFrame) : Prop :=
  ∃ msgs : List (List Bytes), (∀ m ∈ msgs, m ∈ answered ∧ m ≠ []) ∧
    inbox = msgs.flatMap zapFrames

namespace WholeMessages

variable {answered answered' : List (List Bytes)} {inbox : List ZapFrame}

section
variable (h : WholeMessages answered inbox)
include h

theorem mono (hsub : answered ⊆ answered') : WholeMessages answered' inbox := by
  obtain ⟨msgs, hmsgs, hinbox⟩ := h
  exact ⟨msgs, fun m hm => ⟨hsub (hmsgs m hm).1, (hmsgs m hm).2⟩, hinbox⟩

theorem arrive (answers : List (List Bytes)) :
    WholeMessages (answered ++ answers) (inbox ++ answers.flatMap zapFrames) := by
  obtain ⟨msgs, hmsgs, rfl⟩ := h
  refine ⟨msgs ++ answers.filter (· ≠ []), fun m hm => ?_, ?_⟩
  · rcases mem_append.mp hm with hm | hm
    · exact ⟨mem_append_left _ (hmsgs m hm).1, (hmsgs m hm).2⟩
    · obtain ⟨hm, hne⟩ := mem_filter.mp hm
      exact ⟨mem_append_right _ hm, of_decide_eq_true hne⟩
  · rw [flatMap_append]
    congr 1
    -- an empty message has no frames
    induction answers with
    | nil => rfl
    | cons m _ ih =>
      cases m with
      | nil => simpa [zapFrames] using ih
      | cons => simp [ih]

/-- If no frame is the last one, there is none. -/
theorem eq_nil (hmore : ∀ f ∈ inbox, f.more = true) : inbox = [] := by
  obtain ⟨msgs, hmsgs, rfl⟩ := h
  cases msgs with
  | nil => rfl
  | cons m =>
    obtain ⟨f, hf, hlast⟩ := exists_last_frame (hmsgs m (.head _)).2
    have := hmore f (mem_flatMap.mpr ⟨m, .head _, hf⟩)
    rw [hlast] at this
    cases this

end

theorem read (hparts : parts ≠ []) (h : WholeMessages answered (zapFrames parts ++ rest)) :
    parts ∈ answered ∧ WholeMessages answered rest := by
  obtain ⟨msgs, hmsgs, hinbox⟩ := h
  cases msgs with
  | nil =>
    obtain ⟨f, hf, -⟩ := exists_last_frame hparts
    rw [(append_eq_nil_iff.mp hinbox).1] at hf
    cases hf
  | cons m msgs =>
    obtain ⟨rfl, rfl⟩ := zapFrames_append hparts (hmsgs m (.head _)).2 hinbox
    exact ⟨(hmsgs _ (.head _)).1, msgs, fun m hm => hmsgs m (.tail _ hm), rfl⟩

end WholeMessages

/-! ## Before and after the reply -/

/-- The session is told of messages only if it has found the pipe empty. -/
def ZapSession.Wired (s : ZapSession) : Prop := s.inActive = true → s.signalled = false

namespace ZapClient

variable {z z' : ZapClient} {r : ZapReply} {outcome : ZapOutcome}

/-- The well-formed replies that were read. -/
def processed (z : ZapClient) : List ZapReply :=
  z.session.readings.filterMap (ZapReply.of? z.options)

/-- No reply was read yet. If the pipe is `fresh`, no earlier engine has left a part of a message
there. -/
structure Unanswered (fresh : Prop) (ms : List (List Bytes)) (z : ZapClient) : Prop where
  pending : fresh → WholeMessages ms z.session.inbox
  none : z.processed = []
  properties : z.mechanism.zapProperties = []

/-- The reply `r` of the handler is the only one that was read, and its user id is known. -/
structure Answered (fresh : Prop) (ms : List (List Bytes)) (z : ZapClient) (r : ZapReply) :
    Prop where
  sent : fresh → r.parts ∈ ms
  form : r.WellFormed z.options
  only : z.processed = [r]
  status : z.statusCode = r.status
  user : z.mechanism.userId = r.user
  property : z.mechanism.zapProperties.find (ascii "User-Id") = some r.user

/-- `z'` is like `z` as far as ZAP is concerned, except for what is still on the pipe. -/
structure Alike (z z' : ZapClient) : Prop where
  options : z'.options = z.options
  readings : z'.session.readings = z.session.readings
  statusCode : z'.statusCode = z.statusCode
  user : z'.mechanism.userId = z.mechanism.userId
  properties : z'.mechanism.zapProperties = z.mechanism.zapProperties

theorem Alike.refl (z : ZapClient) : Alike z z := ⟨rfl, rfl, rfl, rfl, rfl⟩

theorem Alike.processed (h : Alike z z') : z'.processed = z.processed := by
  unfold ZapClient.processed
  rw [h.options, h.readings]

theorem Alike.unanswered (h : Alike z z') (hz : Unanswered fresh ms z)
    (hpending : fresh → WholeMessages ms' z'.session.inbox) : Unanswered fresh ms' z' where
  pending := hpending
  none := h.processed.trans hz.none
  properties := h.properties.trans hz.properties

theorem Alike.answered (h : Alike z z') (hz : Answered fresh ms z r)
    (hsub : ms ⊆ ms') : Answered fresh ms' z' r where
  sent := fun hfresh => hsub (hz.sent hfresh)
  form := by
    rw [h.options]
    exact hz.form
  only := h.processed.trans hz.only
  status := h.statusCode.trans hz.status
  user := h.user.trans hz.user
  property := by
    rw [h.properties]
    exact hz.property

/-- The metadata of the peer has nothing to do with ZAP. -/
theorem Alike.parseMetadata (z : ZapClient) (o : Options) (bytes : Bytes) :
    Alike z { z with mechanism := (z.mechanism.parseMetadata o false bytes).2 } :=
  ⟨rfl, rfl, rfl, (Mechanism.parseMetadata_zmtp _ _).1, (Mechanism.parseMetadata_zmtp _ _).2⟩

/-- The user id of a reply is known once the reply is processed. -/
theorem userId_of_reply (m : Mechanism) (hempty : m.zapProperties = []) (user metadata : Bytes) :
    ((m.setUserId user).parseMetadata o true metadata).2.userId = user ∧
      ((m.setUserId user).parseMetadata o true metadata).2.zapProperties.find (ascii "User-Id") =
        some user := by
  refine Mechanism.parseMetadata_keeps
    (P := fun m => m.userId = user ∧ m.zapProperties.find (ascii "User-Id") = some user)
    (fun m _ _ _ hm htake => ?_) ⟨rfl, ?_⟩ metadata
  · unfold Mechanism.takeProperty Mechanism.store at htake
    split at htake
    · cases htake
      exact ⟨hm.1, Properties.find_emplace hm.2⟩
    split at htake
    · split at htake
      · cases htake
        exact ⟨hm.1, Properties.find_emplace hm.2⟩
      · cases htake
    · cases htake
      exact ⟨hm.1, Properties.find_emplace hm.2⟩
  · rw [Mechanism.setUserId, hempty]
    rfl

/-- A request that is sent, and what the handler answers at once. -/
theorem sendZapRequest_spec {session : ZapSession}
    (hconnect : z.session.zapConnect handler = some session) (mechanism : Bytes)
    (credentials : List Bytes) :
    let z' := sendZapRequest { z with session } handler mechanism credentials
    Alike z z' ∧ z'.session.inbox = z.session.inbox ++ handler.answers.flatMap zapFrames ∧
      z'.session.connected = true ∧ (z.session.Wired → z'.session.Wired) := by
  unfold ZapSession.zapConnect at hconnect
  split at hconnect
  · cases hconnect
    simp only [sendZapRequest, ZapSession.arrive, if_true]
    refine ⟨⟨rfl, rfl, rfl, rfl, rfl⟩, trivial, trivial, fun hwired hactive => ?_⟩
    simp [hwired hactive, show z.session.inActive = true from hactive]
  · cases hconnect

theorem of?_eq_none_of_more {o : Options} {fs : List ZapFrame}
    (hmore : ∀ f ∈ fs, f.more = true) : of? o fs = none := by
  refine of?_eq_none_of_frames fun r hr _ => ?_
  obtain ⟨f, hf, hlast⟩ := exists_last_frame (show r.parts ≠ [] from nofun)
  rw [← hr] at hf
  have := hmore f hf
  rw [hlast] at this
  cases this

/-- A reading that found no reply. -/
theorem Unanswered.leave (hz : Unanswered fresh ms z) {session : ZapSession} {taken : List ZapFrame}
    (closed : List Nat) (hreadings : session.readings = z.session.readings)
    (htaken : of? z.options taken = .none) (hpending : fresh → WholeMessages ms session.inbox) :
    Unanswered fresh ms (z.leave session taken closed) := by
  refine ⟨hpending, ?_, hz.properties⟩
  unfold ZapClient.processed ZapClient.leave
  simp only [hreadings, filterMap_append]
  refine (congrArg (· ++ _) hz.none).trans ?_
  simp [htaken]

/-- **One reading**: a well-formed reply of the handler, nothing at all, or a failure. -/
theorem Received.closed (hreceived : z.Received outcome z') (hz : Unanswered fresh ms z) :
    (outcome = .processed ∧ ∃ r, Answered fresh ms z' r) ∨
      (outcome = .again ∧ Unanswered fresh ms z') ∨ ∃ e, outcome = .failed e := by
  cases hreceived with
  | processed hinbox hform =>
    rename_i r rest
    have hpending := hz.pending
    rw [hinbox] at hpending
    have hreply : of? z.options (zapFrames r.parts) = some r :=
      ZapReply.of?_eq_some.mpr ⟨rfl, hform⟩
    obtain ⟨huser, hproperty⟩ := userId_of_reply z.mechanism hz.properties r.user r.metadata
    refine .inl ⟨rfl, r, fun hfresh => ?_, hform, ?_, rfl, huser, hproperty⟩
    · exact ((hpending hfresh).read (show r.parts ≠ [] from nofun)).1
    · unfold ZapClient.processed ZapClient.leave
      simp only [filterMap_append]
      refine (congrArg (· ++ _) hz.none).trans ?_
      simp [hreply]
  | again hmore =>
    exact .inr (.inl ⟨rfl, hz.leave _ rfl (of?_eq_none_of_more hmore) fun _ => ⟨[], nofun, rfl⟩⟩)
  | asleep => exact .inr (.inl ⟨rfl, hz.leave _ rfl rfl hz.pending⟩)
  | unconnected | failed => exact .inr (.inr ⟨_, rfl⟩)

theorem Received.wired (hreceived : z.Received outcome z') (h : z.session.Wired) :
    z'.session.Wired := by
  cases hreceived with
  | again => nofun
  | processed | asleep | unconnected | failed => exact h

/-- A failure does not put the pipe to sleep. -/
theorem Received.awake (hreceived : z.Received (.failed e) z')
    (hconnected : z.session.connected = true) : z'.session.inActive = true := by
  cases hreceived with
  | unconnected hnot =>
    rw [hconnected] at hnot
    cases hnot
  | failed _ _ _ hactive => exact hactive

end ZapClient

/-! ## PLAIN and CURVE -/

namespace ZapHandshake

variable {ms : List (List Bytes)} {h h' : ZapHandshake} {outcome : ZapOutcome}

/-- After a reading: it has failed, or the server is still waiting, or has got the approval, or has
given up. -/
inductive Closed (fresh : Prop) (ms : List (List Bytes)) (okState : ServerState)
    (outcome : ZapOutcome) (h : ZapHandshake) : Prop where
  | refused {e : HandshakeErrno} (hout : outcome = .failed e)
      (hstate : h.state = .waitingForZapReply)
  | waiting (hzap : h.zap.Unanswered fresh ms) (hstate : h.state = .waitingForZapReply)
  | approved {r : ZapReply} (hzap : h.zap.Answered fresh ms r) (hstatus : r.status = ascii "200")
      (hstate : h.state = okState)
  | denied (hstate : h.state = .errorSent ∨ h.state = .sendingError)

theorem receive_closed (hcall : h.receiveAndProcessZapReply = .ok (outcome, h'))
    (hzap : h.zap.Unanswered fresh ms) : Closed fresh ms h.zapReplyOkState outcome h' := by
  obtain ⟨-, hreceived, -, hnext⟩ := receive_spec hcall
  rcases hreceived.closed hzap with ⟨rfl, r, hr⟩ | ⟨rfl, hzap'⟩ | ⟨e, rfl⟩
  · have hstate := (hnext.resolve_right fun h => h.1 rfl).2
    rcases handleZapStatusCode_state (h := { h with zap := h'.zap }) hr.status hr.form.1 with
      ⟨hstatus, hok⟩ | ⟨-, hdenied⟩
    · exact .approved hr hstatus (hstate.trans hok)
    · rw [← hstate] at hdenied
      exact .denied hdenied
  · exact .waiting hzap' (hnext.resolve_left fun h => nomatch h.1).2
  · exact .refused rfl (hnext.resolve_left fun h => nomatch h.1).2

/-- The metadata of the peer is read after the reply. -/
theorem Closed.alike (hclosed : Closed fresh ms okState outcome h)
    (halike : h.zap.Alike h'.zap) (hinbox : h'.zap.session.inbox = h.zap.session.inbox)
    (hstate : h'.state = h.state) : Closed fresh ms okState outcome h' := by
  cases hclosed with
  | refused hout hst => exact .refused hout (hstate.trans hst)
  | waiting hzap hst =>
    exact .waiting (halike.unanswered hzap (by rw [hinbox]; exact hzap.pending)) (hstate.trans hst)
  | approved hzap hstatus hst =>
    exact .approved (halike.answered hzap (fun _ => id)) hstatus (hstate.trans hst)
  | denied => exact .denied (by rwa [hstate])

end ZapHandshake

/-! ## A server of any kind -/

def ServerCall.map (f : ι → κ) : ServerCall ι → ServerCall κ
  | .next input => .next (f input)
  | .process msg handler => .process msg handler
  | .zapMsgAvailable => .zapMsgAvailable

/-- A server mechanism. -/
inductive ZapServer where
  | null (m : NullMechanism)
  | plain (m : PlainServer)
  | curve (m : CurveServer)

namespace ZapServer

/-- The part of a server that talks to the ZAP handler. -/
def zap : ZapServer → ZapClient
  | .null m => m.zap
  | .plain m => m.handshake.zap
  | .curve m => m.handshake.zap

def status : ZapServer → MechanismStatus
  | .null m => m.status
  | .plain m => m.handshake.status
  | .curve m => m.status

/-- The session of a server changes. -/
def setSession (session : ZapSession) : ZapServer → ZapServer
  | .null m => .null { m with zap := { m.zap with session } }
  | .plain m =>
      .plain { m with handshake := { m.handshake with zap := { m.handshake.zap with session } } }
  | .curve m => .curve (m.setSession session)

/-- Every mechanism gets what it needs: the random bytes are for CURVE, and NULL asks the handler
in `next_handshake_command`. -/
def perform (nacl : Nacl) : ZapServer → ServerCall (WelcomeRandom × ZapHandler) →
    Except MechanismFault (Rc × ZapServer)
  | .null m, c => (m.perform (c.map Prod.snd)).map fun r => (r.1, .null r.2)
  | .plain m, c => (m.perform (c.map fun _ => ())).map fun r => (r.1, .plain r.2)
  | .curve m, c => (m.perform nacl (c.map Prod.fst)).map fun r => (r.1, .curve r.2)

/-- A server that was just created. -/
inductive New (options : Options) (peerAddress : Bytes) : ZapServer → Prop where
  | null : New options peerAddress (.null (.new options peerAddress))
  | plain {m : PlainServer} (h : PlainServer.new options peerAddress = .ok m) :
      New options peerAddress (.plain m)
  | curve (secretKey cnPublic cnSecret : Block 32) :
      New options peerAddress (.curve (.new options peerAddress secretKey cnPublic cnSecret))

/-- The peer must not be let in without the ZAP handler: the mechanism is PLAIN, the handler was
asked, or a domain is set and enforced. -/
def NeedsZap : ZapServer → Prop
  | .plain _ => True
  | s => s.zap.session.requests ≠ [] ∨
      (s.zap.options.zapEnforceDomain = true ∧ s.zap.options.zapDomain ≠ [])

end ZapServer

/-- What the ZAP handler sends during a call. -/
def ServerCall.answers : ServerCall (WelcomeRandom × ZapHandler) → List (List Bytes)
  | .next (_, handler) | .process _ handler => handler.answers
  | .zapMsgAvailable => []

/-- A server, what the ZAP handler has sent, whether a call has failed so that the engine has given
up, and the fault that has ended the run. -/
structure ZapNet where
  server : ZapServer
  answered : List (List Bytes)
  stopped : Bool
  fault : Option MechanismFault

namespace ZapNet

def session (n : ZapNet) : ZapSession := n.server.zap.session

def next (nacl : Nacl) (n : ZapNet) : ServerAct (WelcomeRandom × ZapHandler) → ZapNet
  | .call c =>
      match n.server.perform nacl c with
      | .error f => { n with fault := some f }
      | .ok (rc, s) =>
          { n with server := s, answered := n.answered ++ c.answers, stopped := c.fatal rc }
  | .arrive answers =>
      { n with server := n.server.setSession (n.session.arrive answers),
               answered := n.answered ++ answers }
  | .hangUp => { n with server := n.server.setSession n.session.hangUp }

/-- A fault ends the run. The engine calls the mechanism as long as no call has failed, and
`zap_msg_available` when the pipe is activated. -/
def Enabled (n : ZapNet) (a : ServerAct (WelcomeRandom × ZapHandler)) : Prop :=
  n.fault = none ∧
    match a with
    | .call c => n.stopped = false ∧ (c = .zapMsgAvailable → n.session.signalled = true)
    | .arrive _ | .hangUp => True

def Step (nacl : Nacl) (n : ZapNet) (a : ServerAct (WelcomeRandom × ZapHandler)) (n' : ZapNet) :
    Prop :=
  n.Enabled a ∧ n.next nacl a = n'

end ZapNet

/-! ## The invariant -/

/-- What is known about a server with the mechanism NULL. -/
structure NullMechanism.Trail (fresh : Prop) (ms : List (List Bytes)) (m : NullMechanism) :
    Prop where
  before : m.zapReplyReceived = false → m.zap.Unanswered fresh ms
  after : m.zapReplyReceived = true → ∃ r, m.zap.Answered fresh ms r
  approved : m.readyCommandSent = true → m.zapReplyReceived = true →
    m.zap.session.requests ≠ [] ∨
      (m.zap.options.zapRequired = true ∧ m.zap.options.zapEnforceDomain = true) →
    m.zap.statusCode = ascii "200"
  free : m.readyCommandSent = true → m.zapReplyReceived = false → m.zap.session.requests = [] ∧
    ¬ (m.zap.options.zapRequired = true ∧ m.zap.options.zapEnforceDomain = true)
  required : m.zapRequestSent = true → m.zap.options.zapRequired = true
  unsent : m.zapRequestSent = false → m.zap.session.requests = []
  wired : m.zap.session.Wired

/-- The reply was refused by `next_handshake_command`, which does not end the connection. The
request was sent, so that no other one is, and the pipe was not found empty, so that the session is
not told of another reply. -/
structure NullMechanism.Deaf (m : NullMechanism) : Prop where
  sent : m.zapRequestSent = true
  required : m.zap.options.zapRequired = true
  unreplied : m.zapReplyReceived = false
  unready : m.readyCommandSent = false
  active : m.zap.session.inActive = true
  quiet : m.zap.session.signalled = false

/-- The parts of a handshake: before the request, waiting for the reply, after it, and failed. -/
inductive Phase where
  | early
  | waiting
  | late
  | failed
deriving DecidableEq

namespace ZapHandshake

/-- PLAIN asks the handler after HELLO, and CURVE after INITIATE. -/
def phase (okState : ServerState) : ServerState → Phase
  | .waitingForHello => .early
  | .sendingWelcome | .waitingForInitiate =>
      if okState = .sendingWelcome then .late else .early
  | .waitingForZapReply => .waiting
  | .sendingReady | .ready => .late
  | .sendingError | .errorSent => .failed

/-- What is known about a server with the mechanism PLAIN or CURVE. -/
def OnTrail (fresh : Prop) (ms : List (List Bytes)) (okState : ServerState)
    (h : ZapHandshake) : Prop :=
  h.zapReplyOkState = okState ∧
    match phase okState h.state with
    | .early => h.zap.Unanswered fresh ms ∧ h.zap.session.requests = []
    | .waiting => h.zap.Unanswered fresh ms
    | .late =>
        okState = .sendingWelcome ∨ h.zap.session.requests ≠ [] ∨
            (h.zap.options.zapRequired = true ∧ h.zap.options.zapEnforceDomain = true) →
          ∃ r, h.zap.Answered fresh ms r ∧ r.status = ascii "200"
    | .failed => True

/-- The server is where it should be, or it has stopped before it was ready. -/
def Sound (fresh : Prop) (ms : List (List Bytes)) (okState : ServerState) (stopped : Bool)
    (h : ZapHandshake) : Prop :=
  h.OnTrail fresh ms okState ∨ h.state ≠ .ready ∧ stopped = true

end ZapHandshake

def ZapServer.Trail (fresh : Prop) (ms : List (List Bytes)) : ZapServer → Prop
  | .null m => m.Trail fresh ms
  | .plain m => m.handshake.OnTrail fresh ms .sendingWelcome
  | .curve m => m.handshake.OnTrail fresh ms .sendingReady

def ZapServer.Deaf : ZapServer → Prop
  | .null m => m.Deaf
  | _ => False

/-- A server is where it should be, or it has stopped or will never be ready. -/
def ZapServer.Sound (fresh : Prop) (ms : List (List Bytes)) (stopped : Bool)
    (s : ZapServer) : Prop :=
  s.Trail fresh ms ∨ (s.status = .ready → ¬ s.NeedsZap) ∧ (stopped = true ∨ s.Deaf)

open ZapServer (Sound)
open ZapHandshake (Closed)

namespace NullMechanism

variable {m m' : NullMechanism} {stopped : Bool}

/-- A call that has nothing to do with the ZAP handler. -/
theorem Trail.alike (h : m.Trail fresh ms) (halike : m.zap.Alike m'.zap)
    (hpending : WholeMessages ms m.zap.session.inbox → WholeMessages ms' m'.zap.session.inbox)
    (hrequests : m'.zap.session.requests = m.zap.session.requests)
    (hwired : m.zap.session.Wired → m'.zap.session.Wired)
    (hsub : ms ⊆ ms') (hsent : m'.readyCommandSent = m.readyCommandSent)
    (hrequest : m'.zapRequestSent = m.zapRequestSent)
    (hreply : m'.zapReplyReceived = m.zapReplyReceived) : m'.Trail fresh ms' where
  before := fun hnot => by
    have hz := h.before (hreply.symm.trans hnot)
    exact halike.unanswered hz fun hfresh => hpending (hz.pending hfresh)
  after := fun hyes => by
    obtain ⟨r, hr⟩ := h.after (hreply.symm.trans hyes)
    exact ⟨r, halike.answered hr hsub⟩
  approved := by
    rw [hsent, hreply, hrequests, halike.options, halike.statusCode]
    exact h.approved
  free := by
    rw [hsent, hreply, hrequests, halike.options]
    exact h.free
  required := by
    rw [hrequest, halike.options]
    exact h.required
  unsent := by
    rw [hrequest, hrequests]
    exact h.unsent
  wired := hwired h.wired

/-- READY is sent without the ZAP handler, or with its approval. -/
theorem Trail.produce (h : m.Trail fresh ms)
    (hfree : m.zapReplyReceived = false → m.zap.session.requests = [] ∧
      ¬ (m.zap.options.zapRequired = true ∧ m.zap.options.zapEnforceDomain = true))
    (hproduce : m.produce = .ok r) : r.2.Trail fresh ms := by
  unfold NullMechanism.produce at hproduce
  split at hproduce
  · dsimp only at hproduce
    split at hproduce <;> cases hproduce <;>
      exact { h with }
  rename_i hnot
  obtain ⟨-, -, ⟨⟩⟩ := bind_ok hproduce
  refine { h with approved := fun _ hreply _ => ?_, free := fun _ hreply => hfree hreply }
  by_contra hother
  exact hnot ⟨hreply, hother⟩

theorem Trail.mono (h : m.Trail fresh ms) (hsub : ms ⊆ ms') : m.Trail fresh ms' :=
  h.alike (.refl _) (·.mono hsub) rfl id hsub rfl rfl rfl

theorem sent_of_ready (hready : m.status = .ready) : m.readyCommandSent = true := by
  unfold status at hready
  split at hready
  · simp_all
  · split at hready <;> cases hready

/-- The first reading that does not fail. -/
theorem Trail.received {outcome : ZapOutcome} {zap : ZapClient} (h : m.Trail fresh ms)
    (hreply : m.zapReplyReceived = false) (hreceived : m.zap.Received outcome zap) :
    (outcome = .processed → Trail fresh ms { m with zap, zapReplyReceived := true }) ∧
    (outcome = .again → Trail fresh ms { m with zap }) := by
  obtain ⟨hoptions, -, hrequests⟩ := hreceived.same
  have hfree := fun hsent => h.free hsent hreply
  have hrequired := h.required
  have hunsent := h.unsent
  rw [← hoptions, ← hrequests] at hfree
  rw [← hoptions] at hrequired
  rw [← hrequests] at hunsent
  have hunreplied : m.zapReplyReceived ≠ true := by simp [hreply]
  rcases hreceived.closed (h.before hreply) with ⟨rfl, r, hr⟩ | ⟨rfl, hz⟩ | ⟨e, rfl⟩
  · refine ⟨fun _ => ⟨nofun, fun _ => ⟨r, hr⟩, fun hsent _ hneeds => ?_, nofun, hrequired, hunsent,
      hreceived.wired h.wired⟩, nofun⟩
    -- READY was sent without a reply, as none was needed
    rcases hneeds with hasked | hneeded
    · exact absurd (hfree hsent).1 hasked
    · exact absurd hneeded (hfree hsent).2
  · exact ⟨nofun, fun _ => ⟨fun _ => hz, fun h => absurd h hunreplied,
      fun _ h => absurd h hunreplied, fun hsent _ => hfree hsent, hrequired, hunsent,
      hreceived.wired h.wired⟩⟩
  · exact ⟨nofun, nofun⟩

theorem Trail.next (h : m.Trail fresh ms) (hcall : m.nextHandshakeCommand handler = .ok r) :
    Sound fresh (ms ++ handler.answers) stopped (.null r.2) := by
  have hsub : ms ⊆ ms ++ handler.answers := subset_append_left _ _
  unfold nextHandshakeCommand at hcall
  split at hcall
  · cases hcall
    exact .inl (h.mono hsub)
  rename_i hnotSent
  have hsent : m.readyCommandSent = false := by
    simp only [Bool.or_eq_true, not_or, Bool.not_eq_true] at hnotSent
    exact hnotSent.1
  have hunready : m.readyCommandSent ≠ true := by simp [hsent]
  split at hcall
  · rename_i hask
    simp only [Bool.and_eq_true, Bool.not_eq_true'] at hask
    split at hcall
    · cases hcall
      exact .inl (h.mono hsub)
    rename_i hrequest
    split at hcall
    · split at hcall
      · cases hcall
        exact .inl (h.mono hsub)
      rename_i henforce
      have hnone := h.unsent (by simpa using hrequest)
      exact .inl ((h.produce (fun _ => ⟨hnone, fun hboth => henforce hboth.2⟩) hcall).mono hsub)
    rename_i session hconnect
    obtain ⟨halike, hinbox, hconnected, hwired⟩ :=
      ZapClient.sendZapRequest_spec hconnect (ascii "NULL") []
    have hrequired := hask.1
    rw [← halike.options] at hrequired
    have hz := halike.unanswered (h.before hask.2) fun hfresh => by
      rw [hinbox]
      exact ((h.before hask.2).pending hfresh).arrive handler.answers
    -- the request is sent, and no reply was read
    have hasked : Trail fresh (ms ++ handler.answers)
        { m with zap := _, zapRequestSent := true } :=
      ⟨fun _ => hz, fun hyes => by simp [hask.2] at hyes, fun h => absurd h hunready,
        fun h => absurd h hunready, fun _ => hrequired, nofun, hwired h.wired⟩
    have hreceived := ZapClient.received (ZapClient.sendZapRequest
      { m.zap with session } handler (ascii "NULL") [])
    obtain ⟨hprocessed, hagain⟩ := hasked.received hask.2 hreceived
    dsimp only at hcall
    split at hcall
    · rename_i zap hreceive
      rw [hreceive] at hprocessed
      exact .inl ((hprocessed rfl).produce nofun hcall)
    · rename_i zap hreceive
      rw [hreceive] at hagain
      cases hcall
      exact .inl (hagain rfl)
    · rename_i e zap hreceive
      rw [hreceive] at hreceived
      cases hcall
      have hactive := hreceived.awake hconnected
      exact .inr ⟨fun h => absurd (sent_of_ready h) hunready, .inr ⟨rfl,
        hreceived.same.1 ▸ hrequired, hask.2, hsent, hactive,
        hreceived.wired (hwired h.wired) hactive⟩⟩
  · rename_i hask
    simp only [Bool.and_eq_true, Bool.not_eq_true', not_and, Bool.not_eq_false] at hask
    have hfree : m.zapReplyReceived = false → m.zap.options.zapRequired ≠ true := by
      intro hreply hreq
      rw [hask hreq] at hreply
      cases hreply
    refine .inl ((h.produce (fun hreply => ⟨h.unsent (Bool.eq_false_iff.mpr fun hrequest => ?_),
      fun hboth => hfree hreply hboth.1⟩) hcall).mono hsub)
    exact hfree hreply (h.required hrequest)

/-- What a peer sends changes nothing that has to do with the ZAP handler. -/
theorem process_same (m : NullMechanism) (msg : Bytes) :
    let m' := (m.processHandshakeCommand msg).2
    m.zap.Alike m'.zap ∧ m'.zap.session = m.zap.session ∧
      m'.readyCommandSent = m.readyCommandSent ∧ m'.zapRequestSent = m.zapRequestSent ∧
      m'.zapReplyReceived = m.zapReplyReceived := by
  unfold processHandshakeCommand processErrorCommand
  split
  · exact ⟨.refl _, rfl, rfl, rfl, rfl⟩
  split
  · exact ⟨.parseMetadata _ _ _, rfl, rfl, rfl, rfl⟩
  split
  · split
    · exact ⟨.refl _, rfl, rfl, rfl, rfl⟩
    · split <;> exact ⟨.refl _, rfl, rfl, rfl, rfl⟩
  · exact ⟨.refl _, rfl, rfl, rfl, rfl⟩

theorem Trail.process (h : m.Trail fresh ms) (hsub : ms ⊆ ms') (msg : Bytes) :
    Trail fresh ms' (m.processHandshakeCommand msg).2 := by
  obtain ⟨halike, hsession, hsent, hrequest, hreply⟩ := m.process_same msg
  exact h.alike halike (fun hp => hsession ▸ hp.mono hsub) (by rw [hsession])
    (fun hwired => hsession ▸ hwired) hsub hsent hrequest hreply

/-- READY is sent without a reply only if none is needed. -/
theorem Trail.needless (h : m.Trail fresh ms) (hreply : m.zapReplyReceived = false)
    (hready : m.status = .ready) : ¬ ZapServer.NeedsZap (.null m) := by
  obtain ⟨hnone, hfree⟩ := h.free (sent_of_ready hready) hreply
  rintro (hrequests | ⟨henforce, hdomain⟩)
  · exact hrequests hnone
  · exact hfree ⟨(Options.zapRequired_iff _).mpr hdomain, henforce⟩

/-- The failure of `zap_msg_available` ends the connection. -/
theorem Trail.zapMsgAvailable (h : m.Trail fresh ms)
    (hcall : m.perform .zapMsgAvailable = .ok (rc, m')) :
    Sound fresh ms (rc != .ok) (.null m') := by
  obtain rfl : _ = m' := congrArg Prod.snd (Except.ok.inj hcall)
  obtain rfl : _ = rc := congrArg Prod.fst (Except.ok.inj hcall)
  have hactivated : Trail fresh ms { m with zap := m.zap.activate } :=
    h.alike ⟨rfl, rfl, rfl, rfl, rfl⟩ id rfl (fun _ _ => rfl) (fun _ => id) rfl rfl rfl
  unfold NullMechanism.zapMsgAvailable
  split
  · exact .inl hactivated
  rename_i hreply
  have hreply : m.zapReplyReceived = false := by simpa using hreply
  have hreceived := m.zap.activate.received
  obtain ⟨hprocessed, hagain⟩ := hactivated.received hreply hreceived
  dsimp only
  split
  · rename_i zap hreceive
    rw [hreceive] at hprocessed
    exact .inl (hprocessed rfl)
  · rename_i outcome zap hnot hreceive
    rw [hreceive] at hagain hreceived
    cases outcome with
    | processed => exact absurd rfl hnot
    | again => exact .inl (hagain rfl)
    | failed =>
      refine .inr ⟨fun hready hneeds => h.needless hreply hready ?_, .inl rfl⟩
      obtain ⟨hoptions, -, hrequests⟩ := hreceived.same
      have hoptions : zap.options = m.zap.options := hoptions
      exact hneeds.imp (fun hasked hnone => hasked (hrequests.trans hnone)) (hoptions ▸ ·)

section
variable (h : m.Deaf)
include h

theorem Deaf.next (hcall : m.nextHandshakeCommand handler = .ok r) : r.2 = m := by
  unfold nextHandshakeCommand at hcall
  rw [h.required, h.unreplied, h.sent] at hcall
  split at hcall <;> cases hcall <;> rfl

theorem Deaf.process (msg : Bytes) : (m.processHandshakeCommand msg).2.Deaf := by
  obtain ⟨halike, hsession, hsent, hrequest, hreply⟩ := m.process_same msg
  exact ⟨hrequest.trans h.sent, halike.options ▸ h.required, hreply.trans h.unreplied,
    hsent.trans h.unready, hsession ▸ h.active, hsession ▸ h.quiet⟩

end
end NullMechanism

namespace ZapHandshake

variable {h h' : ZapHandshake} {okState : ServerState} {outcome : ZapOutcome} {stopped : Bool}
  {rc : Rc}

theorem OnTrail.alike (hon : h.OnTrail fresh ms okState) (halike : h.zap.Alike h'.zap)
    (hpending : WholeMessages ms h.zap.session.inbox → WholeMessages ms' h'.zap.session.inbox)
    (hrequests : h'.zap.session.requests = h.zap.session.requests) (hsub : ms ⊆ ms')
    (hok : h'.zapReplyOkState = h.zapReplyOkState)
    (hphase : phase okState h'.state = phase okState h.state) : h'.OnTrail fresh ms' okState := by
  obtain ⟨hstate, hon⟩ := hon
  refine ⟨hok.trans hstate, ?_⟩
  have hbefore : h.zap.Unanswered fresh ms → h'.zap.Unanswered fresh ms' := fun hz =>
    halike.unanswered hz fun hfresh => hpending (hz.pending hfresh)
  rw [hphase, hrequests, halike.options]
  cases hp : phase okState h.state with
  | early =>
    rw [hp] at hon
    exact ⟨hbefore hon.1, hon.2⟩
  | waiting =>
    rw [hp] at hon
    exact hbefore hon
  | late =>
    rw [hp] at hon
    intro hneeds
    obtain ⟨r, hr, hstatus⟩ := hon hneeds
    exact ⟨r, halike.answered hr hsub, hstatus⟩
  | failed => trivial

/-- A call that has nothing to do with the ZAP handler. -/
theorem OnTrail.moved (hon : h.OnTrail fresh ms okState) (hsub : ms ⊆ ms') (state : ServerState)
    (hphase : phase okState state = phase okState h.state) :
    OnTrail fresh ms' okState { h with state } :=
  hon.alike (.refl _) (·.mono hsub) rfl hsub rfl hphase

/-- A call that reads from the ZAP handler. -/
theorem Closed.sound (hclosed : Closed fresh ms okState outcome h)
    (hok : h.zapReplyOkState = okState) (hlate : phase okState okState = .late)
    (hstopped : ∀ e, outcome = .failed e → stopped = true) : h.Sound fresh ms okState stopped := by
  cases hclosed with
  | refused hout hstate =>
    refine .inr ⟨?_, hstopped _ hout⟩
    rw [hstate]
    nofun
  | waiting hz hstate =>
    refine .inl ⟨hok, ?_⟩
    rw [hstate]
    exact hz
  | approved hz hstatus hstate =>
    refine .inl ⟨hok, ?_⟩
    rw [hstate, hlate]
    exact fun _ => ⟨_, hz, hstatus⟩
  | denied hstate =>
    refine .inl ⟨hok, ?_⟩
    rcases hstate with hstate | hstate <;> rw [hstate] <;> trivial

/-- The request, and the first reading. -/
theorem OnTrail.ask (hon : h.OnTrail fresh ms okState) (hearly : phase okState h.state = .early)
    (hconnect : h.zap.session.zapConnect handler = some session)
    (hask : h.ask session handler mechanism credentials = .ok (outcome, h')) :
    Closed fresh (ms ++ handler.answers) okState outcome h' ∧ h'.zapReplyOkState = okState := by
  obtain ⟨rfl, hzap⟩ := hon
  rw [hearly] at hzap
  obtain ⟨halike, hinbox, -⟩ := ZapClient.sendZapRequest_spec hconnect mechanism credentials
  refine ⟨receive_closed (h := { h with zap := _, state := .waitingForZapReply }) hask
    (halike.unanswered hzap.1 fun hfresh => ?_), (ask_cases hconnect hask).1.2.2⟩
  rw [hinbox]
  exact (hzap.1.pending hfresh).arrive handler.answers

theorem OnTrail.zapMsgAvailable (hon : h.OnTrail fresh ms okState)
    (hlate : phase okState okState = .late) (hcall : h.zapMsgAvailable = .ok (rc, h')) :
    h'.Sound fresh ms okState (rc != .ok) := by
  obtain ⟨outcome, hreceive, rfl⟩ := zapMsgAvailable_spec hcall
  obtain ⟨hstate, -, hok', -⟩ := receive_spec hreceive
  obtain ⟨rfl, hzap⟩ := hon
  rw [hstate] at hzap
  refine (receive_closed hreceive hzap).sound hok' hlate ?_
  rintro e rfl
  rfl

end ZapHandshake

theorem handshake_ready {h : ZapHandshake} (hready : h.status = .ready) : h.state = .ready := by
  unfold ZapHandshake.status at hready
  split at hready
  · assumption
  · split at hready <;> cases hready

/-- A server is sound if its handshake is. -/
theorem ZapServer.sound_of_handshake {s : ZapServer} {h : ZapHandshake} {stopped : Bool}
    (hsound : h.Sound fresh ms okState stopped) (hstatus : s.status = h.status)
    (htrail : h.OnTrail fresh ms okState → s.Trail fresh ms) : s.Sound fresh ms stopped := by
  rcases hsound with hon | ⟨hstate, hstopped⟩
  · exact .inl (htrail hon)
  · exact .inr ⟨fun hready => absurd (handshake_ready (hstatus.symm.trans hready)) hstate,
      .inl hstopped⟩

namespace PlainServer

variable {m m' : PlainServer} {rc : Rc} {stopped : Bool}
  (hon : m.handshake.OnTrail fresh ms .sendingWelcome)
include hon

theorem sound_next (hsub : ms ⊆ ms') (hcall : m.nextHandshakeCommand = .ok r) :
    r.2.handshake.OnTrail fresh ms' .sendingWelcome := by
  unfold nextHandshakeCommand at hcall
  split at hcall
  · rename_i hstate
    cases hcall
    exact hon.moved hsub .waitingForInitiate (by rw [hstate]; rfl)
  · rename_i hstate
    obtain ⟨-, -, ⟨⟩⟩ := bind_ok hcall
    exact hon.moved hsub .ready (by rw [hstate]; rfl)
  · rename_i hstate
    split at hcall
    · cases hcall
      exact hon.moved hsub .errorSent (by rw [hstate]; rfl)
    · cases hcall
  · cases hcall
    exact hon.moved hsub _ rfl

theorem sound_process (hcall : m.processHandshakeCommand msg handler = .ok (rc, m')) :
    m'.handshake.Sound fresh (ms ++ handler.answers) .sendingWelcome (rc != .ok) := by
  have hsub := subset_append_left ms handler.answers
  have hsame := hon.moved hsub _ rfl
  unfold processHandshakeCommand at hcall
  split at hcall
  · rename_i hstate
    unfold processHello at hcall
    split at hcall
    · cases hcall
      exact .inl hsame
    split at hcall
    · cases hcall
      exact .inl hsame
    split at hcall
    · cases hcall
      exact .inl hsame
    split at hcall
    · cases hcall
      exact .inl hsame
    rename_i session hconnect
    obtain ⟨⟨outcome, handshake⟩, hask, ⟨⟩⟩ := bind_ok hcall
    obtain ⟨hclosed, hok⟩ := hon.ask (by rw [hstate]; rfl) hconnect hask
    refine hclosed.sound hok rfl ?_
    rintro e rfl
    rfl
  · rename_i hstate
    obtain rfl : (m.processInitiate msg).2 = m' := congrArg Prod.snd (Except.ok.inj hcall)
    unfold processInitiate
    split
    · exact .inl hsame
    have halike := ZapClient.Alike.parseMetadata m.handshake.zap m.options (msg.drop 9)
    refine .inl (hon.alike ?_ ?_ ?_ hsub ?_ ?_) <;> dsimp only <;> split
    · exact halike
    · exact halike
    · exact (·.mono hsub)
    · exact (·.mono hsub)
    all_goals first | rfl | rw [hstate]; rfl
  · cases hcall
    exact .inl hsame

end PlainServer

namespace CurveServer

variable {m m' : CurveServer} {rc : Rc}
  (hon : m.handshake.OnTrail fresh ms .sendingReady)
include hon

theorem sound_moved (hsub : ms ⊆ ms') (state : ServerState)
    (hphase : ZapHandshake.phase .sendingReady state =
      ZapHandshake.phase .sendingReady m.handshake.state)
    (hsame : m'.handshake = { m.handshake with state }) :
    m'.handshake.OnTrail fresh ms' .sendingReady := by
  rw [hsame]
  exact hon.moved hsub state hphase

theorem sound_next (hsub : ms ⊆ ms') (hcall : m.perform nacl (.next random) = .ok (rc, m')) :
    m'.handshake.OnTrail fresh ms' .sendingReady := by
  cases perform_next hcall with
  | idle _ hsame => exact sound_moved hon hsub _ rfl hsame
  | welcome hstate hsame =>
    exact sound_moved hon hsub .waitingForInitiate (by rw [hstate]; rfl) hsame
  | ready hstate hsame => exact sound_moved hon hsub .ready (by rw [hstate]; rfl) hsame
  | error hstate hsame => exact sound_moved hon hsub .errorSent (by rw [hstate]; rfl) hsame

/-- INITIATE: the ZAP handler is asked, or need not be asked. -/
theorem sound_authenticate (hstate : m.handshake.state = .waitingForInitiate)
    (hcall : m.authenticate handler clientKey metadata = .ok (rc, m')) :
    m'.handshake.Sound fresh (ms ++ handler.answers) .sendingReady (rc != .ok) := by
  have hsub := subset_append_left ms handler.answers
  have hearly : ZapHandshake.phase .sendingReady m.handshake.state = .early := by
    rw [hstate]
    rfl
  cases authenticate_cases hcall with
  | unreachable => exact .inl (sound_moved hon hsub _ rfl rfl)
  | unasked hfree =>
    obtain ⟨hok, hzap⟩ := hon
    rw [hearly] at hzap
    refine .inl ⟨hok, ?_⟩
    rintro (hplain | hrequests | hneeds)
    · cases hplain
    · exact absurd hzap.2 hrequests
    · exact absurd hneeds hfree
  | failed hconnect hask =>
    obtain ⟨hclosed, hok⟩ := hon.ask hearly hconnect hask
    exact hclosed.sound hok rfl fun _ _ => rfl
  | asked hconnect hask hnot =>
    obtain ⟨hclosed, hok⟩ := hon.ask hearly hconnect hask
    exact Closed.sound (hclosed.alike (.parseMetadata _ _ _) rfl rfl) hok rfl
      fun e he => absurd he (hnot e)

theorem sound_process (hcall : m.processHandshakeCommand nacl msg handler = .ok (rc, m')) :
    m'.handshake.Sound fresh (ms ++ handler.answers) .sendingReady (rc != .ok) := by
  have hsub := subset_append_left ms handler.answers
  unfold processHandshakeCommand at hcall
  split at hcall
  · rename_i hstate
    have hgreeted := processHello_spec nacl m msg
    rw [Except.ok.inj hcall] at hgreeted
    cases hgreeted with
    | refused _ hsame => exact .inl (sound_moved hon hsub _ rfl hsame)
    | accepted _ hsame =>
      exact .inl (sound_moved hon hsub .sendingWelcome (by rw [hstate]; rfl) hsame)
  · rename_i hstate
    rcases processInitiate_cases hcall with ⟨-, base, -, rfl⟩ |
      ⟨_, _, _, _, _, base, -, -, -, -, -, hauth⟩
    · exact .inl (sound_moved hon hsub _ rfl rfl)
    · exact sound_authenticate (m := { m with base }) hon hstate hauth
  · cases hcall
    exact .inl (sound_moved hon hsub _ rfl rfl)

end CurveServer

/-! ## The result -/

namespace ZapServer

variable {nacl : Nacl} {s s' : ZapServer} {rc : Rc} {stopped : Bool}

/-- The session is told of a reply. -/
theorem activated {h : ZapHandshake} (hon : h.OnTrail fresh ms okState) :
    ZapHandshake.OnTrail fresh ms okState { h with zap := h.zap.activate } :=
  hon.alike ⟨rfl, rfl, rfl, rfl, rfl⟩ id rfl (fun _ => id) rfl rfl

/-- A call on a server that is where it should be. -/
theorem Trail.perform (h : s.Trail fresh ms) (hcall : s.perform nacl c = .ok (rc, s')) :
    s'.Sound fresh (ms ++ c.answers) (c.fatal rc) := by
  have hsub := subset_append_left ms c.answers
  cases s with
  | null m =>
    obtain ⟨⟨rc₁, m'⟩, hperform, ⟨⟩⟩ := map_ok hcall
    cases c with
    | next =>
      obtain ⟨r, hnext, ⟨⟩⟩ := map_ok hperform
      exact NullMechanism.Trail.next h hnext
    | process msg =>
      obtain rfl : (m.processHandshakeCommand msg).2 = m' :=
        congrArg Prod.snd (Except.ok.inj hperform)
      exact .inl (NullMechanism.Trail.process h hsub msg)
    | zapMsgAvailable =>
      rw [ServerCall.answers, append_nil]
      exact NullMechanism.Trail.zapMsgAvailable h hperform
  | plain m =>
    obtain ⟨⟨rc₁, m'⟩, hperform, ⟨⟩⟩ := map_ok hcall
    refine sound_of_handshake (h := m'.handshake) ?_ rfl id
    cases c with
    | next =>
      obtain ⟨r, hnext, ⟨⟩⟩ := map_ok hperform
      exact .inl (sound_next h hsub hnext)
    | process => exact sound_process h hperform
    | zapMsgAvailable =>
      obtain ⟨⟨rc₂, handshake⟩, havailable, ⟨⟩⟩ := map_ok hperform
      rw [ServerCall.answers, append_nil]
      exact (activated h).zapMsgAvailable rfl havailable
  | curve m =>
    obtain ⟨⟨rc₁, m'⟩, hperform, ⟨⟩⟩ := map_ok hcall
    refine sound_of_handshake (h := m'.handshake) ?_ rfl id
    cases c with
    | next => exact .inl (CurveServer.sound_next h hsub hperform)
    | process => exact CurveServer.sound_process h hperform
    | zapMsgAvailable =>
      obtain ⟨⟨rc₂, handshake⟩, havailable, ⟨⟩⟩ := map_ok hperform
      rw [ServerCall.answers, append_nil]
      exact (activated h).zapMsgAvailable rfl havailable

/-- A server that does not hear from the handler any more is not told of a reply, and does not go
on without one. -/
theorem Deaf.perform (h : s.Deaf) (hsignal : c = .zapMsgAvailable → s.zap.session.signalled = true)
    (hcall : s.perform nacl c = .ok (rc, s')) : s'.Deaf := by
  cases s with
  | null m =>
    obtain ⟨⟨rc₁, m'⟩, hperform, ⟨⟩⟩ := map_ok hcall
    cases c with
    | next =>
      obtain ⟨r, hnext, ⟨⟩⟩ := map_ok hperform
      rw [NullMechanism.Deaf.next h hnext]
      exact h
    | process msg =>
      obtain rfl : (m.processHandshakeCommand msg).2 = m' :=
        congrArg Prod.snd (Except.ok.inj hperform)
      exact NullMechanism.Deaf.process h msg
    | zapMsgAvailable => exact absurd (hsignal rfl) (by simp [zap, h.quiet])
  | plain | curve => exact h.elim

/-- What happens on the pipe to the ZAP handler between the calls. -/
theorem Sound.setSession {session : ZapSession} (h : s.Sound fresh ms stopped) (hsub : ms ⊆ ms')
    (hpending : WholeMessages ms s.zap.session.inbox → WholeMessages ms' session.inbox)
    (hrequests : session.requests = s.zap.session.requests)
    (hreadings : session.readings = s.zap.session.readings)
    (hwired : s.zap.session.Wired → session.Wired)
    (hactive : s.zap.session.inActive = true → session.inActive = true) :
    (s.setSession session).Sound fresh ms' stopped := by
  have halike : s.zap.Alike (s.setSession session).zap := by
    cases s <;> exact ⟨rfl, hreadings, rfl, rfl, rfl⟩
  rcases h with htrail | ⟨hready, hstopped⟩
  · cases s with
    | null =>
      exact .inl
        (NullMechanism.Trail.alike htrail halike hpending hrequests hwired hsub rfl rfl rfl)
    | plain | curve => exact .inl (htrail.alike halike hpending hrequests hsub rfl rfl)
  · refine .inr ⟨fun hstatus hneeds => ?_, hstopped.imp_right fun hdeaf => ?_⟩
    · cases s with
      | null | curve =>
        exact hready hstatus
          (hneeds.imp_left fun hasked hnone => hasked (hrequests.trans hnone))
      | plain => exact hready hstatus trivial
    · cases s with
      | null =>
        have hawake := hactive hdeaf.active
        exact { hdeaf with active := hawake, quiet := hwired (fun _ => hdeaf.quiet) hawake }
      | plain | curve => exact hdeaf.elim

end ZapServer

/-- What a new mechanism finds: no pipe, or the pipe that an earlier engine of the session has left.
Requests and readings are those of this mechanism. -/
structure ZapSession.Found (s : ZapSession) : Prop where
  wired : s.Wired
  requests : s.requests = []
  readings : s.readings = []

namespace ZapNet

variable {nacl : Nacl} {n n' : ZapNet}

theorem sound_new {options : Options} {peerAddress : Bytes} {s : ZapServer}
    {session : ZapSession} (h : s.New options peerAddress) (hfound : session.Found) :
    (s.setSession session).Sound (session = .new) [] false := by
  have hz : ZapClient.Unanswered (session = .new) []
      { ZapClient.new options peerAddress with session } := by
    refine ⟨fun hfresh => ⟨[], nofun, ?_⟩, ?_, rfl⟩
    · rw [hfresh]
      rfl
    · unfold ZapClient.processed
      rw [hfound.readings]
      rfl
  cases h with
  | null =>
    exact .inl ⟨fun _ => hz, nofun, nofun, nofun, nofun, fun _ => hfound.requests, hfound.wired⟩
  | plain hnew =>
    unfold new at hnew
    split at hnew
    · cases hnew
    · cases hnew
      exact .inl ⟨rfl, hz, hfound.requests⟩
  | curve => exact .inl ⟨rfl, hz, hfound.requests⟩

open CurveClientNet (sampleOptions)
open CurveServerNet (sampleRandom)

/-- A reply that approves of the user `joe`. -/
def sampleReply : ZapReply := ⟨ascii "200", [], ascii "joe", []⟩

instance (n : ZapNet) (a : ServerAct (WelcomeRandom × ZapHandler)) : Decidable (n.Enabled a) := by
  unfold Enabled
  cases a <;> exact inferInstance

end ZapNet

/-! ## The frames of a reply are closed -/

namespace ZapClient

open CurveClientNet (sampleOptions)
open ZapNet (sampleReply)

/-- The loop stops with the first frame that has another flag than the one expected, at the latest
with the last frame of a message: it reads one message, or the beginning of it. -/
theorem readFrames_message (k : Nat) {parts : List Bytes} (hparts : parts ≠ [])
    {s : ZapSession} (hconnected : s.connected = true) (hactive : s.inActive = true)
    (hinbox : s.inbox = zapFrames parts ++ rest) :
    let r := readFrames (replicate k true ++ [false]) s
    r.taken = (zapFrames parts).take (k + 1) ∧
      r.session.inbox = (zapFrames parts).drop (k + 1) ++ rest := by
  induction k generalizing parts s with
  | zero =>
    rcases parts with _ | ⟨part, _ | ⟨part', parts⟩⟩
    · exact absurd rfl hparts
    all_goals simp [readFrames, ZapSession.readZapMsg, hconnected, hactive, hinbox, zapFrames]
  | succ k ih =>
    rcases parts with _ | ⟨part, _ | ⟨part', parts⟩⟩
    · exact absurd rfl hparts
    · simp [replicate_succ, readFrames, ZapSession.readZapMsg, hconnected, hactive, hinbox,
        zapFrames]
    · have hrest := @ih (part' :: parts) (cons_ne_nil _ _)
        { s with inbox := zapFrames (part' :: parts) ++ rest } hconnected hactive rfl
      simpa [replicate_succ, readFrames, ZapSession.readZapMsg, hconnected, hactive, hinbox,
        zapFrames] using hrest

/-- **Frames are closed once** by a call that finds nothing, reads a message of one frame, or
processes a reply, and by no other one. The next call then starts with the first frame of a
message. -/
theorem zap_frames_closed {z z' : ZapClient} {outcome : ZapOutcome}
    (answered : List (List Bytes)) (h : WholeMessages answered z.session.inbox)
    (hcall : z.receiveAndProcessZapReply = (outcome, z')) :
    (∃ taken closed, z'.session.readings = z.session.readings ++ [taken] ∧
      z'.session.closes = z.session.closes ++ [closed] ∧
      (∀ i < taken.length, closed.count i = 1) ∧ WholeMessages answered z'.session.inbox) ↔
    z.session.connected = false ∨ z.session.inActive = false ∨ z.session.inbox = [] ∨
      ∃ parts rest, z.session.inbox = zapFrames parts ++ rest ∧
        (parts.length = 1 ∨ ∃ r : ZapReply, parts = r.parts ∧ r.WellFormed z.options) := by
  have hreceived := z.received
  rw [hcall] at hreceived
  cases hreceived with
  | processed hinbox hform =>
    refine iff_of_true ⟨_, _, rfl, rfl, ?_, ?_⟩
      (.inr (.inr (.inr ⟨_, _, hinbox, .inr ⟨_, rfl, hform⟩⟩)))
    · intro i hi
      exact count_eq_one_of_mem nodup_range (mem_range.mpr hi)
    · rw [hinbox] at h
      exact (h.read (show parts _ ≠ [] from nofun)).2
  | again hmore =>
    have hnil := h.eq_nil hmore
    rw [hnil]
    exact iff_of_true ⟨_, _, rfl, rfl, nofun, [], nofun, rfl⟩ (.inr (.inr (.inl rfl)))
  | asleep hactive =>
    exact iff_of_true ⟨_, _, rfl, rfl, nofun, h⟩ (.inr (.inl hactive))
  | unconnected hconnected =>
    exact iff_of_true ⟨_, _, rfl, rfl, nofun, h⟩ (.inl hconnected)
  | failed hinbox hfs hconnected hactive hform =>
    rename_i fs rest e statusCode mechanism
    obtain ⟨msgs, hmsgs, hwhole⟩ := h
    cases msgs with
    | nil =>
      obtain ⟨rfl, rfl⟩ := append_eq_nil_iff.mp (hinbox.symm.trans hwhole)
      exact iff_of_true ⟨_, _, rfl, rfl, nofun, [], nofun, rfl⟩ (.inr (.inr (.inl hwhole)))
    | cons m msgs =>
      -- seven frames were read, or all of a shorter message
      have hwhole : z.session.inbox = zapFrames m ++ msgs.flatMap zapFrames := hwhole
      have hm := (hmsgs m (.head _)).2
      have htaken : fs = (zapFrames m).take 7 :=
        hfs.trans (readFrames_message 6 hm hconnected hactive hwhole).1
      constructor
      · -- the second frame is not closed
        rintro ⟨taken, closed, hread, hclosed, honce, -⟩
        obtain rfl : fs = taken := singleton_injective (append_cancel_left hread)
        obtain rfl : [0] = closed := singleton_injective (append_cancel_left hclosed)
        refine .inr (.inr (.inr ⟨m, _, hwhole, .inl ?_⟩))
        by_contra hlong
        have hpos := length_pos_of_ne_nil hm
        have hlength : (zapFrames m).length = m.length := by
          rw [← length_map, data_zapFrames]
        have := honce 1 (by rw [htaken, length_take, hlength]; omega)
        cases this
      · rintro (hnot | hnot | hnil | ⟨parts, rest', hparts, hlength | ⟨r, rfl, hr⟩⟩)
        · exact absurd (hconnected.symm.trans hnot) nofun
        · exact absurd (hactive.symm.trans hnot) nofun
        · obtain ⟨f, hf, -⟩ := exists_last_frame hm
          rw [(append_eq_nil_iff.mp (hwhole.symm.trans hnil)).1] at hf
          cases hf
        · have hne : parts ≠ [] := ne_nil_of_length_pos (by omega)
          obtain ⟨rfl, -⟩ := zapFrames_append hne hm (hparts.symm.trans hwhole)
          obtain ⟨part, rfl⟩ := length_eq_one_iff.mp hlength
          subst htaken
          obtain rfl : rest = msgs.flatMap zapFrames :=
            append_cancel_left (hinbox.symm.trans hwhole)
          refine ⟨_, _, rfl, rfl, ?_, msgs, fun m hm => hmsgs m (.tail _ hm), rfl⟩
          intro i hi
          obtain rfl : i = 0 := Nat.lt_one_iff.mp hi
          rfl
        · obtain ⟨rfl, -⟩ := zapFrames_append (show r.parts ≠ [] from nofun) hm
            (hparts.symm.trans hwhole)
          have hreply : of? z.options fs = some r := ZapReply.of?_eq_some.mpr ⟨htaken, hr⟩
          rw [hreply] at hform
          cases hform

/-- A client to which the handler has sent one message. -/
def sampleClient (parts : List Bytes) : ZapClient :=
  { new (sampleOptions .push) [] with
    session := { ZapSession.new with connected := true, inbox := zapFrames parts } }

theorem zap_frames_closed_accepted : ∃ z' taken closed,
    (sampleClient sampleReply.parts).receiveAndProcessZapReply = (.processed, z') ∧
    z'.session.readings = [taken] ∧ z'.session.closes = [closed] ∧
    ∀ i < taken.length, closed.count i = 1 := by
  have hcall : (sampleClient sampleReply.parts).receiveAndProcessZapReply =
    (.processed, _) := Prod.ext (by decide +kernel) rfl
  have hwhole : WholeMessages [sampleReply.parts] (zapFrames sampleReply.parts) :=
    ⟨[sampleReply.parts], by simp [parts], by simp⟩
  obtain ⟨taken, closed, hread, hclosed, honce, -⟩ := (zap_frames_closed _ hwhole hcall).mpr
    (.inr (.inr (.inr ⟨sampleReply.parts, [], (append_nil _).symm,
      .inr ⟨sampleReply, rfl, by decide +kernel⟩⟩)))
  exact ⟨_, taken, closed, hcall, hread, hclosed, honce⟩

/-- Seven of eight frames are read, one of them is closed, and the last one is left. -/
theorem refused_reply_leaks :
    let (outcome, z) := (sampleClient (replicate 8 [])).receiveAndProcessZapReply
    outcome = .failed .eproto ∧ z.session.readings = [replicate 7 ⟨true, []⟩] ∧
      z.session.closes = [[0]] ∧ z.session.inbox = [⟨false, []⟩] := by
  decide +kernel

end ZapClient
end LibZmq
