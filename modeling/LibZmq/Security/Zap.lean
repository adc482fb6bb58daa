import LibZmq.Security.Metadata

/-!
# Asking the ZAP handler

A server mechanism may ask an authentication handler, which is another socket of the same process,
about its peer. Request and reply go over a pipe of the session (`zap_client.cpp`,
`session_base.cpp`).

* `ZapSession` is the pipe; the handler answers in whole messages.
* `ZapClient.receiveAndProcessZapReply` reads seven frames and takes them apart.
* `ZapReply` is the form that a reply has to have, and `received` says what a call can do.
* `ZapHandshake` is the state machine that the servers of PLAIN and CURVE share.
-/

namespace LibZmq

open List
open Wire (ascii)

/-! ## The pipe to the handler -/

/-- A frame to or from the handler. -/
structure ZapFrame where
  more : Bool
  data : Bytes
deriving DecidableEq, Repr

/-- The frames of a message. -/
def zapFrames : List Bytes → List ZapFrame
  | [] => []
  | [part] => [⟨false, part⟩]
  | part :: part' :: parts => ⟨true, part⟩ :: zapFrames (part' :: parts)

theorem data_zapFrames (parts : List Bytes) : (zapFrames parts).map ZapFrame.data = parts := by
  induction parts using zapFrames.induct with
  | case1 | case2 => rfl
  | case3 part _ _ ih => exact congrArg (part :: ·) ih

theorem zapFrames_injective : Function.Injective zapFrames := fun parts _ h => by
  rw [← data_zapFrames parts, h, data_zapFrames]

/-- The part of `session_base_t` that belongs to ZAP. -/
structure ZapSession where
  /-- `_zap_pipe != NULL`. -/
  connected : Bool
  /-- `_in_active` of the pipe. -/
  inActive : Bool
  /-- A command `activate_read` is on its way. -/
  signalled : Bool
  /-- What the handler has sent and the session has not read. -/
  inbox : List ZapFrame
  /-- What the session has sent. -/
  requests : List (List ZapFrame)
  /-- The frames that each call of `receive_and_process_zap_reply` has taken from the pipe. -/
  readings : List (List ZapFrame)
  /-- The numbers of the frames that each of these calls has closed. -/
  closes : List (List Nat)
deriving DecidableEq, Repr

/-- What the handler does during a call: it may be there when the session connects, and may answer
as soon as it is asked. -/
structure ZapHandler where
  present : Bool
  answers : List (List Bytes)
deriving DecidableEq, Repr

namespace ZapSession

def new : ZapSession :=
  { connected := false, inActive := true, signalled := false, inbox := [], requests := []
    readings := [], closes := [] }

/-- `zap_connect`; `none` stands for `-1` with `ECONNREFUSED`. -/
def zapConnect (s : ZapSession) (handler : ZapHandler) : Option ZapSession :=
  if s.connected || handler.present then some { s with connected := true } else none

/-- Messages of the handler arrive. If the session has found the pipe empty, it is told. -/
def arrive (s : ZapSession) (answers : List (List Bytes)) : ZapSession :=
  if s.connected then
    { s with
      inbox := s.inbox ++ answers.flatMap zapFrames
      signalled := s.signalled || (!s.inActive && !answers.isEmpty) }
  else s

/-- The command `activate_read` is processed. -/
def activate (s : ZapSession) : ZapSession := { s with inActive := true, signalled := false }

/-- The handler goes away, and the session is told that the pipe is gone. -/
def hangUp (s : ZapSession) : ZapSession := { s.activate with connected := false, inbox := [] }

/-- `read_zap_msg`, with `pipe_t::read`. -/
def readZapMsg (s : ZapSession) : Except HandshakeErrno ZapFrame × ZapSession :=
  if s.connected = false then (.error .enotconn, s)
  else if s.inActive = false then (.error .eagain, s)
  else
    match s.inbox with
    | [] => (.error .eagain, { s with inActive := false })
    | f :: inbox => (.ok f, { s with inbox })

end ZapSession

/-! ## Request and reply -/

/-- What `receive_and_process_zap_reply` returns. -/
inductive ZapOutcome where
  /-- `0`. -/
  | processed
  /-- `1`. -/
  | again
  /-- `-1`. -/
  | failed (e : HandshakeErrno)
deriving DecidableEq, Repr

/-- `zap_client_t`, with its part of `mechanism_t`. -/
structure ZapClient where
  options : Options
  peerAddress : Bytes
  session : ZapSession
  mechanism : Mechanism
  statusCode : Bytes

namespace ZapClient

def new (options : Options) (peerAddress : Bytes) : ZapClient :=
  { options, peerAddress, session := .new, mechanism := .new, statusCode := [] }

def zapVersion : Bytes := ascii "1.0"

def id : Bytes := ascii "1"

/-- The frames of a request. -/
def request (z : ZapClient) (mechanism : Bytes) (credentials : List Bytes) :
    List ZapFrame :=
  zapFrames ([[], zapVersion, id, z.options.zapDomain, z.peerAddress, z.options.routingId,
    mechanism] ++ credentials)

/-- `send_zap_request`, after which the handler may answer. -/
def sendZapRequest (z : ZapClient) (handler : ZapHandler) (mechanism : Bytes)
    (credentials : List Bytes) : ZapClient :=
  let session :=
    { z.session with requests := z.session.requests ++ [z.request mechanism credentials] }
  { z with session := session.arrive handler.answers }

/-- The frames that were read, the session after that, and how the reading ended. -/
structure Reading where
  taken : List ZapFrame
  session : ZapSession
  outcome : ZapOutcome

/-- The first loop of `receive_and_process_zap_reply`, which expects frames with the given flags. -/
def readFrames : List Bool → ZapSession → Reading
  | [], s => ⟨[], s, .processed⟩
  | more :: flags, s =>
      match s.readZapMsg with
      | (.error .eagain, s) => ⟨[], s, .again⟩
      | (.error e, s) => ⟨[], s, .failed e⟩
      | (.ok f, s) =>
          if f.more ≠ more then ⟨[f], s, .failed .eproto⟩
          else
            let r := readFrames flags s
            { r with taken := f :: r.taken }

/-- A reply has seven frames. -/
def replyFlags : List Bool := [true, true, true, true, true, true, false]

/-- One of `200`, `300`, `400` and `500`. -/
def isStatusCode (status : Bytes) : Bool :=
  match status with
  | [a, b, c] => decide (50 ≤ a) && decide (a ≤ 53) && b == 48 && c == 48
  | _ => false

/-- The checks on the frames of a reply: status code, user id and metadata. -/
def checkReply : List ZapFrame → Option (Bytes × Bytes × Bytes)
  | [delimiter, version, requestId, status, _, user, metadata] =>
      if delimiter.data ≠ [] then none
      else if version.data ≠ zapVersion then none
      else if requestId.data ≠ id then none
      else if isStatusCode status.data = false then none
      else some (status.data, user.data, metadata.data)
  | _ => none

/-- A call of `receive_and_process_zap_reply` has taken some frames and closed some of them. -/
def leave (z : ZapClient) (session : ZapSession) (taken : List ZapFrame) (closed : List Nat) :
    ZapClient :=
  { z with
    session := { session with
      readings := session.readings ++ [taken], closes := session.closes ++ [closed] } }

/-- At every exit with `-1`, `close_and_return (msg, -1)` is the overload for one message, so that
only the first frame is closed. `return 1` closes none, and the end of the function all seven. -/
def receiveAndProcessZapReply (z : ZapClient) : ZapOutcome × ZapClient :=
  let r := readFrames replyFlags z.session
  match r.outcome with
  | .again => (.again, z.leave r.session r.taken [])
  | .failed e => (.failed e, z.leave r.session r.taken [0])
  | .processed =>
      match checkReply r.taken with
      | none => (.failed .eproto, z.leave r.session r.taken [0])
      | some (statusCode, user, metadata) =>
          match (z.mechanism.setUserId user).parseMetadata z.options true metadata with
          | (.error _, mechanism) =>
              (.failed .eproto, { z.leave r.session r.taken [0] with statusCode, mechanism })
          | (.ok, mechanism) =>
              (.processed, { z.leave r.session r.taken (range 7) with statusCode, mechanism })

/-- The session is told that the pipe can be read. -/
def activate (z : ZapClient) : ZapClient := { z with session := z.session.activate }

end ZapClient

/-! ## What a reply has to look like -/

/-- A reply of the handler. -/
structure ZapReply where
  status : Bytes
  text : Bytes
  user : Bytes
  metadata : Bytes
deriving DecidableEq, Repr

namespace ZapReply

/-- The delimiter, the version and the id of the request come first. -/
def parts (r : ZapReply) : List Bytes :=
  [[], ascii "1.0", ascii "1", r.status, r.text, r.user, r.metadata]

theorem eq_of_frames {r r' : ZapReply} (h : zapFrames r.parts = zapFrames r'.parts) : r = r' := by
  have hparts := zapFrames_injective h
  obtain ⟨status, text, user, metadata⟩ := r
  obtain ⟨status', text', user', metadata'⟩ := r'
  simpa [parts] using hparts

/-- The status is a status of ZAP, and the metadata can be read. -/
def WellFormed (o : Options) (r : ZapReply) : Prop :=
  r.status ∈ [ascii "200", ascii "300", ascii "400", ascii "500"] ∧
    (Mechanism.new.parseMetadata o true r.metadata).1 = .ok

instance (o : Options) (r : ZapReply) : Decidable (r.WellFormed o) :=
  inferInstanceAs (Decidable (_ ∧ _))

/-- The well-formed reply that consists of these frames. -/
def of? (o : Options) : List ZapFrame → Option ZapReply
  | [d, v, i, status, text, user, metadata] =>
      let r : ZapReply := ⟨status.data, text.data, user.data, metadata.data⟩
      if [d, v, i, status, text, user, metadata] = zapFrames r.parts ∧ r.WellFormed o then some r
      else none
  | _ => none

theorem of?_eq_some : of? o fs = some r ↔ fs = zapFrames r.parts ∧ r.WellFormed o := by
  constructor
  · intro h
    unfold of? at h
    split at h
    · dsimp only at h
      split at h
      · rename_i hframes
        cases h
        exact hframes
      · cases h
    · cases h
  · rintro ⟨rfl, hform⟩
    exact if_pos ⟨rfl, hform⟩

end ZapReply

namespace ZapClient

variable {z z' : ZapClient} {outcome : ZapOutcome}

theorem isStatusCode_iff (status : Bytes) : isStatusCode status = true ↔
    status ∈ [ascii "200", ascii "300", ascii "400", ascii "500"] := by
  unfold isStatusCode
  split
  · rename_i a b c
    simp only [Bool.and_eq_true, decide_eq_true_eq, beq_iff_eq, mem_cons, not_mem_nil, or_false]
    constructor
    · rintro ⟨⟨⟨hlow, hhigh⟩, rfl⟩, rfl⟩
      have hlow : 50 ≤ a.toNat := hlow
      have hhigh : a.toNat ≤ 53 := hhigh
      have hcases : a.toNat = 50 ∨ a.toNat = 51 ∨ a.toNat = 52 ∨ a.toNat = 53 := by omega
      rcases hcases with h | h | h | h
      · obtain rfl : a = 50 := UInt8.toNat_inj.mp h
        exact .inl rfl
      · obtain rfl : a = 51 := UInt8.toNat_inj.mp h
        exact .inr (.inl rfl)
      · obtain rfl : a = 52 := UInt8.toNat_inj.mp h
        exact .inr (.inr (.inl rfl))
      · obtain rfl : a = 53 := UInt8.toNat_inj.mp h
        exact .inr (.inr (.inr rfl))
    · rintro (h | h | h | h) <;> cases h <;> decide
  · rename_i hshape
    simp only [Bool.false_eq_true, false_iff, mem_cons, not_mem_nil, or_false]
    rintro (rfl | rfl | rfl | rfl) <;> exact hshape _ _ _ rfl

/-- What the loop does with the frames. If it fails although there is a pipe, it has read something
that it did not expect. -/
theorem readFrames_spec (flags : List Bool) {s : ZapSession} (hconnected : s.connected = true)
    (hactive : s.inActive = true) :
    let r := readFrames flags s
    s.inbox = r.taken ++ r.session.inbox ∧
      r.session = { s with inbox := r.session.inbox, inActive := decide (r.outcome ≠ .again) } ∧
      (r.outcome = .processed ↔ r.taken.map ZapFrame.more = flags) ∧
      (r.outcome = .again → r.session.inbox = [] ∧ ∃ missing, missing ≠ [] ∧
        flags = r.taken.map ZapFrame.more ++ missing) ∧
      (∀ e, r.outcome = .failed e → r.taken ≠ []) := by
  induction flags generalizing s with
  | nil => exact ⟨rfl, by simp [readFrames, ← hactive], iff_of_true rfl rfl, nofun, nofun⟩
  | cons more flags ih =>
    unfold readFrames ZapSession.readZapMsg
    rw [if_neg (by simp [hconnected]), if_neg (by simp [hactive])]
    cases hinbox : s.inbox with
    | nil =>
      exact ⟨by simp, by simp [← hinbox], iff_of_false nofun nofun,
        fun _ => ⟨rfl, more :: flags, nofun, rfl⟩, nofun⟩
    | cons f inbox =>
      dsimp only
      split
      · rename_i hmore
        exact ⟨rfl, by simp [← hactive], iff_of_false nofun fun h => hmore (cons.inj h).1, nofun,
          fun _ _ => nofun⟩
      rename_i hmore
      obtain ⟨hrest, hsession, hdone, hagain, -⟩ := @ih { s with inbox } hconnected hactive
      refine ⟨congrArg (f :: ·) hrest, hsession, ?_, fun h => ?_, fun _ _ => nofun⟩
      · rw [map_cons, not_not.mp hmore, cons.injEq, and_iff_right rfl]
        exact hdone
      · obtain ⟨hnil, missing, hmissing, hflags⟩ := hagain h
        refine ⟨hnil, missing, hmissing, ?_⟩
        rw [map_cons, not_not.mp hmore, cons_append, ← hflags]

/-- All frames of a reply but the last one are followed by another one. -/
theorem more_of_missing (hmissing : missing ≠ [])
    (h : replyFlags = l ++ missing) : ∀ b ∈ l, b = true := by
  intro b hb
  have hsub : l.Sublist (replyFlags.dropLast) := by
    rw [h, dropLast_append_of_ne_nil hmissing]
    exact sublist_append_left _ _
  have hall : ∀ b ∈ replyFlags.dropLast, b = true := by decide
  exact hall b (hsub.subset hb)

/-- What `checkReply` accepts has the form of a reply, but for the metadata. -/
theorem checkReply_eq_some (hflags : fs.map ZapFrame.more = replyFlags)
    (h : checkReply fs = some (status, user, metadata)) :
    ∃ r : ZapReply, fs = zapFrames r.parts ∧ isStatusCode r.status = true ∧
      r.status = status ∧ r.user = user ∧ r.metadata = metadata := by
  unfold checkReply at h
  split at h
  · rename_i d v i s t u m
    split at h
    · cases h
    rename_i hd
    split at h
    · cases h
    rename_i hv
    split at h
    · cases h
    rename_i hi
    split at h
    · cases h
    rename_i hs
    cases h
    refine ⟨⟨s.data, t.data, u.data, m.data⟩, ?_, by simpa using hs, rfl, rfl, rfl⟩
    obtain ⟨_, _⟩ := d
    obtain ⟨_, _⟩ := v
    obtain ⟨_, _⟩ := i
    obtain ⟨_, _⟩ := s
    obtain ⟨_, _⟩ := t
    obtain ⟨_, _⟩ := u
    obtain ⟨_, _⟩ := m
    cases hflags
    cases not_not.mp hd
    cases not_not.mp hv
    cases not_not.mp hi
    rfl
  · cases h

theorem checkReply_parts {r : ZapReply} (h : r.WellFormed o) :
    checkReply (zapFrames r.parts) = some (r.status, r.user, r.metadata) := by
  have hstatus := (isStatusCode_iff r.status).mpr h.1
  unfold checkReply
  simp [zapFrames, ZapReply.parts, zapVersion, id, hstatus]

/-- What `receive_and_process_zap_reply` can do. -/
inductive Received (z : ZapClient) : ZapOutcome → ZapClient → Prop where
  | processed {r : ZapReply} {rest : List ZapFrame}
      (hinbox : z.session.inbox = zapFrames r.parts ++ rest) (hform : r.WellFormed z.options) :
      Received z .processed
        { z.leave { z.session with inbox := rest } (zapFrames r.parts) (range 7) with
          statusCode := r.status
          mechanism := ((z.mechanism.setUserId r.user).parseMetadata z.options true r.metadata).2 }
  | again (hmore : ∀ f ∈ z.session.inbox, f.more = true) :
      Received z .again
        (z.leave { z.session with inbox := [], inActive := false } z.session.inbox [])
  | asleep (hactive : z.session.inActive = false) : Received z .again (z.leave z.session [] [])
  | unconnected (hconnected : z.session.connected = false) :
      Received z (.failed .enotconn) (z.leave z.session [] [0])
  | failed {fs rest : List ZapFrame} {e : HandshakeErrno} {statusCode : Bytes}
      {mechanism : Mechanism} (hinbox : z.session.inbox = fs ++ rest)
      (hfs : fs = (readFrames replyFlags z.session).taken)
      (hconnected : z.session.connected = true) (hactive : z.session.inActive = true)
      (hform : ZapReply.of? z.options fs = none) :
      Received z (.failed e)
        { z.leave { z.session with inbox := rest } fs [0] with statusCode, mechanism }

/-- A reply without a status of its own kind, or with metadata that cannot be read. -/
theorem of?_eq_none_of_frames (h : ∀ r : ZapReply, fs = zapFrames r.parts → ¬ r.WellFormed o) :
    ZapReply.of? o fs = none := by
  rw [Option.eq_none_iff_forall_ne_some]
  intro r hr
  obtain ⟨hframes, hform⟩ := ZapReply.of?_eq_some.mp hr
  exact h r hframes hform

theorem received (z : ZapClient) :
    Received z z.receiveAndProcessZapReply.1 z.receiveAndProcessZapReply.2 := by
  cases hconnected : z.session.connected with
  | false =>
    have hread : readFrames replyFlags z.session = ⟨[], z.session, .failed .enotconn⟩ := by
      simp [replyFlags, readFrames, ZapSession.readZapMsg, hconnected]
    unfold receiveAndProcessZapReply
    rw [hread]
    exact .unconnected hconnected
  | true =>
    cases hactive : z.session.inActive with
    | false =>
      have hread : readFrames replyFlags z.session = ⟨[], z.session, .again⟩ := by
        simp [replyFlags, readFrames, ZapSession.readZapMsg, hconnected, hactive]
      unfold receiveAndProcessZapReply
      rw [hread]
      exact .asleep hactive
    | true =>
      obtain ⟨hinbox, hsession, hdone, hagain, hfailed⟩ :=
        readFrames_spec replyFlags hconnected hactive
      unfold receiveAndProcessZapReply
      dsimp only
      have hkept : (readFrames replyFlags z.session).outcome ≠ .again →
          (readFrames replyFlags z.session).session =
            { z.session with inbox := (readFrames replyFlags z.session).session.inbox } := by
        intro hout
        rw [hsession]
        simp [hout, ← hactive]
      split
      · rename_i hout
        obtain ⟨hrest, missing, hmissing, hflags⟩ := hagain hout
        rw [hrest, append_nil] at hinbox
        rw [hsession, hrest, hout, ← hinbox]
        refine .again fun f hf => more_of_missing hmissing hflags _ ?_
        rw [← hinbox]
        exact mem_map_of_mem hf
      · rename_i e hout
        rw [hkept (by rw [hout]; nofun)]
        refine .failed hinbox rfl hconnected hactive (of?_eq_none_of_frames fun r hr _ => ?_)
        -- the flags of a reply are those that the loop expects
        have hflags := hdone.mpr (by rw [hr]; rfl)
        rw [hout] at hflags
        cases hflags
      · rename_i hout
        rw [hkept (by rw [hout]; nofun)]
        split
        · rename_i hcheck
          refine .failed hinbox rfl hconnected hactive (of?_eq_none_of_frames fun r hr hform => ?_)
          rw [hr, checkReply_parts hform] at hcheck
          cases hcheck
        rename_i statusCode user metadata hcheck
        obtain ⟨r, hframes, hstatus, rfl, rfl, rfl⟩ := checkReply_eq_some (hdone.mp hout) hcheck
        split
        · rename_i e mechanism hparse
          refine .failed hinbox rfl hconnected hactive (of?_eq_none_of_frames fun _ hr' hform => ?_)
          obtain rfl := ZapReply.eq_of_frames (hframes.symm.trans hr')
          have hrc := (Mechanism.parseMetadata_rc (z.mechanism.setUserId r.user) Mechanism.new
            r.metadata).trans hform.2
          rw [hparse] at hrc
          cases hrc
        · rename_i mechanism hparse
          have hform : r.WellFormed z.options :=
            ⟨(isStatusCode_iff _).mp hstatus,
              (Mechanism.parseMetadata_rc _ _ _).trans (congrArg Prod.fst hparse)⟩
          obtain rfl : _ = mechanism := congrArg Prod.snd hparse
          rw [hframes] at hinbox ⊢
          exact .processed hinbox hform

/-- The configuration and the requests do not change while a reply is read. -/
theorem Received.same (h : z.Received outcome z') :
    z'.options = z.options ∧ z'.peerAddress = z.peerAddress ∧
      z'.session.requests = z.session.requests := by
  cases h <;> exact ⟨rfl, rfl, rfl⟩

end ZapClient

/-! ## The handshake of a server that asks -/

/-- `zap_client_common_handshake_t::state_t`. -/
inductive ServerState where
  | waitingForHello
  | sendingWelcome
  | waitingForInitiate
  | waitingForZapReply
  | sendingReady
  | sendingError
  | errorSent
  | ready
deriving DecidableEq, Repr

/-- `zap_client_common_handshake_t`. -/
structure ZapHandshake where
  zap : ZapClient
  state : ServerState
  zapReplyOkState : ServerState

/-- `-1` is a failure, `0` and `1` are not. -/
def ZapOutcome.rc : ZapOutcome → Rc
  | .failed e => .error e
  | _ => .ok

namespace ZapHandshake

def new (options : Options) (peerAddress : Bytes) (zapReplyOkState : ServerState) :
    ZapHandshake :=
  { zap := .new options peerAddress, state := .waitingForHello, zapReplyOkState }

def status (h : ZapHandshake) : MechanismStatus :=
  if h.state = .ready then .ready
  else if h.state = .errorSent then .error
  else .handshaking

def handleZapStatusCode (h : ZapHandshake) : ZapHandshake :=
  { h with
    state :=
      match h.zap.statusCode.headD 0 with
      | 50 => h.zapReplyOkState
      | 51 => .errorSent
      | _ => .sendingError }

def receiveAndProcessZapReply (h : ZapHandshake) :
    Except MechanismFault (ZapOutcome × ZapHandshake) :=
  if h.state = .waitingForZapReply then
    match h.zap.receiveAndProcessZapReply with
    | (.processed, zap) => .ok (.processed, handleZapStatusCode { h with zap })
    | (outcome, zap) => .ok (outcome, { h with zap })
  else .error .assertion

def zapMsgAvailable (h : ZapHandshake) : Except MechanismFault (Rc × ZapHandshake) :=
  h.receiveAndProcessZapReply.map fun r => (r.1.rc, r.2)

/-- The request is sent over the pipe `session`, and the reply may be there already. -/
def ask (h : ZapHandshake) (session : ZapSession) (handler : ZapHandler) (mechanism : Bytes)
    (credentials : List Bytes) : Except MechanismFault (ZapOutcome × ZapHandshake) :=
  let zap := ZapClient.sendZapRequest { h.zap with session } handler mechanism credentials
  receiveAndProcessZapReply { h with zap, state := .waitingForZapReply }

/-! ### What a call can do -/

variable {h h' : ZapHandshake} {outcome : ZapOutcome}

/-- The reply decides about the next state. -/
theorem receive_spec (hcall : h.receiveAndProcessZapReply = .ok (outcome, h')) :
    h.state = .waitingForZapReply ∧ h.zap.Received outcome h'.zap ∧
      h'.zapReplyOkState = h.zapReplyOkState ∧
      ((outcome = .processed ∧ h'.state = (handleZapStatusCode { h with zap := h'.zap }).state) ∨
        (outcome ≠ .processed ∧ h'.state = .waitingForZapReply)) := by
  have hreceived := h.zap.received
  unfold receiveAndProcessZapReply at hcall
  split at hcall
  · rename_i hstate
    split at hcall
    · rename_i zap hreply
      cases hcall
      rw [hreply] at hreceived
      exact ⟨hstate, hreceived, rfl, .inl ⟨rfl, rfl⟩⟩
    rename_i hnot hreply
    cases hcall
    rw [hreply] at hreceived
    exact ⟨hstate, hreceived, rfl, .inr ⟨hnot, hstate⟩⟩
  · cases hcall

theorem zapMsgAvailable_spec (hcall : h.zapMsgAvailable = .ok (rc, h')) :
    ∃ outcome, h.receiveAndProcessZapReply = .ok (outcome, h') ∧ rc = outcome.rc := by
  obtain ⟨⟨outcome, handshake⟩, hreceive, ⟨⟩⟩ := map_ok hcall
  exact ⟨outcome, hreceive, rfl⟩

/-- Only the status `200` leads on. -/
theorem handleZapStatusCode_state {status : Bytes} (hcode : h.zap.statusCode = status)
    (hstatus : status ∈ [ascii "200", ascii "300", ascii "400", ascii "500"]) :
    (status = ascii "200" ∧ h.handleZapStatusCode.state = h.zapReplyOkState) ∨
      (status ≠ ascii "200" ∧ (h.handleZapStatusCode.state = .errorSent ∨
        h.handleZapStatusCode.state = .sendingError)) := by
  unfold handleZapStatusCode
  rw [hcode]
  simp only [mem_cons, not_mem_nil, or_false] at hstatus
  rcases hstatus with rfl | rfl | rfl | rfl
  · exact .inl ⟨rfl, rfl⟩
  · exact .inr ⟨by decide, .inl rfl⟩
  · exact .inr ⟨by decide, .inr rfl⟩
  · exact .inr ⟨by decide, .inr rfl⟩

/-- A reply with the status `200` leads on, another one ends the handshake, and without a reply the
server goes on waiting. -/
def Answered (h : ZapHandshake) (outcome : ZapOutcome) (h' : ZapHandshake) : Prop :=
  (outcome ≠ .processed ∧ h'.state = .waitingForZapReply) ∨
    (outcome = .processed ∧ ∃ r : ZapReply, r.WellFormed h.zap.options ∧
      h'.zap.session.readings = h.zap.session.readings ++ [zapFrames r.parts] ∧
      ((r.status = ascii "200" ∧ h'.state = h.zapReplyOkState) ∨
        (r.status ≠ ascii "200" ∧ (h'.state = .errorSent ∨ h'.state = .sendingError))))

theorem receive_cases (hcall : h.receiveAndProcessZapReply = .ok (outcome, h')) :
    h.Answered outcome h' := by
  obtain ⟨-, hreceived, -, ⟨rfl, hnext⟩ | hwait⟩ := receive_spec hcall
  · refine .inr ⟨rfl, ?_⟩
    generalize h'.zap = z' at hreceived hnext
    cases hreceived with
    | processed _ hform =>
      refine ⟨_, hform, rfl, ?_⟩
      rw [hnext]
      exact handleZapStatusCode_state rfl hform.1
  · exact .inl hwait

/-- The request is sent before the reply is read. -/
theorem ask_cases (hconnect : h.zap.session.zapConnect handler = some session)
    (hask : h.ask session handler mechanism credentials = .ok (outcome, h')) :
    (h'.zap.options = h.zap.options ∧ h'.zap.peerAddress = h.zap.peerAddress ∧
      h'.zapReplyOkState = h.zapReplyOkState) ∧
    h'.zap.session.requests = h.zap.session.requests ++ [h.zap.request mechanism credentials] ∧
    h.Answered outcome h' := by
  unfold ZapSession.zapConnect at hconnect
  split at hconnect
  · cases hconnect
    obtain ⟨-, hreceived, hok, -⟩ := receive_spec hask
    have hsame := hreceived.same
    have hcases := receive_cases hask
    -- what arrives does not change what was sent and read before
    exact ⟨⟨hsame.1, hsame.2.1, hok⟩, hsame.2.2, hcases⟩
  · cases hconnect

end ZapHandshake
end LibZmq
