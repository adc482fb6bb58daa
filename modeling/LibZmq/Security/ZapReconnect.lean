import LibZmq.Security.Null

/-!
# ZAP across reconnections

A session that connects keeps its pipe to the ZAP handler when an engine fails and another one is
attached (`session_base.cpp`). All requests have the same id, so that the replies of the handler
cannot be told apart (`zap_client.cpp`).

* `AuthSession` is the session, its engine and the pipe; the number of a request, and the request
  that a reply answers, are known to the handler only.
* `AuthSession.Sound` says that a mechanism has read the reply to its own request.
* `AuthSession.Carries` ties the pipe to that of `ZapSession`, which holds the frames, and
  `AuthMechanism` to `NullMechanism` and `ZapHandshake`, if the handler keeps to ZAP (`Speaks`).
-/

namespace LibZmq

open List
open LibZmq.Core (Exec Guarded)
open Wire (ascii)
open ZapClient (readFrames replyFlags checkReply_parts)

/-- A reply, and the request that it answers. -/
structure AuthReply where
  request : Nat
  accepted : Bool
deriving DecidableEq, Repr

/-- What a mechanism knows of ZAP. -/
structure AuthMechanism where
  /-- `null_mechanism_t`; the others are derived from `zap_client_common_handshake_t`. -/
  null : Bool
  request : Option Nat
  reply : Option AuthReply
deriving DecidableEq, Repr

/-- Why the process ends. -/
inductive AuthFault where
  | assertion
  | nullAccess
deriving DecidableEq, Repr

/-- An engine, which has no mechanism during the greeting. -/
inductive AuthEngine where
  | greeting
  | running (m : AuthMechanism)
deriving DecidableEq, Repr

/-- The part of an active session that belongs to ZAP. -/
structure AuthSession where
  /-- `options.immediate == 1`. -/
  immediate : Bool
  /-- `_pipe != NULL`. -/
  pipe : Bool
  engine : Option AuthEngine
  /-- `_zap_pipe != NULL`. -/
  zapPipe : Bool
  /-- `_in_active` of the ZAP pipe. -/
  inActive : Bool
  /-- A command `activate_read` is on its way. -/
  signalled : Bool
  /-- What the handler has sent and the session has not read. -/
  inbox : List AuthReply
  /-- The requests that the handler has not answered. -/
  outstanding : List Nat
  /-- The number of requests. -/
  count : Nat
  terminated : Bool
deriving DecidableEq, Repr

namespace AuthSession

def initial (immediate : Bool) : AuthSession :=
  { immediate, pipe := !immediate, engine := none, zapPipe := false, inActive := true
    signalled := false, inbox := [], outstanding := [], count := 0, terminated := false }

/-- `read_zap_msg`, for the frames of a reply. -/
def readZapMsg (s : AuthSession) : Option AuthReply × AuthSession :=
  if s.zapPipe && s.inActive then
    match s.inbox with
    | [] => (none, { s with inActive := false })
    | r :: inbox => (some r, { s with inbox })
  else (none, s)

def receiveAndProcessZapReply (s : AuthSession) (m : AuthMechanism) : AuthSession :=
  match s.readZapMsg with
  | (none, s) => { s with engine := some (.running m) }
  | (some r, s) => { s with engine := some (.running { m with reply := some r }) }

/-- `zap_connect` and `send_zap_request`, and the first look at the reply. -/
def ask (s : AuthSession) (m : AuthMechanism) : AuthSession :=
  let s := if s.zapPipe then s else { s with zapPipe := true, inActive := true }
  receiveAndProcessZapReply
    { s with outstanding := s.outstanding ++ [s.count], count := s.count + 1 }
    { m with request := some s.count }

/-- `zap_msg_available` of the engine and of the mechanism. -/
def zapMsgAvailable (s : AuthSession) : AuthEngine → Except AuthFault AuthSession
  | .greeting => .error .assertion
  | .running m =>
      if m.null then
        -- `EFSM`, which ends the session.
        if m.reply.isSome then .ok { s with engine := none, terminated := true }
        else .ok (s.receiveAndProcessZapReply m)
      else if m.request.isSome && m.reply.isNone then .ok (s.receiveAndProcessZapReply m)
      else .error .assertion

/-- `read_activated` for the ZAP pipe. -/
def readActivated (s : AuthSession) : Except AuthFault AuthSession :=
  match s.engine with
  | none => if s.pipe then .ok s else .error .nullAccess
  | some e => s.zapMsgAvailable e

/-- `engine_error`, when the connection is lost, with `reconnect`. -/
def engineError (s : AuthSession) : AuthSession :=
  { s with
    engine := none
    pipe := s.pipe && !s.immediate
    inActive := s.inActive && !(s.zapPipe && s.inbox.isEmpty) }

/-- What happens to a session. -/
inductive Act where
  /-- `process_attach`. -/
  | attach
  /-- The greeting is over. -/
  | greeted (null : Bool)
  /-- The mechanism asks the handler. -/
  | ask
  /-- The handler answers a request. -/
  | answer (r : AuthReply)
  /-- The command `activate_read` arrives. -/
  | activate
  /-- The connection is lost. -/
  | fail
deriving DecidableEq, Repr

/-- Carry out an act. -/
def next (s : AuthSession) : Act → Except AuthFault AuthSession
  | .attach => .ok { s with pipe := true, engine := some .greeting }
  | .greeted null => .ok { s with engine := some (.running ⟨null, none, none⟩) }
  | .ask =>
      match s.engine with
      | some (.running m) => .ok (s.ask m)
      | _ => .ok s
  | .answer r =>
      .ok { s with
        inbox := s.inbox ++ [r]
        outstanding := s.outstanding.erase r.request
        signalled := s.signalled || !s.inActive }
  | .activate => readActivated { s with inActive := true, signalled := false }
  | .fail => .ok s.engineError

/-- An act is possible. A mechanism asks once, and not after a reply. -/
def Enabled (s : AuthSession) (a : Act) : Prop :=
  s.terminated = false ∧
  match a with
  | .attach => s.engine = none
  | .greeted _ => s.engine = some .greeting
  | .ask => ∃ null, s.engine = some (.running ⟨null, none, none⟩)
  | .answer r => r.request ∈ s.outstanding
  | .activate => s.signalled = true
  | .fail => s.engine.isSome = true

instance (s : AuthSession) (a : Act) : Decidable (s.Enabled a) := by
  unfold Enabled
  cases a <;> infer_instance

/-- A step of a session. -/
def Step (s : AuthSession) (a : Act) (t : AuthSession) : Prop := s.Enabled a ∧ s.next a = .ok t

/-- The request that the mechanism waits for the reply to. -/
def awaited (s : AuthSession) : List Nat :=
  match s.engine with
  | some (.running ⟨_, some k, none⟩) => [k]
  | _ => []

/-- The connection is not lost between a request and its reply. -/
def Patient (s : AuthSession) (a : Act) : Prop := a = .fail → s.awaited = []

instance (s : AuthSession) (a : Act) : Decidable (s.Patient a) :=
  inferInstanceAs (Decidable (_ → _))

/-- The reply that the mechanism has read answers its request. -/
def Sound (s : AuthSession) : Prop :=
  ∀ m, s.engine = some (.running m) → ∀ r, m.reply = some r → m.request = some r.request

/-- What holds as long as the connections are not lost while the handler is asked. -/
structure Inv (s : AuthSession) : Prop where
  sound : s.Sound
  /-- Everything that is on its way belongs to the request of the mechanism. -/
  owed : s.outstanding ++ s.inbox.map AuthReply.request = s.awaited
  signal : s.signalled = true → s.inActive = false ∧ s.inbox ≠ []

variable {s t : AuthSession} {a : Act} {k : Nat}

/-- Nothing is on its way unless the mechanism waits. -/
theorem Inv.idle (h : s.Inv) (hawaited : s.awaited = []) :
    s.outstanding = [] ∧ s.inbox = [] ∧ s.signalled = false := by
  obtain ⟨hout, hmap⟩ := append_eq_nil_iff.mp (h.owed.trans hawaited)
  have hinbox : s.inbox = [] := map_eq_nil_iff.mp hmap
  exact ⟨hout, hinbox, Bool.eq_false_iff.mpr fun hsignal => (h.signal hsignal).2 hinbox⟩

/-- Something is on its way, so that the mechanism waits. -/
theorem Inv.waiting (h : s.Inv) (hk : k ∈ s.outstanding ++ s.inbox.map AuthReply.request) :
    ∃ null, s.engine = some (.running ⟨null, some k, none⟩) ∧
      s.outstanding ++ s.inbox.map AuthReply.request = [k] := by
  rw [h.owed] at hk ⊢
  unfold awaited at hk ⊢
  split at hk
  · rename_i null k' hengine
    cases mem_singleton.mp hk
    exact ⟨null, hengine, rfl⟩
  · cases hk

/-- A state without a mechanism that waits. -/
theorem Inv.of_idle (hsound : t.Sound) (hawaited : t.awaited = []) (hout : t.outstanding = [])
    (hinbox : t.inbox = []) (hsignal : t.signalled = false) : t.Inv := by
  refine ⟨hsound, ?_, fun h => ?_⟩
  · rw [hout, hinbox, hawaited]
    rfl
  · rw [hsignal] at h
    cases h

/-- The mechanism reads the reply to its request, or nothing. -/
theorem receive_inv {null : Bool} (howed : s.outstanding ++ s.inbox.map AuthReply.request = [k])
    (hsignal : s.signalled = false) : (s.receiveAndProcessZapReply ⟨null, some k, none⟩).Inv := by
  have hwait : ∀ b,
      Inv { s with inActive := b, engine := some (.running ⟨null, some k, none⟩) } := by
    refine fun b => ⟨fun m hm r hr => ?_, howed, fun h => ?_⟩
    · cases hm
      cases hr
    · rw [hsignal] at h
      cases h
  unfold receiveAndProcessZapReply readZapMsg
  split
  · rename_i hread
    split at hread
    · split at hread <;> cases hread
      exact hwait false
    · cases hread
      exact hwait s.inActive
  rename_i r s' hread
  split at hread
  · split at hread <;> cases hread
    rename_i inbox hinbox
    -- The only thing on its way is the reply that is read.
    rw [hinbox] at howed
    obtain ⟨hout, hrest⟩ : s.outstanding = [] ∧ r.request :: inbox.map AuthReply.request = [k] := by
      rcases append_eq_singleton_iff.mp howed with h | h
      · exact h
      · cases h.2
    injection hrest with hr hrest
    refine .of_idle (fun m hm _ hr' => ?_) rfl hout (map_eq_nil_iff.mp hrest) hsignal
    cases hm
    cases hr'
    rw [hr]
  · cases hread

theorem Inv.ask {null : Bool} (h : s.Inv)
    (hengine : s.engine = some (.running ⟨null, none, none⟩)) :
    (s.ask ⟨null, none, none⟩).Inv := by
  obtain ⟨hout, hinbox, hsignal⟩ := h.idle (by rw [awaited, hengine])
  unfold AuthSession.ask
  split <;> exact receive_inv (by simp [hout, hinbox]) hsignal

/-- The handler has sent its reply: it is read, and nothing fails. -/
theorem Inv.activate (h : s.Inv) (hsignal : s.signalled = true) :
    ∃ t, s.next .activate = .ok t ∧ t.Inv := by
  obtain ⟨r, inbox, hinbox⟩ := exists_cons_of_ne_nil (h.signal hsignal).2
  obtain ⟨null, hengine, howed⟩ := h.waiting (k := r.request) (by simp [hinbox])
  have hinv : (receiveAndProcessZapReply { s with inActive := true, signalled := false }
      ⟨null, some r.request, none⟩).Inv := receive_inv howed rfl
  refine ⟨_, ?_, hinv⟩
  simp only [next, hengine]
  cases null <;> rfl

theorem step_inv (h : s.Inv) (hstep : Guarded Step Patient s a t) : t.Inv := by
  obtain ⟨⟨⟨-, henabled⟩, hnext⟩, hpatient⟩ := hstep
  cases a with
  | attach =>
    cases hnext
    obtain ⟨hout, hinbox, hsignal⟩ := h.idle (by rw [awaited, henabled])
    exact .of_idle (fun m hm => nomatch hm) rfl hout hinbox hsignal
  | greeted =>
    cases hnext
    obtain ⟨hout, hinbox, hsignal⟩ := h.idle (by rw [awaited, henabled])
    refine .of_idle (fun m hm r hr => ?_) rfl hout hinbox hsignal
    cases hm
    cases hr
  | ask =>
    obtain ⟨null, hengine⟩ := henabled
    simp only [next, hengine] at hnext
    cases hnext
    exact h.ask hengine
  | answer r =>
    cases hnext
    obtain ⟨null, hengine, howed⟩ := h.waiting (mem_append_left _ henabled)
    obtain ⟨hout, hmap⟩ : s.outstanding = [r.request] ∧ s.inbox.map AuthReply.request = [] := by
      rcases append_eq_singleton_iff.mp howed with h | h
      · rw [h.1] at henabled
        cases henabled
      · exact h
    refine ⟨h.sound, ?_, fun hsignal => ⟨?_, by simp⟩⟩
    · simp [hout, map_eq_nil_iff.mp hmap, awaited, hengine]
    · rcases Bool.or_eq_true_iff.mp hsignal with hold | hnew
      · exact (h.signal hold).1
      · simpa using hnew
  | activate =>
    obtain ⟨t', ht, hinv⟩ := h.activate henabled
    rw [ht] at hnext
    cases hnext
    exact hinv
  | fail =>
    cases hnext
    obtain ⟨hout, hinbox, hsignal⟩ := h.idle (hpatient rfl)
    exact .of_idle (fun m hm => nomatch hm) rfl hout hinbox hsignal

/-- **ZAP replies belong to the connection that is authenticated**, if no connection is lost between
a request and its reply: a reply that a mechanism has read answers its own request, and nothing that
happens makes the process fail. -/
theorem replies_belong_to_connection (immediate : Bool) {tr : List Act}
    (hrun : Exec (Guarded Step Patient) (initial immediate) tr s) :
    s.Sound ∧ ∀ a, s.Enabled a → ∃ t, s.next a = .ok t := by
  have h : s.Inv := hrun.invariant Inv (fun _ _ _ => step_inv)
    (.of_idle (fun m hm => nomatch hm) rfl rfl rfl rfl)
  refine ⟨h.sound, fun a henabled => ?_⟩
  cases a with
  | activate =>
    obtain ⟨t, ht, -⟩ := h.activate henabled.2
    exact ⟨t, ht⟩
  | ask =>
    obtain ⟨null, hengine⟩ := henabled.2
    exact ⟨_, by rw [next, hengine]⟩
  | _ => exact ⟨_, rfl⟩

/-- A connection is authenticated, lost, and authenticated again. -/
theorem replies_belong_twice : ∃ tr s, Exec (Guarded Step Patient) (initial true) tr s ∧
    s.engine = some (.running ⟨false, some 1, some ⟨1, true⟩⟩) ∧ s.Sound := by
  refine Core.exists_exec_with Core.guarded_of_attempt
    (fun s => s.engine = some (.running ⟨false, some 1, some ⟨1, true⟩⟩))
    [.attach, .greeted true, .ask, .answer ⟨0, false⟩, .activate, .fail, .attach, .greeted false,
      .ask, .answer ⟨1, true⟩, .activate] (by decide +kernel) ?_
  intro _ _ hrun hengine
  exact ⟨hengine, (replies_belong_to_connection true hrun).1⟩

/-- **A verdict for another connection.**  The first connection is lost while the handler is asked.
The second one asks again and reads the reply to the first request. If the reply comes during the
greeting, or before the second connection when the session has no pipe, the process fails. -/
theorem reply_of_lost_connection :
    (∃ tr s, Exec Step (initial false) tr s ∧
      s.engine = some (.running ⟨false, some 1, some ⟨0, true⟩⟩)) ∧
    (∃ tr s, Exec Step (initial false) tr s ∧ s.Enabled .activate ∧
      s.next .activate = .error .assertion) ∧
    ∃ tr s, Exec Step (initial true) tr s ∧ s.Enabled .activate ∧
      s.next .activate = .error .nullAccess := by
  have hstep : ∀ (s : AuthSession) (a b : Act) (t : AuthSession),
      Core.attempt next Enabled s a = some (b, t) → Step s b t :=
    fun _ _ _ _ h => Core.attempt_eq_some h
  refine ⟨Core.exists_exec_of_replay hstep [.attach, .greeted false, .ask, .fail, .attach,
    .greeted false, .ask, .answer ⟨0, true⟩, .activate] (by decide +kernel),
    Core.exists_exec_of_replay hstep [.attach, .greeted false, .ask, .fail, .attach,
    .answer ⟨0, true⟩] (by decide +kernel),
    Core.exists_exec_of_replay hstep [.attach, .greeted false, .ask, .fail, .answer ⟨0, true⟩]
    (by decide +kernel)⟩

/-! ## The frames of the replies, and the mechanisms that read them -/

/-- The pipe of `z` is the one of `s`, and holds the frames of the replies. -/
structure Carries (content : AuthReply → ZapReply) (s : AuthSession) (z : ZapSession) : Prop where
  connected : z.connected = s.zapPipe
  inActive : z.inActive = s.inActive
  signalled : z.signalled = s.signalled
  inbox : z.inbox = s.inbox.flatMap fun r => zapFrames (content r).parts

/-- What the handler writes has the form that ZAP wants, and is what it has decided. -/
def Speaks (o : Options) (content : AuthReply → ZapReply) : Prop :=
  ∀ r, (content r).WellFormed o ∧ (r.accepted = true ↔ (content r).status = ascii "200")

variable {content : AuthReply → ZapReply} {m : AuthMechanism}

/-- An answer of the handler is a message of seven frames. -/
theorem Carries.answer {z : ZapSession} {r : AuthReply} (h : Carries content s z)
    (hpipe : s.zapPipe = true) (hnext : s.next (.answer r) = .ok t) :
    Carries content t (z.arrive [(content r).parts]) := by
  cases hnext
  unfold ZapSession.arrive
  rw [if_pos (h.connected.trans hpipe)]
  exact ⟨h.connected, h.inActive, by simp [h.signalled, h.inActive], by simp [h.inbox]⟩

section
variable (hpipe : s.zapPipe = true)
include hpipe

/-- `receive_and_process_zap_reply` finds a whole reply, or nothing. -/
theorem Carries.receive {c : ZapClient} (h : Carries content s c.session)
    (hspeaks : Speaks c.options content) (m : AuthMechanism) :
    let received := c.receiveAndProcessZapReply
    Carries content (s.receiveAndProcessZapReply m) received.2.session ∧
      ((s.receiveAndProcessZapReply m).engine = some (.running m) ∧ received.1 = .again ∨
        ∃ r, (s.receiveAndProcessZapReply m).engine = some (.running { m with reply := some r }) ∧
          received.1 = .processed ∧ received.2.statusCode = (content r).status) := by
  obtain ⟨hconnected, hactive, hsignalled, hinbox⟩ := h
  have hconn := hconnected.trans hpipe
  unfold ZapClient.receiveAndProcessZapReply receiveAndProcessZapReply
  cases hin : s.inActive with
  | false =>
    have hread : readFrames replyFlags c.session = ⟨[], c.session, .again⟩ := by
      simp [readFrames, replyFlags, ZapSession.readZapMsg, hconn, hactive, hin]
    rw [hread, show s.readZapMsg = (none, s) by simp [readZapMsg, hin]]
    exact ⟨⟨hconnected, hactive, hsignalled, hinbox⟩, .inl ⟨rfl, rfl⟩⟩
  | true =>
    rw [hin] at hactive
    cases hs : s.inbox with
    | nil =>
      have hread : readFrames replyFlags c.session =
          ⟨[], { c.session with inActive := false }, .again⟩ := by
        simp [readFrames, replyFlags, ZapSession.readZapMsg, hconn, hactive, hinbox, hs]
      rw [hread, show s.readZapMsg = (none, { s with inActive := false }) by
        simp [readZapMsg, hin, hpipe, hs]]
      exact ⟨⟨hconnected, rfl, hsignalled, hinbox⟩, .inl ⟨rfl, rfl⟩⟩
    | cons r inbox =>
      have hread : readFrames replyFlags c.session = ⟨zapFrames (content r).parts,
          { c.session with inbox := inbox.flatMap fun r => zapFrames (content r).parts },
          .processed⟩ := by
        simp [readFrames, replyFlags, ZapSession.readZapMsg, hconn, hactive, hinbox, hs,
          ZapReply.parts, zapFrames]
      rw [hread, show s.readZapMsg = (some r, { s with inbox }) by
        simp [readZapMsg, hin, hpipe, hs]]
      have hrc := (Mechanism.parseMetadata_rc (c.mechanism.setUserId (content r).user) .new
        (content r).metadata).trans (hspeaks r).1.2
      dsimp only
      rw [checkReply_parts (hspeaks r).1]
      dsimp only
      split <;> rename_i hparse <;> rw [hparse] at hrc
      · cases hrc
      · exact ⟨⟨hconnected, hactive.trans hin.symm, hsignalled, rfl⟩, .inr ⟨r, rfl, rfl, rfl⟩⟩

/-- **`zap_msg_available` of NULL**, which has not received a reply. -/
theorem Carries.null {n : NullMechanism} (h : Carries content s n.zap.session)
    (hspeaks : Speaks n.zap.options content) (hn : n.zapReplyReceived = false)
    (hnull : m.null = true) (hreply : m.reply = none) :
    ∃ t m', s.zapMsgAvailable (.running m) = .ok t ∧ t.engine = some (.running m') ∧
      n.zapMsgAvailable.1 = .ok ∧ Carries content t n.zapMsgAvailable.2.zap.session ∧
      n.zapMsgAvailable.2.zapReplyReceived = m'.reply.isSome := by
  have hreceive := h.receive hpipe hspeaks m
  refine ⟨s.receiveAndProcessZapReply m, ?_⟩
  unfold NullMechanism.zapMsgAvailable
  rw [if_neg (by simp [hn])]
  generalize n.zap.receiveAndProcessZapReply = result at hreceive ⊢
  obtain ⟨outcome, zap⟩ := result
  obtain ⟨hcarries, ⟨hengine, rfl : outcome = _⟩ | ⟨r, hengine, rfl : outcome = _, -⟩⟩ := hreceive
  · exact ⟨m, by simp [zapMsgAvailable, hnull, hreply], hengine, rfl, hcarries,
      by simp [hn, hreply]⟩
  · exact ⟨_, by simp [zapMsgAvailable, hnull, hreply], hengine, rfl, hcarries, rfl⟩

/-- **`zap_msg_available` of PLAIN and CURVE**, which wait for the reply. -/
theorem Carries.handshake {c : ZapHandshake} (h : Carries content s c.zap.session)
    (hspeaks : Speaks c.zap.options content) (hc : c.state = .waitingForZapReply)
    (hnull : m.null = false) (hasked : m.request.isSome = true) (hreply : m.reply = none) :
    ∃ t m' c', s.zapMsgAvailable (.running m) = .ok t ∧ t.engine = some (.running m') ∧
      c.zapMsgAvailable = .ok (.ok, c') ∧ Carries content t c'.zap.session ∧
      match m'.reply with
      | none => c'.state = .waitingForZapReply
      | some r => if r.accepted then c'.state = c.zapReplyOkState
          else c'.state = .errorSent ∨ c'.state = .sendingError := by
  have hreceive := h.receive hpipe hspeaks m
  have hcall : s.zapMsgAvailable (.running m) = .ok (s.receiveAndProcessZapReply m) := by
    simp [zapMsgAvailable, hnull, hasked, hreply]
  refine ⟨s.receiveAndProcessZapReply m, ?_⟩
  unfold ZapHandshake.zapMsgAvailable ZapHandshake.receiveAndProcessZapReply
  rw [if_pos hc]
  generalize c.zap.receiveAndProcessZapReply = result at hreceive ⊢
  obtain ⟨outcome, zap⟩ := result
  obtain ⟨hcarries, ⟨hengine, rfl : outcome = _⟩ | ⟨r, hengine, rfl : outcome = _, hcode⟩⟩ :=
    hreceive
  · exact ⟨m, _, hcall, hengine, rfl, hcarries, by simp [hc, hreply]⟩
  · refine ⟨_, _, hcall, hengine, rfl, hcarries, ?_⟩
    rcases ZapHandshake.handleZapStatusCode_state (h := { c with zap }) hcode (hspeaks r).1.1 with
      ⟨h200, hstate⟩ | ⟨h200, hstate⟩
    all_goals simpa [(hspeaks r).2, h200] using hstate

end

end AuthSession
end LibZmq
