import LibZmq.Security.CurveServer

/-!
# A client of CURVE is authenticated

The engine calls the server until a call fails. Whatever the peer sends and whatever the ZAP
handler answers, the server becomes ready only after the steps of the handshake, in their order.

* `CurveServerNet` is the server with its engine, its peer and the ZAP handler, and the history of
  the calls.
* `Handshaken` lists what has to be found in the history.
-/

namespace LibZmq

open CurveServer
open LibZmq.Core (cut slice Exec)
open Wire (ascii)

/-- A call with the server before and after it. -/
structure CurveServerEvent where
  before : CurveServer
  call : ServerCall WelcomeRandom
  rc : Rc
  after : CurveServer

namespace CurveServerEvent

variable (nacl : Nacl) (options : Options)
  (secretKey cnSecret cookieKey cnClient clientKey : Block 32) (e : CurveServerEvent)

/-- A HELLO of the short-term key `cnClient` was accepted: its box opens under that key and the
secret key of the server. -/
def HelloAccepted : Prop :=
  ∃ msg handler, e.call = .process msg handler ∧ e.before.handshake.state = .waitingForHello ∧
    CurveServer.HelloOpens nacl secretKey cnClient msg ∧ e.rc = .ok

/-- A WELCOME was produced with a cookie under the key `cookieKey`. -/
def WelcomeProduced : Prop :=
  ∃ random, e.call = .next random ∧ e.before.handshake.state = .sendingWelcome ∧
    random.cookieKey = cookieKey ∧ e.before.cnClient = some cnClient ∧ e.rc = .ok

/-- An INITIATE of the key `clientKey` was accepted: cookie, box and vouch open and fit to the
connection, and the metadata is proper. -/
def InitiateAccepted : Prop :=
  ∃ msg handler metadata, e.call = .process msg handler ∧
    e.before.handshake.state = .waitingForInitiate ∧
    CurveServer.InitiateOpens nacl cookieKey cnClient cnSecret msg clientKey metadata ∧
    (Mechanism.new.parseMetadata options false metadata).1 = .ok ∧ e.rc = .ok

/-- An INITIATE was accepted. -/
def isInitiate : Bool :=
  match e.call with
  | .process _ _ => e.before.handshake.state == .waitingForInitiate && e.rc == .ok
  | _ => false

/-- The reply `r` of the ZAP handler was read. -/
def ReplyRead (r : ZapReply) : Prop :=
  e.after.handshake.zap.session.readings =
    e.before.handshake.zap.session.readings ++ [zapFrames r.parts]

end CurveServerEvent

open CurveServerEvent (isInitiate)

/-- A server, the calls up to now, whether a call has failed, and the fault that has ended the
run. -/
structure CurveServerNet where
  server : CurveServer
  history : List CurveServerEvent
  stopped : Bool
  fault : Option MechanismFault

/-- What happens to a server. -/
inductive ServerAct (ι : Type) where
  | call (c : ServerCall ι)
  /-- Messages of the ZAP handler arrive. -/
  | arrive (answers : List (List Bytes))
  /-- The ZAP handler goes away. -/
  | hangUp
deriving DecidableEq

/-- After the failure of one of these calls the engine gives up. -/
def ServerCall.fatal : ServerCall ι → Rc → Bool
  | .next _, _ => false
  | .process _ _, rc | .zapMsgAvailable, rc => rc != .ok

namespace CurveServerNet

def initial (options : Options) (peerAddress : Bytes)
    (secretKey cnPublic cnSecret : Block 32) : CurveServerNet :=
  { server := .new options peerAddress secretKey cnPublic cnSecret, history := [], stopped := false,
    fault := none }

def session (n : CurveServerNet) : ZapSession := n.server.handshake.zap.session

def next (nacl : Nacl) (n : CurveServerNet) : ServerAct WelcomeRandom → CurveServerNet
  | .call c =>
      match n.server.perform nacl c with
      | .error f => { n with fault := some f }
      | .ok (rc, s) =>
          { n with
            server := s
            history := n.history ++ [⟨n.server, c, rc, s⟩]
            stopped := c.fatal rc }
  | .arrive answers => { n with server := n.server.setSession (n.session.arrive answers) }
  | .hangUp => { n with server := n.server.setSession n.session.hangUp }

/-- A fault ends the run; a call that fails is the last one. -/
def Step (nacl : Nacl) (n : CurveServerNet) (a : ServerAct WelcomeRandom) (n' : CurveServerNet) :
    Prop :=
  n.fault = none ∧ (∀ c, a = .call c → n.stopped = false) ∧ n.next nacl a = n'

/-- The server has asked the ZAP handler, or has to ask it. -/
def Asked (n : CurveServerNet) : Prop :=
  n.session.requests ≠ [] ∨
    (n.server.options.zapEnforceDomain = true ∧ n.server.options.zapDomain ≠ [])

/-- The request about the key of a client. -/
def keyRequest (n : CurveServerNet) (clientKey : Block 32) : List ZapFrame :=
  n.server.handshake.zap.request (ascii "CURVE") [clientKey.toList]

/-- The three steps of the handshake, the keys that come out of it, and what was said to the ZAP
handler. -/
structure Handshaken (nacl : Nacl) (options : Options) (secretKey cnSecret : Block 32)
    (n : CurveServerNet) (hello welcome initiate : CurveServerEvent)
    (cnClient cookieKey clientKey key : Block 32) : Prop where
  order : [hello, welcome, initiate].Sublist n.history
  hello : hello.HelloAccepted nacl secretKey cnClient
  welcome : welcome.WelcomeProduced cookieKey cnClient
  initiate : initiate.InitiateAccepted nacl options cnSecret cookieKey cnClient clientKey
  once : n.history.countP CurveServerEvent.isInitiate = 1
  derived : nacl.beforenm cnClient cnSecret = some key
  precom : n.server.base.cnPrecom = some key
  reported : ∀ q ∈ n.session.requests, q = n.keyRequest clientKey

/-- With INITIATE or after it the ZAP handler has replied `200`. -/
def Approved (options : Options) (n : CurveServerNet) (hello welcome initiate : CurveServerEvent) :
    Prop :=
  ∃ (reply : CurveServerEvent) (r : ZapReply),
    (reply = initiate ∨ [hello, welcome, initiate, reply].Sublist n.history) ∧ reply.ReplyRead r ∧
      r.WellFormed options ∧ r.status = ascii "200"

/-- **A server that is ready has authenticated its client.** -/
def Authenticated (nacl : Nacl) (options : Options) (secretKey cnSecret : Block 32)
    (n : CurveServerNet) : Prop :=
  n.server.status = .ready → ∃ hello welcome initiate cnClient cookieKey clientKey key,
    Handshaken nacl options secretKey cnSecret n hello welcome initiate cnClient cookieKey clientKey
      key ∧ (n.Asked → Approved options n hello welcome initiate)

/-! ## The invariant -/

/-- Neither an INITIATE nor a request. -/
def Fresh (n : CurveServerNet) : Prop :=
  n.session.requests = [] ∧ n.history.countP CurveServerEvent.isInitiate = 0

/-- What the history shows in each state of the server. -/
def Trail (nacl : Nacl) (options : Options) (secretKey cnSecret : Block 32) (n : CurveServerNet) :
    ServerState → Prop
  | .waitingForHello => n.Fresh
  | .sendingWelcome => n.Fresh ∧ ∃ hello cnClient, [hello].Sublist n.history ∧
      hello.HelloAccepted nacl secretKey cnClient ∧ n.server.cnClient = some cnClient
  | .waitingForInitiate => n.Fresh ∧ ∃ hello welcome cnClient cookieKey,
      [hello, welcome].Sublist n.history ∧ hello.HelloAccepted nacl secretKey cnClient ∧
      welcome.WelcomeProduced cookieKey cnClient ∧ n.server.cnClient = some cnClient ∧
      n.server.cookieKey = some cookieKey
  | .waitingForZapReply => ∃ hello welcome initiate cnClient cookieKey clientKey key,
      Handshaken nacl options secretKey cnSecret n hello welcome initiate cnClient cookieKey
        clientKey key
  | .sendingReady | .ready => ∃ hello welcome initiate cnClient cookieKey clientKey key,
      Handshaken nacl options secretKey cnSecret n hello welcome initiate cnClient cookieKey
        clientKey key ∧ (n.Asked → Approved options n hello welcome initiate)
  | .sendingError | .errorSent => True

/-- The configuration of the connection. -/
structure Configured (options : Options) (secretKey cnSecret : Block 32) (s : CurveServer) :
    Prop where
  options : s.options = options
  secretKey : s.secretKey = secretKey
  cnSecret : s.cnSecret = cnSecret
  okState : s.handshake.zapReplyOkState = .sendingReady

structure Sound (nacl : Nacl) (options : Options) (secretKey cnSecret : Block 32)
    (n : CurveServerNet) : Prop where
  /-- A call that has failed leaves the server ready only if it was. -/
  stopped : n.stopped = true → n.server.handshake.state = .ready →
    Trail nacl options secretKey cnSecret n .ready
  running : n.stopped = false → Configured options secretKey cnSecret n.server ∧
    Trail nacl options secretKey cnSecret n n.server.handshake.state

variable {nacl : Nacl} {options : Options} {secretKey cnSecret : Block 32} {n n' : CurveServerNet}
  {s : CurveServer} {rc : Rc}

/-- `n'` is like `n` in everything that the invariant is about, and nothing of the history is
lost. -/
structure Alike (n n' : CurveServerNet) : Prop where
  history : n.history.Sublist n'.history
  count : n'.history.countP CurveServerEvent.isInitiate =
    n.history.countP CurveServerEvent.isInitiate
  requests : n'.session.requests = n.session.requests
  options : n'.server.options = n.server.options
  peerAddress : n'.server.handshake.zap.peerAddress = n.server.handshake.zap.peerAddress
  cnClient : n'.server.cnClient = n.server.cnClient
  cookieKey : n.server.handshake.state = .sendingWelcome ∨
    n'.server.cookieKey = n.server.cookieKey
  cnPrecom : n'.server.base.cnPrecom = n.server.base.cnPrecom

namespace Alike

variable {hello welcome initiate : CurveServerEvent} {cnClient cookieKey clientKey key : Block 32}

section
variable (h : Alike n n')
include h

theorem fresh (hfresh : n.Fresh) : n'.Fresh :=
  ⟨h.requests.trans hfresh.1, h.count.trans hfresh.2⟩

theorem handshaken
    (hn : Handshaken nacl options secretKey cnSecret n hello welcome initiate cnClient cookieKey
      clientKey key) :
    Handshaken nacl options secretKey cnSecret n' hello welcome initiate cnClient cookieKey
      clientKey key where
  __ := hn
  order := hn.order.trans h.history
  once := h.count.trans hn.once
  precom := h.cnPrecom.trans hn.precom
  reported := fun q hq => by
    rw [h.requests] at hq
    have hsame : n'.keyRequest clientKey = n.keyRequest clientKey := by
      have hoptions : n'.server.handshake.zap.options = n.server.handshake.zap.options := h.options
      simp [keyRequest, ZapClient.request, hoptions, h.peerAddress]
    rw [hsame]
    exact hn.reported q hq

theorem asked (hn : n'.Asked) : n.Asked := by
  unfold Asked at hn ⊢
  rwa [h.requests, h.options] at hn

theorem approved (hn : Approved options n hello welcome initiate) :
    Approved options n' hello welcome initiate := by
  obtain ⟨reply, r, hplace, hrest⟩ := hn
  exact ⟨reply, r, hplace.imp id fun hsub => hsub.trans h.history, hrest⟩

theorem trail (hn : Trail nacl options secretKey cnSecret n n.server.handshake.state) :
    Trail nacl options secretKey cnSecret n' n.server.handshake.state := by
  have hcookie := h.cookieKey
  generalize n.server.handshake.state = state at hn hcookie ⊢
  cases state with
  | waitingForHello => exact h.fresh hn
  | sendingWelcome =>
    obtain ⟨hfresh, hello, cnClient, hsub, hhello, hclient⟩ := hn
    exact ⟨h.fresh hfresh, hello, cnClient, hsub.trans h.history, hhello, h.cnClient.trans hclient⟩
  | waitingForInitiate =>
    obtain ⟨hfresh, hello, welcome, cnClient, cookieKey, hsub, hhello, hwelcome, hclient,
      hkey⟩ := hn
    have hcookie := hcookie.resolve_left nofun
    exact ⟨h.fresh hfresh, hello, welcome, cnClient, cookieKey, hsub.trans h.history, hhello,
      hwelcome, h.cnClient.trans hclient, hcookie.trans hkey⟩
  | waitingForZapReply =>
    obtain ⟨hello, welcome, initiate, cnClient, cookieKey, clientKey, key, hn⟩ := hn
    exact ⟨hello, welcome, initiate, cnClient, cookieKey, clientKey, key, h.handshaken hn⟩
  | sendingReady | ready =>
    obtain ⟨hello, welcome, initiate, cnClient, cookieKey, clientKey, key, hn, happroved⟩ := hn
    exact ⟨hello, welcome, initiate, cnClient, cookieKey, clientKey, key, h.handshaken hn,
      fun hasked => h.approved (happroved (h.asked hasked))⟩
  | sendingError | errorSent => trivial

end

end Alike

/-- The server after a call. -/
def after (n : CurveServerNet) (c : ServerCall WelcomeRandom) (rc : Rc) (s : CurveServer) :
    CurveServerNet :=
  { n with
    server := s
    history := n.history ++ [⟨n.server, c, rc, s⟩]
    stopped := c.fatal rc }

theorem countP_after (e : CurveServerEvent) (history : List CurveServerEvent) :
    (history ++ [e]).countP isInitiate =
      history.countP isInitiate + if e.isInitiate then 1 else 0 := by
  rw [List.countP_append, List.countP_singleton]

/-- A call that is not the acceptance of an INITIATE and leaves the keys alone. -/
theorem Alike.after (hother : (⟨n.server, c, rc, s⟩ : CurveServerEvent).isInitiate = false)
    (hrequests : s.handshake.zap.session.requests = n.session.requests)
    (hconnection : SameConnection n.server s) (hclient : s.cnClient = n.server.cnClient)
    (hcookie : n.server.handshake.state = .sendingWelcome ∨ s.cookieKey = n.server.cookieKey)
    (hprecom : s.base.cnPrecom = n.server.base.cnPrecom) : Alike n (n.after c rc s) where
  history := List.sublist_append_left _ _
  count := by
    show (n.history ++ [_]).countP _ = _
    rw [countP_after, hother]
    rfl
  requests := hrequests
  options := hconnection.options
  peerAddress := hconnection.peerAddress
  cnClient := hclient
  cookieKey := hcookie
  cnPrecom := hprecom

theorem Configured.keeps (h : Configured options secretKey cnSecret s)
    (hsame : SameConnection s s') : Configured options secretKey cnSecret s' where
  options := hsame.options.trans h.options
  secretKey := hsame.secretKey.trans h.secretKey
  cnSecret := hsame.cnSecret.trans h.cnSecret
  okState := hsame.okState.trans h.okState

variable {cnClient : Block 32}

theorem Sound.next (h : Sound nacl options secretKey cnSecret n) (hstopped : n.stopped = false)
    (hcall : n.server.perform nacl (.next random) = .ok (rc, s)) :
    Sound nacl options secretKey cnSecret (n.after (.next random) rc s) := by
  obtain ⟨hconfigured, htrail⟩ := h.running hstopped
  have hother : (⟨n.server, .next random, rc, s⟩ : CurveServerEvent).isInitiate = false :=
    rfl
  refine ⟨nofun, fun _ => ?_⟩
  show _ ∧ Trail _ _ _ _ _ s.handshake.state
  cases perform_next hcall with
  | idle _ hsame hcookie hclient hprecom hconnection =>
    have halike := Alike.after hother (by rw [hsame]; rfl) hconnection hclient hcookie hprecom
    rw [hsame]
    exact ⟨hconfigured.keeps hconnection, halike.trail htrail⟩
  | welcome hstate hsame hcookie hclient hclient' hconnection =>
    refine ⟨hconfigured.keeps hconnection, ?_⟩
    rw [hstate] at htrail
    rw [hsame]
    obtain ⟨hfresh, hello, cnClient₀, hsub, hhello, hclient₀⟩ := htrail
    obtain rfl := Option.some.inj (hclient₀.symm.trans hclient)
    refine ⟨⟨?_, ?_⟩, hello, _, cnClient₀, _, hsub.append (List.Sublist.refl [_]), hhello,
      ⟨random, rfl, hstate, rfl, hclient, rfl⟩, hclient', hcookie⟩
    · show s.handshake.zap.session.requests = []
      rw [hsame]
      exact hfresh.1
    · exact (countP_after _ _).trans (by rw [hfresh.2]; rfl)
  | ready hstate hsame hclient hcookie hprecom hconnection =>
    have halike := Alike.after hother (by rw [hsame]; rfl) hconnection hclient (.inr hcookie)
      hprecom
    have hready := halike.trail htrail
    rw [hstate] at hready
    rw [hsame]
    exact ⟨hconfigured.keeps hconnection, hready⟩
  | error _ hsame hconnection =>
    rw [hsame]
    exact ⟨hconfigured.keeps hconnection, trivial⟩

/-- A call that fails stops the server before it is ready. -/
theorem Sound.refused (hfatal : c.fatal rc = true) (hstate : s.handshake.state ≠ .ready) :
    Sound nacl options secretKey cnSecret (n.after c rc s) where
  stopped := fun _ hready => absurd hready hstate
  running := fun hgoes => by
    rw [show (n.after c rc s).stopped = c.fatal rc from rfl, hfatal] at hgoes
    cases hgoes

theorem fatal_process (hrc : rc ≠ .ok) :
    (ServerCall.process (ι := WelcomeRandom) msg handler).fatal rc = true := by
  simpa [ServerCall.fatal] using hrc

theorem Trail.hello (htrail : Trail nacl options secretKey cnSecret n .waitingForHello)
    (hstate : n.server.handshake.state = .waitingForHello)
    (hopen : HelloOpens nacl secretKey cnClient msg)
    (hsame : s.handshake = { n.server.handshake with state := .sendingWelcome })
    (hclient : s.cnClient = some cnClient) :
    Trail nacl options secretKey cnSecret (n.after (.process msg handler) .ok s)
      .sendingWelcome := by
  refine ⟨⟨?_, ?_⟩, _, cnClient, List.sublist_append_right _ _,
    ⟨msg, handler, rfl, hstate, hopen, rfl⟩, hclient⟩
  · show s.handshake.zap.session.requests = []
    rw [hsame]
    exact htrail.1
  · refine (countP_after _ _).trans ?_
    rw [show isInitiate _ = false by simp [isInitiate, hstate], htrail.2]
    rfl

/-- INITIATE is accepted, and the ZAP handler may have replied. -/
theorem Trail.initiate {cookieKey clientKey key : Block 32}
    (hconfigured : Configured options secretKey cnSecret n.server)
    (htrail : Trail nacl options secretKey cnSecret n .waitingForInitiate)
    (hstate : n.server.handshake.state = .waitingForInitiate)
    (hcookie : n.server.cookieKey = some cookieKey) (hclient : n.server.cnClient = some cnClient)
    (hopen : InitiateOpens nacl cookieKey cnClient cnSecret msg clientKey metadata)
    (hparse : (Mechanism.new.parseMetadata options false metadata).1 = .ok)
    (hkey : nacl.beforenm cnClient cnSecret = some key) (hprecom : s.base.cnPrecom = some key)
    (hverdict : Verdict n.server.handshake clientKey s.handshake)
    (hconnection : SameConnection n.server s) :
    Trail nacl options secretKey cnSecret (n.after (.process msg handler) .ok s)
      s.handshake.state := by
  obtain ⟨hfresh, hello, welcome, cnClient₀, cookieKey₀, hsub, hhello, hwelcome, hclient₀,
    hcookie₀⟩ := htrail
  obtain rfl := Option.some.inj (hclient₀.symm.trans hclient)
  obtain rfl := Option.some.inj (hcookie₀.symm.trans hcookie)
  have hrequest : (n.after (.process msg handler) .ok s).keyRequest clientKey =
      n.server.handshake.zap.request (ascii "CURVE") [clientKey.toList] := by
    have hoptions : s.handshake.zap.options = n.server.handshake.zap.options := hconnection.options
    simp [keyRequest, after, ZapClient.request, hoptions, hconnection.peerAddress]
  -- whatever the handler has said, the steps of the handshake are there
  have hdone : (∀ q ∈ s.handshake.zap.session.requests,
        q = n.server.handshake.zap.request (ascii "CURVE") [clientKey.toList]) →
      Handshaken nacl options secretKey cnSecret (n.after (.process msg handler) .ok s) hello
        welcome ⟨n.server, .process msg handler, .ok, s⟩ cnClient₀ cookieKey₀ clientKey
        key := fun hq =>
    { order := hsub.append (List.Sublist.refl [_])
      hello := hhello
      welcome := hwelcome
      initiate := ⟨msg, handler, metadata, rfl, hstate, hopen, hparse, rfl⟩
      once := by
        refine (countP_after _ _).trans ?_
        rw [show isInitiate _ = true by simp [isInitiate, hstate], hfresh.2]
        rfl
      derived := hkey
      precom := hprecom
      reported := fun q hmem => (hq q hmem).trans hrequest.symm }
  have hasked : s.handshake.zap.session.requests = n.server.handshake.zap.session.requests ++
      [n.server.handshake.zap.request (ascii "CURVE") [clientKey.toList]] →
      ∀ q ∈ s.handshake.zap.session.requests,
        q = n.server.handshake.zap.request (ascii "CURVE") [clientKey.toList] := by
    intro hrequests q hmem
    rw [hrequests, show n.server.handshake.zap.session.requests = [] from hfresh.1] at hmem
    exact List.mem_singleton.mp hmem
  cases hverdict with
  | unasked hfree hrequests hnext =>
    have hnone : s.handshake.zap.session.requests = [] := hrequests.trans hfresh.1
    rw [hnext]
    refine ⟨hello, welcome, _, cnClient₀, cookieKey₀, clientKey, key,
      hdone (by rw [hnone]; nofun), fun hn => absurd hn ?_⟩
    rintro (hreq | ⟨henforce, hdomain⟩)
    · exact hreq hnone
    · have hoptions : (n.after (.process msg handler) .ok s).server.options = n.server.options :=
        hconnection.options
      rw [hoptions] at henforce hdomain
      exact hfree ⟨(Options.zapRequired_iff _).mpr hdomain, henforce⟩
  | pending hrequests hnext =>
    rw [hnext]
    exact ⟨hello, welcome, _, cnClient₀, cookieKey₀, clientKey, key, hdone (hasked hrequests)⟩
  | approved hrequests hform hstatus hread hnext =>
    rename_i r
    rw [hnext, hconfigured.okState]
    have hform : r.WellFormed options := by
      rw [← hconfigured.options]
      exact hform
    exact ⟨hello, welcome, _, cnClient₀, cookieKey₀, clientKey, key, hdone (hasked hrequests),
      fun _ => ⟨_, _, .inl rfl, hread, hform, hstatus⟩⟩
  | denied hnext => rcases hnext with hnext | hnext <;> rw [hnext] <;> trivial

section
variable (h : Sound nacl options secretKey cnSecret n)
include h

theorem Sound.process (hstopped : n.stopped = false)
    (hcall : n.server.perform nacl (.process msg handler) = .ok (rc, s)) :
    Sound nacl options secretKey cnSecret (n.after (.process msg handler) rc s) := by
  obtain ⟨hconfigured, htrail⟩ := h.running hstopped
  unfold perform processHandshakeCommand at hcall
  dsimp only at hcall
  split at hcall
  · rename_i hstate
    have hgreeted := processHello_spec nacl n.server msg
    rw [Except.ok.inj hcall] at hgreeted
    cases hgreeted with
    | refused hrc hsame =>
      refine .refused (fatal_process hrc) ?_
      rw [show s.handshake = n.server.handshake from hsame, hstate]
      nofun
    | accepted hopen hsame hclient hconnection =>
      rw [hstate] at htrail
      rw [hconfigured.secretKey] at hopen
      refine ⟨nofun, fun _ => ⟨hconfigured.keeps hconnection, ?_⟩⟩
      show Trail _ _ _ _ _ s.handshake.state
      rw [show s.handshake = _ from hsame]
      exact htrail.hello hstate hopen hsame hclient
  · rename_i hstate
    cases processInitiate_spec hstate hconfigured.okState hcall with
    | refused hrc hready => exact .refused (fatal_process hrc) hready
    | accepted hcookie hclient hopen hparse hkey hprecom hverdict hconnection =>
      rw [hstate] at htrail
      rw [hconfigured.cnSecret] at hopen hkey
      rw [hconfigured.options] at hparse
      exact ⟨nofun, fun _ => ⟨hconfigured.keeps hconnection,
        htrail.initiate hconfigured hstate hcookie hclient hopen hparse hkey hprecom hverdict
          hconnection⟩⟩
  · cases hcall
    have halike : Alike n (n.after (.process msg handler) (.error .eproto) n.server) :=
      Alike.after (by simp [isInitiate]) rfl (.refl _) rfl (.inr rfl) rfl
    refine ⟨fun _ hready => ?_, nofun⟩
    have htrail := halike.trail htrail
    rwa [show n.server.handshake.state = .ready from hready] at htrail

theorem Sound.zapMsgAvailable (hstopped : n.stopped = false)
    (hcall : n.server.perform nacl .zapMsgAvailable = .ok (rc, s)) :
    Sound nacl options secretKey cnSecret (n.after .zapMsgAvailable rc s) := by
  obtain ⟨hconfigured, htrail⟩ := h.running hstopped
  obtain ⟨handshake, outcome, hreceive, rfl, rfl⟩ := zapMsgAvailable_spec hcall
  obtain ⟨hstate, hreceived, hok, -⟩ := ZapHandshake.receive_spec hreceive
  obtain ⟨hoptions, haddress, hrequests⟩ := hreceived.same
  have hstate : n.server.handshake.state = .waitingForZapReply := hstate
  have hconnection : SameConnection n.server { n.server with handshake } :=
    ⟨rfl, rfl, hoptions, haddress, hok⟩
  have halike : Alike n (n.after .zapMsgAvailable outcome.rc { n.server with handshake }) :=
    Alike.after rfl hrequests hconnection rfl (.inr rfl) rfl
  rw [hstate] at htrail
  obtain ⟨hello, welcome, initiate, cnClient, cookieKey, clientKey, key, hdone⟩ := htrail
  have hdone' := halike.handshaken hdone
  rcases ZapHandshake.receive_cases hreceive with ⟨-, hwaits⟩ |
    ⟨-, r, hform, hread, ⟨hstatus, hnext⟩ | ⟨-, hnext⟩⟩
  · -- there is no reply yet
    refine ⟨fun _ hready => ?_, fun _ => ⟨hconfigured.keeps hconnection, ?_⟩⟩
    · rw [show handshake.state = .ready from hready] at hwaits
      cases hwaits
    · show Trail _ _ _ _ _ handshake.state
      rw [hwaits]
      exact ⟨hello, welcome, initiate, cnClient, cookieKey, clientKey, key, hdone'⟩
  · -- the handler has accepted the client
    have hnext := hnext.trans hconfigured.okState
    refine ⟨fun _ hready => ?_, fun _ => ⟨hconfigured.keeps hconnection, ?_⟩⟩
    · rw [show handshake.state = .ready from hready] at hnext
      cases hnext
    · show Trail _ _ _ _ _ handshake.state
      have hform : r.WellFormed options := by
        rw [← hconfigured.options]
        exact hform
      rw [hnext]
      exact ⟨hello, welcome, initiate, cnClient, cookieKey, clientKey, key, hdone', fun _ =>
        ⟨_, r, .inr (hdone.order.append (List.Sublist.refl [_])), hread, hform, hstatus⟩⟩
  · refine ⟨fun _ hready => ?_, fun _ => ⟨hconfigured.keeps hconnection, ?_⟩⟩
    · rcases hnext with hnext | hnext <;>
      · rw [show handshake.state = .ready from hready] at hnext
        cases hnext
    · show Trail _ _ _ _ _ handshake.state
      rcases hnext with hnext | hnext <;> rw [hnext] <;> trivial

/-- What happens between the calls, on the pipe to the ZAP handler, changes neither the state nor
the requests. -/
theorem Sound.alike (halike : Alike n n') (hsame : n'.stopped = n.stopped)
    (hstate : n'.server.handshake.state = n.server.handshake.state)
    (hconnection : SameConnection n.server n'.server) :
    Sound nacl options secretKey cnSecret n' := by
  refine ⟨fun hstopped hready => ?_, fun hstopped => ?_⟩
  · have hready : n.server.handshake.state = .ready := hstate.symm.trans hready
    have htrail := h.stopped (hsame.symm.trans hstopped) hready
    rw [← hready] at htrail ⊢
    exact halike.trail htrail
  · obtain ⟨hconfigured, htrail⟩ := h.running (hsame.symm.trans hstopped)
    rw [hstate]
    exact ⟨hconfigured.keeps hconnection, halike.trail htrail⟩

theorem Sound.setSession {session : ZapSession}
    (hrequests : session.requests = n.session.requests) :
    Sound nacl options secretKey cnSecret { n with server := n.server.setSession session } :=
  h.alike ⟨List.Sublist.refl _, rfl, hrequests, rfl, rfl, rfl, .inr rfl, rfl⟩ rfl rfl
    ⟨rfl, rfl, rfl, rfl, rfl⟩

theorem Sound.step (hstep : Step nacl n a n') : Sound nacl options secretKey cnSecret n' := by
  obtain ⟨-, hcalls, rfl⟩ := hstep
  cases a with
  | call c =>
    have hstopped := hcalls c rfl
    unfold CurveServerNet.next
    dsimp only
    split
    · exact h.alike ⟨List.Sublist.refl _, rfl, rfl, rfl, rfl, rfl, .inr rfl, rfl⟩ rfl rfl (.refl _)
    rename_i rc s hcall
    cases c with
    | next => exact h.next hstopped hcall
    | process => exact h.process hstopped hcall
    | zapMsgAvailable => exact h.zapMsgAvailable hstopped hcall
  | arrive =>
    refine h.setSession ?_
    unfold ZapSession.arrive
    split <;> rfl
  | hangUp => exact h.setSession rfl

end

theorem Sound.initial (options : Options) (peerAddress : Bytes)
    (secretKey cnPublic cnSecret : Block 32) :
    Sound nacl options secretKey cnSecret
      (initial options peerAddress secretKey cnPublic cnSecret) where
  stopped := nofun
  running := fun _ => ⟨⟨rfl, rfl, rfl, rfl⟩, rfl, rfl⟩

theorem Sound.authenticated (h : Sound nacl options secretKey cnSecret n) :
    Authenticated nacl options secretKey cnSecret n := by
  intro hready
  have hstate : n.server.handshake.state = .ready := by
    unfold status ZapHandshake.status at hready
    split at hready
    · assumption
    · split at hready <;> cases hready
  cases hstopped : n.stopped with
  | true => exact h.stopped hstopped hstate
  | false =>
    have htrail := (h.running hstopped).2
    rw [hstate] at htrail
    exact htrail

/-- **The server of CURVE authenticates its client**: whatever the peer and the ZAP handler do, a
server that is ready has accepted a HELLO under its secret key, has produced a WELCOME and has then
accepted one INITIATE, whose cookie, box and vouch belong to this connection, and the ZAP handler
has approved the key of the client, if it was asked or has to be asked. The common key is that of
the short-term keys. -/
theorem client_authenticated (options : Options) (peerAddress : Bytes)
    (secretKey cnPublic cnSecret : Block 32) (tr : List (ServerAct WelcomeRandom))
    (n : CurveServerNet)
    (hrun : Exec (Step nacl) (initial options peerAddress secretKey cnPublic cnSecret) tr n) :
    Authenticated nacl options secretKey cnSecret n :=
  (hrun.invariant (Sound nacl options secretKey cnSecret) (fun _ _ _ h hstep => h.step hstep)
    (.initial options peerAddress secretKey cnPublic cnSecret)).authenticated

/-! ## A run -/

instance (n : CurveServerNet) (a : ServerAct WelcomeRandom) :
    Decidable (∀ c, a = .call c → n.stopped = false) :=
  match a with
  | .call c => decidable_of_iff (n.stopped = false) ⟨fun h _ _ => h, fun h => h c rfl⟩
  | .arrive _ | .hangUp => .isTrue nofun

theorem step_of_attempt (n : CurveServerNet) (a b : ServerAct WelcomeRandom) (n' : CurveServerNet)
    (h : Core.attempt (fun n a => Except.ok (ε := Unit) (n.next nacl a))
      (fun n a => n.fault = none ∧ ∀ c, a = .call c → n.stopped = false) n a = some (b, n')) :
    Step nacl n b n' := by
  obtain ⟨⟨hfault, hcalls⟩, hnext⟩ := Core.attempt_eq_some h
  exact ⟨hfault, hcalls, Except.ok.inj hnext⟩

open CurveClientNet (same sampleOptions)

/-- A server with a ZAP domain. -/
def sample : CurveServerNet :=
  initial { sampleOptions .push with zapDomain := ascii "global" } (ascii "10.0.0.1") (same 32 2)
    (same 32 4) (same 32 4)

/-- The random bytes of its WELCOME. -/
def sampleRandom : WelcomeRandom := ⟨same 16 5, same 32 6, same 16 7⟩

/-- A client that has read that WELCOME. -/
def sampleTools : CurveClientTools :=
  { publicKey := same 32 1, secretKey := same 32 1, cnPublic := same 32 3, cnSecret := same 32 3,
    serverKey := same 32 2, cnServer := some (same 32 4),
    cnCookie := some (same 16 5 ++ Cipher.mark.encrypt (same 32 6)
      (CurveServer.cookiePrefix ++ same 16 5) (same 32 3 ++ same 32 4)) }

def sampleHello : Bytes := (sampleTools.produceHello .mark 1).getD []

def sampleInitiate : Bytes :=
  match sampleTools.produceInitiate .mark 2 (same 16 8) [] with
  | .ok (some msg) => msg
  | _ => []

/-- The client is accepted after the ZAP handler has approved its key. -/
theorem client_authenticated_sample : ∃ tr n, Exec (Step .mark) sample tr n ∧
    n.server.status = .ready ∧ n.session.requests = [n.keyRequest (same 32 1)] ∧
    Authenticated .mark { sampleOptions .push with zapDomain := ascii "global" } (same 32 2)
      (same 32 4) n := by
  refine Core.exists_exec_with step_of_attempt
    (fun n => n.server.status = .ready ∧ n.session.requests = [n.keyRequest (same 32 1)])
    [.call (.process sampleHello ⟨true, []⟩), .call (.next sampleRandom),
      .call (.process sampleInitiate ⟨true, []⟩),
      .arrive [ZapReply.parts ⟨ascii "200", [], ascii "joe", []⟩], .call .zapMsgAvailable,
      .call (.next sampleRandom)] (by decide +kernel) ?_
  rintro tr n hexec ⟨hready, hrequest⟩
  exact ⟨hready, hrequest, client_authenticated _ _ _ _ _ tr n hexec⟩

end CurveServerNet
end LibZmq
