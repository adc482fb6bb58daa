import LibZmq.Security.CurveChannel

/-!
# A client and a server of CURVE

A client and a server that know the right keys talk to each other, and nothing is lost on the way
(`curve_client.cpp`, `curve_client_tools.hpp`, `curve_server.cpp`). The two sides have been written
apart; each of the four commands has a fixed layout that both have to agree on.

* `Nacl.Honest` is what is assumed about the cryptography: who has the keys can open the boxes.
* `CurvePair` is the two sides with the commands on their way.
* `Stage` are the nine states of the handshake.
-/

namespace LibZmq

open CurveServer List CurveBase
open LibZmq.Core (cut slice cut_eq slice_eq Exec)
open Wire (ascii getUint64)
open CurveClientTools (helloPrefix welcomePrefix vouchPrefix initiatePrefix readyPrefix helloName
  welcomeName initiateName readyName zeros openWelcome welcomeServer welcomeCookie)

/-! ## What is assumed about the cryptography -/

/-- Whoever has the key can open the box. -/
def Cipher.Opens (cipher : Cipher) : Prop :=
  ∀ (n : Nat) (key : Block 32) (nonce : Block 24) (text : Block n),
    cipher.decrypt key nonce (cipher.encrypt key nonce text) = some text

/-- `Pair` says which public and which secret key belong together. -/
structure Nacl.Honest (nacl : Nacl) (Pair : Block 32 → Block 32 → Prop) : Prop where
  /-- Both sides compute the same key. -/
  agree : ∀ {p s p' s' : Block 32}, Pair p s → Pair p' s' →
    ∃ key, nacl.beforenm p' s = some key ∧ nacl.beforenm p s' = some key
  afternm : nacl.afternm.Opens
  secretbox : nacl.secretbox.Opens

/-- The box may be given as bytes that were cut out of a message. -/
theorem Cipher.Opens.decrypt {cipher : Cipher} (h : cipher.Opens) {key : Block 32}
    {nonce : Block 24} {text : Block n} (b : Block (k + 16)) (hn : k = n)
    (hbox : b.toList = (cipher.encrypt key nonce text).toList) :
    ∃ t : Block k, cipher.decrypt key nonce b = some t ∧ t.toList = text.toList := by
  subst hn
  obtain rfl := List.Vector.eq _ _ hbox
  exact ⟨text, h _ key nonce text, rfl⟩

namespace Nacl.Honest

variable {nacl : Nacl} {Pair : Block 32 → Block 32 → Prop} {p s p' s' : Block 32}

/-- What one side puts into a box, the other one takes out of it. -/
theorem box (h : nacl.Honest Pair) (hpair : Pair p s) (hpair' : Pair p' s') {n : Nat}
    (nonce : Block 24) (text : Block n) :
    ∃ box, nacl.box p' s nonce text = some box ∧ ∀ {n' : Nat} {box' : Block (n' + 16)}, n' = n →
      box'.toList = box.toList →
      ∃ text' : Block n', nacl.boxOpen p s' nonce box' = some text' ∧
        text'.toList = text.toList := by
  obtain ⟨key, hkey, hkey'⟩ := h.agree hpair hpair'
  refine ⟨nacl.afternm.encrypt key nonce text, by rw [Nacl.box, hkey]; rfl, fun hn hbox => ?_⟩
  rw [Nacl.boxOpen, hkey']
  exact h.afternm.decrypt _ hn hbox

end Nacl.Honest

/-! ## The two sides -/

/-- The keys and the options of a client and a server. The keys `cn…` and `sn…` are generated for
the connection. -/
structure CurveSetup where
  clientOptions : Options
  serverOptions : Options
  peerAddress : Bytes
  clientPublic : Block 32
  clientSecret : Block 32
  serverPublic : Block 32
  serverSecret : Block 32
  cnPublic : Block 32
  cnSecret : Block 32
  snPublic : Block 32
  snSecret : Block 32

/-- A client and a server with the commands that are on their way, and everything that was sent. -/
structure CurvePair where
  client : CurveClient
  server : CurveServer
  toServer : List Bytes
  toClient : List Bytes
  wire : List (CurvePeer × Bytes)

/-- A call of an engine, with the random bytes that it may need. -/
inductive CurvePairAct where
  | clientNext (random : Block 16)
  | serverNext (random : WelcomeRandom)
  /-- The server is given the next command of the client. -/
  | serverProcess
  /-- The client is given the next command of the server. -/
  | clientProcess
deriving DecidableEq

/-- Why a handshake does not go on. -/
inductive HandshakeFailure where
  | fault (f : MechanismFault)
  | refused (e : HandshakeErrno)
deriving DecidableEq, Repr

namespace CurvePair

variable (nacl : Nacl) (handler : ZapHandler) (n : CurvePair)

/-- `next_handshake_command` of the client; what is produced is sent. -/
def clientNext (random : Block 16) : Except HandshakeFailure CurvePair :=
  match n.client.nextHandshakeCommand nacl random with
  | .error f => .error (.fault f)
  | .ok (.ok msg, client) =>
      .ok { n with client, toServer := n.toServer ++ [msg], wire := n.wire ++ [(.client, msg)] }
  | .ok (.error .eagain, client) => .ok { n with client }
  | .ok (.error e, _) => .error (.refused e)

/-- `next_handshake_command` of the server. -/
def serverNext (random : WelcomeRandom) : Except HandshakeFailure CurvePair :=
  match n.server.nextHandshakeCommand nacl random with
  | .error f => .error (.fault f)
  | .ok (.ok msg, server) =>
      .ok { n with server, toClient := n.toClient ++ [msg], wire := n.wire ++ [(.server, msg)] }
  | .ok (.error .eagain, server) => .ok { n with server }
  | .ok (.error e, _) => .error (.refused e)

/-- `process_handshake_command` of the server. -/
def serverProcess : Except HandshakeFailure CurvePair :=
  match n.toServer with
  | [] => .ok n
  | msg :: toServer =>
      match n.server.processHandshakeCommand nacl msg handler with
      | .error f => .error (.fault f)
      | .ok (.ok, server) => .ok { n with server, toServer }
      | .ok (.error e, _) => .error (.refused e)

/-- `process_handshake_command` of the client. -/
def clientProcess : Except HandshakeFailure CurvePair :=
  match n.toClient with
  | [] => .ok n
  | msg :: toClient =>
      match n.client.processHandshakeCommand nacl msg with
      | .error f => .error (.fault f)
      | .ok (.ok, client) => .ok { n with client, toClient }
      | .ok (.error e, _) => .error (.refused e)

def next : CurvePairAct → Except HandshakeFailure CurvePair
  | .clientNext random => n.clientNext nacl random
  | .serverNext random => n.serverNext nacl random
  | .serverProcess => n.serverProcess nacl handler
  | .clientProcess => n.clientProcess nacl

def Step (a : CurvePairAct) (n' : CurvePair) : Prop := n.next nacl handler a = .ok n'

end CurvePair

namespace CurveSetup

variable (u : CurveSetup)

def client : CurveClient :=
  .new u.clientOptions u.clientPublic u.clientSecret u.serverPublic u.cnPublic u.cnSecret

def server : CurveServer :=
  .new u.serverOptions u.peerAddress u.serverSecret u.snPublic u.snSecret

def initial : CurvePair :=
  { client := u.client, server := u.server, toServer := [], toClient := [], wire := [] }

end CurveSetup

/-! ## HELLO -/

namespace CurveSetup

variable (nacl : Nacl) (u : CurveSetup)

/-- The HELLO of the client, with its box. -/
def hello (box : Block (64 + 16)) : Bytes :=
  helloName ++ ([1, 0] ++ (List.replicate 72 0 ++
    (u.cnPublic.toList ++ ((shortNonce 1).toList ++ box.toList))))

/-- The client that waits for WELCOME. -/
def greeting : CurveClient :=
  { u.client with state := .expectWelcome, base := { u.client.base with cnNonce := 2 } }

/-- The server that has got HELLO. -/
def greeted : CurveServer :=
  { u.server with
    cnClient := some u.cnPublic
    base := { u.server.base with cnPeerNonce := 1 }
    handshake := { u.server.handshake with state := .sendingWelcome } }

variable {nacl u} {Pair : Block 32 → Block 32 → Prop}

theorem length_hello (box : Block (64 + 16)) : (u.hello box).length = 200 := by
  have hname : helloName.length = 6 := rfl
  simp only [hello, length_append, length_cons, length_nil, length_replicate,
    List.Vector.toList_length, hname]

theorem processHello_hello
    (hopen : nacl.boxOpen u.cnPublic u.serverSecret (helloPrefix ++ shortNonce 1) box = some text) :
    u.server.processHello nacl (u.hello box) = (.ok, u.greeted) := by
  have hsize := u.length_hello box
  have hkey : ∀ h, cut (u.hello box) 80 32 h = u.cnPublic := fun h =>
    cut_eq (p := helloName ++ ([1, 0] ++ replicate 72 0))
      (q := (shortNonce 1).toList ++ box.toList) (by simp [hello]) rfl
  have hnonce : ∀ h, cut (u.hello box) 112 8 h = shortNonce 1 := fun h =>
    cut_eq (p := helloName ++ ([1, 0] ++ (replicate 72 0 ++ u.cnPublic.toList)))
      (q := box.toList) (by simp [hello]) (by simp; rfl)
  have hbox : ∀ h, cut (u.hello box) 120 (64 + 16) h = box := fun h =>
    cut_eq (p := helloName ++ ([1, 0] ++ (replicate 72 0 ++
      (u.cnPublic.toList ++ (shortNonce 1).toList)))) (q := []) (by simp [hello])
      (by simp; rfl)
  have hform : checkBasicCommandStructure (u.hello box) = true := by
    rfl
  have hname : isCommand helloName (u.hello box) = true :=
    isPrefixOf_iff_prefix.mpr (prefix_append _ _)
  unfold processHello openHello
  rw [if_neg (by rw [hform]; nofun), if_neg (by rw [hname]; nofun), dif_pos hsize,
    if_neg (by rintro (h | h) <;> exact h rfl)]
  simp only [hkey, hnonce, hbox]
  rw [show u.server.secretKey = u.serverSecret from rfl, hopen]
  rfl

theorem hello_sent (hnacl : nacl.Honest Pair) (hserver : Pair u.serverPublic u.serverSecret)
    (hcn : Pair u.cnPublic u.cnSecret) : ∃ box,
      (∀ random, u.client.nextHandshakeCommand nacl random = .ok (.ok (u.hello box), u.greeting)) ∧
      u.server.processHello nacl (u.hello box) = (.ok, u.greeted) := by
  obtain ⟨box, hbox, hopen⟩ := hnacl.box hcn hserver (helloPrefix ++ shortNonce 1) zeros
  obtain ⟨text, htext, -⟩ := hopen rfl rfl
  refine ⟨box, fun _ => ?_, processHello_hello htext⟩
  have hproduce : u.client.tools.produceHello nacl u.client.base.cnNonce = some (u.hello box) := by
    exact congrArg (Option.map _) hbox
  show Except.ok (CurveClient.moveOn _ (u.client.produceHello nacl)) = _
  unfold CurveClient.produceHello
  rw [hproduce]
  rfl

/-! ## WELCOME -/

variable (nacl u)

/-- The cookie, with which the server does not have to remember the client. -/
def cookie (random : WelcomeRandom) : Block (32 + 32 + 16) :=
  nacl.secretbox.encrypt random.cookieKey (CurveServer.cookiePrefix ++ random.cookieNonce)
    (u.cnPublic ++ u.snSecret)

/-- The text of WELCOME. -/
def welcomeText (random : WelcomeRandom) : Block (32 + (16 + (32 + 32 + 16))) :=
  u.snPublic ++ (random.cookieNonce ++ u.cookie nacl random)

/-- The WELCOME of the server, with its box. -/
def welcome (random : WelcomeRandom) (box : Block (128 + 16)) : Bytes :=
  welcomeName ++ (random.welcomeNonce.toList ++ box.toList)

/-- The server that waits for INITIATE. -/
def welcoming (random : WelcomeRandom) : CurveServer :=
  { u.greeted with
    cookieKey := some random.cookieKey
    handshake := { u.server.handshake with state := .waitingForInitiate } }

/-- The client that has got WELCOME. -/
def welcomed (random : WelcomeRandom) (key : Block 32) : CurveClient :=
  { u.greeting with
    state := .sendInitiate
    tools := { u.client.tools with
               cnServer := some u.snPublic
               cnCookie := some (random.cookieNonce ++ u.cookie nacl random) }
    base := { u.greeting.base with cnPrecom := some key } }

variable {nacl u}

theorem length_welcome (random : WelcomeRandom) (box : Block (128 + 16)) :
    (welcome random box).length = 168 := by
  have hname : welcomeName.length = 8 := rfl
  simp [welcome, hname]

variable {random : WelcomeRandom} {box : Block (128 + 16)} {key : Block 32} {s : CurveServer}
  {metadata : Bytes} {k : Nat}

section
variable
  (hopen : nacl.boxOpen u.serverPublic u.cnSecret (welcomePrefix ++ random.welcomeNonce) box =
    some text)
include hopen

theorem openWelcome_welcome
 : openWelcome nacl u.serverPublic u.cnSecret (welcome random box) = some text := by
  have hnonce : ∀ h, cut (welcome random box) 8 16 h = random.welcomeNonce := fun h =>
    cut_eq rfl rfl
  have hbox : ∀ h, cut (welcome random box) 24 (128 + 16) h = box := fun h =>
    cut_eq (p := welcomeName ++ random.welcomeNonce.toList) (q := []) (by simp [welcome])
      (by simp; rfl)
  unfold openWelcome
  rw [dif_pos (length_welcome random box)]
  simp only [hnonce, hbox]
  exact hopen

theorem processWelcome_welcome (htext : text.toList = (u.welcomeText nacl random).toList)
    (hkey : nacl.beforenm u.snPublic u.cnSecret = some key) :
    u.greeting.processHandshakeCommand nacl (welcome random box) =
      .ok (.ok, u.welcomed nacl random key) := by
  have hserver : welcomeServer text = u.snPublic := slice_eq (p := []) (by rw [htext]; rfl) rfl
  have hcookie : welcomeCookie text = random.cookieNonce ++ u.cookie nacl random :=
    slice_eq (by rw [htext, welcomeText, List.Vector.toList_append, append_nil])
      u.snPublic.toList_length
  unfold CurveClient.processHandshakeCommand CurveClient.processWelcome
    CurveClientTools.processWelcome
  have hopened : openWelcome nacl u.greeting.tools.serverKey u.greeting.tools.cnSecret
      (welcome random box) = some text := openWelcome_welcome hopen
  simp only [hopened, hserver, hcookie]
  rw [show u.greeting.tools.cnSecret = u.cnSecret from rfl, hkey]
  rfl

end

/-- WELCOME is sent, and the client can open it. -/
theorem welcome_sent (hnacl : nacl.Honest Pair)
    (hserver : Pair u.serverPublic u.serverSecret) (hcn : Pair u.cnPublic u.cnSecret)
    (hkey : nacl.beforenm u.snPublic u.cnSecret = some key) (random : WelcomeRandom) : ∃ box,
      u.greeted.nextHandshakeCommand nacl random =
        .ok (.ok (welcome random box), u.welcoming random) ∧
      u.greeting.processHandshakeCommand nacl (welcome random box) =
        .ok (.ok, u.welcomed nacl random key) := by
  obtain ⟨box, hbox, hopen⟩ := hnacl.box hserver hcn (welcomePrefix ++ random.welcomeNonce)
    (u.welcomeText nacl random)
  obtain ⟨text, hopened, htext⟩ := @hopen 128 box rfl rfl
  refine ⟨box, ?_, processWelcome_welcome hopened htext hkey⟩
  have hproduce : u.greeted.produceWelcome nacl random = .ok (.ok (welcome random box),
      { u.greeted with cookieKey := some random.cookieKey }) :=
    produceWelcome_of_box rfl hbox
  show (u.greeted.produceWelcome nacl random >>= _) = _
  rw [hproduce]
  rfl

/-! ## INITIATE -/

variable (nacl u)

/-- The text of INITIATE, with the vouch. -/
def initiateText (random : Block 16) (vouch : Block (64 + 16)) (metadata : Bytes) :
    Block (32 + (16 + (64 + 16 + metadata.length))) :=
  u.clientPublic ++ (random ++ (vouch ++ Block.ofList metadata))

/-- The INITIATE of the client, with its box. -/
def initiate (random : WelcomeRandom) {k : Nat} (box : Block k) : Bytes :=
  initiateName ++ ((random.cookieNonce ++ u.cookie nacl random).toList ++
    ((shortNonce 2).toList ++ box.toList))

/-- The client that waits for READY. -/
def initiating (random : WelcomeRandom) (key : Block 32) : CurveClient :=
  { u.welcomed nacl random key with
    state := .expectReady
    base := { (u.welcomed nacl random key).base with cnNonce := 3 } }

/-- The server that has got INITIATE. -/
def initiated (random : WelcomeRandom) (key : Block 32) : CurveServer :=
  { u.welcoming random with
    base := { (u.welcoming random).base with cnPeerNonce := 2, cnPrecom := some key }
    handshake := { u.server.handshake with
                   state := .sendingReady
                   zap := { u.server.handshake.zap with
                            mechanism := Mechanism.new.after u.serverOptions u.clientOptions } } }

/-- The ZAP handler is not asked. -/
def Unasked (handler : ZapHandler) : Prop :=
  (u.serverOptions.zapRequired = false ∧ u.serverOptions.zapEnforceDomain = true) ∨
    (u.serverOptions.zapEnforceDomain = false ∧ handler.present = false)

variable {nacl u}

theorem authenticate_unasked (hzap : u.Unasked handler) (hoptions : s.options = u.serverOptions)
    (hsession : s.handshake.zap.session = .new) (clientKey : Block 32) (metadata : Bytes) :
    s.authenticate handler clientKey metadata =
      .ok ((s.setState .sendingReady).takeMetadata metadata) := by
  unfold authenticate
  rw [hoptions, hsession]
  rcases hzap with ⟨hrequired, henforce⟩ | ⟨henforce, hpresent⟩
  · rw [hrequired, henforce]
    rfl
  have hconnect : ZapSession.new.zapConnect handler = none := by
    unfold ZapSession.zapConnect
    rw [hpresent]
    rfl
  rw [henforce, Bool.not_false, Bool.or_true, hconnect]
  rfl

theorem takeMetadata_eq
    (h : s.handshake.zap.mechanism.parseMetadata s.options false metadata = (rc, m)) :
    s.takeMetadata metadata = (rc, { s with handshake := { s.handshake with
      zap := { s.handshake.zap with mechanism := m } } }) := by
  unfold takeMetadata
  rw [h]

theorem length_initiate (nacl : Nacl) (random : WelcomeRandom) (box : Block k) :
    (u.initiate nacl random box).length = 113 + k := by
  have hname : initiateName.length = 9 := rfl
  simp only [initiate, length_append, List.Vector.toList_length]
  omega

theorem openCookie_initiate (hnacl : nacl.secretbox.Opens) (random : WelcomeRandom)
    (box : Block k) (hsize : 257 ≤ (u.initiate nacl random box).length) :
    ∃ cookie, openCookie nacl random.cookieKey (u.initiate nacl random box) hsize = some cookie ∧
      slice cookie 0 32 (by decide) = u.cnPublic ∧ slice cookie 32 32 (by decide) = u.snSecret := by
  have hnonce : ∀ h, cut (u.initiate nacl random box) 9 16 h = random.cookieNonce := fun h =>
    cut_eq (by rw [initiate, List.Vector.toList_append, append_assoc]) rfl
  have hbox : ∀ h, cut (u.initiate nacl random box) 25 (64 + 16) h = u.cookie nacl random :=
    fun h => cut_eq
      (by rw [initiate, List.Vector.toList_append, append_assoc, append_assoc])
      (by simp; rfl)
  have hsealed : (u.cookie nacl random).toList = (nacl.secretbox.encrypt random.cookieKey
      (cookiePrefix ++ random.cookieNonce) (u.cnPublic ++ u.snSecret)).toList := rfl
  obtain ⟨cookie, hopen, htext⟩ := hnacl.decrypt (u.cookie nacl random) rfl hsealed
  rw [List.Vector.toList_append] at htext
  refine ⟨cookie, ?_, slice_eq (p := []) htext rfl,
    slice_eq (by rw [htext, append_nil]) u.cnPublic.toList_length⟩
  unfold openCookie
  simp only [hnonce, hbox]
  exact hopen

/-- The text of an INITIATE that was opened is taken apart. -/
theorem initiateText_parts {random : Block 16} {text : Block (n + 128)} (hn : n = metadata.length)
    (htext : text.toList = (u.initiateText random vouch metadata).toList) :
    initiateKey text = u.clientPublic ∧ (initiateMetadata text).toList = metadata ∧
      slice text 32 16 (by omega) = random ∧ slice text 48 (64 + 16) (by omega) = vouch := by
  subst hn
  have hparts : text.toList = u.clientPublic.toList ++ (random.toList ++ (vouch.toList ++
      (Block.ofList metadata).toList)) := by
    rw [htext, initiateText]
    simp
  refine ⟨slice_eq (p := []) hparts rfl, ?_, ?_, ?_⟩
  · have hmetadata : initiateMetadata text = Block.ofList metadata :=
      slice_eq (p := u.clientPublic.toList ++ (random.toList ++ vouch.toList)) (q := [])
        (by rw [hparts]; simp) (by simp)
    rw [hmetadata, Block.toList_ofList]
  · exact slice_eq hparts u.clientPublic.toList_length
  · exact slice_eq (by rw [hparts, append_assoc]) (by simp)

section initiating
variable (hkey : nacl.beforenm u.cnPublic u.snSecret = some key) (hzap : u.Unasked handler)
  (hfit : u.clientOptions.type ∈ u.serverOptions.type.peers)
  (hmetadata : u.clientOptions.addBasicProperties = .ok metadata)
include hkey hzap hfit hmetadata

theorem processInitiate_initiate {vouchNonce : Block 16}
    {box : Block (32 + (16 + (64 + 16 + metadata.length)) + 16)} {vouchText : Block 64}
    (hnacl : nacl.secretbox.Opens)
    (hopen : ∀ {n' : Nat} {box' : Block (n' + 16)}, n' = 32 + (16 + (64 + 16 + metadata.length)) →
      box'.toList = box.toList → ∃ text : Block n',
        nacl.boxOpen u.cnPublic u.snSecret (initiatePrefix ++ shortNonce 2) box' = some text ∧
        text.toList = (u.initiateText vouchNonce vouch metadata).toList)
    (hvouch : nacl.boxOpen u.clientPublic u.snSecret (vouchPrefix ++ vouchNonce) vouch =
      some vouchText) (hvouchText : vouchText.toList = (u.cnPublic ++ u.serverPublic).toList) :
    (u.welcoming random).processHandshakeCommand nacl (u.initiate nacl random box) handler =
      .ok (.ok, u.initiated random key) := by
  have hlength := u.length_initiate nacl random box
  have hsize : 257 ≤ (u.initiate nacl random box).length := by omega
  have hform : checkBasicCommandStructure (u.initiate nacl random box) = true := by
    unfold checkBasicCommandStructure
    rw [Bool.and_eq_true, decide_eq_true_eq, decide_eq_true_eq]
    constructor
    · omega
    · have hhead : ((u.initiate nacl random box).headD 0).toNat = 8 := rfl
      omega
  have hname : isCommand initiateName (u.initiate nacl random box) = true :=
    isPrefixOf_iff_prefix.mpr (prefix_append _ _)
  have hnonce : ∀ h, cut (u.initiate nacl random box) 105 8 h = shortNonce 2 := fun h =>
    cut_eq (p := initiateName ++ (random.cookieNonce ++ u.cookie nacl random).toList)
      (q := box.toList) (by simp [initiate]) (by simp; rfl)
  -- What is behind the nonce is the box.
  have hbox : ∀ k h, k = 32 + (16 + (64 + 16 + metadata.length)) + 16 →
      (cut (u.initiate nacl random box) 113 k h).toList = box.toList := by
    rintro k h rfl
    rw [cut_eq (b := box) (p := initiateName ++
      ((random.cookieNonce ++ u.cookie nacl random).toList ++ (shortNonce 2).toList)) (q := [])
      (by simp [initiate]) (by simp; rfl)]
  obtain ⟨cookie, hcookie, hclient, hsecret⟩ := openCookie_initiate hnacl random box hsize
  obtain ⟨text, htextOpen, htext⟩ := @hopen _ (cut (u.initiate nacl random box) 113
      ((u.initiate nacl random box).length - 257 + 128 + 16) (by omega)) (by omega)
    (hbox _ _ (by omega))
  have hinitiate : openInitiate nacl u.cnPublic u.snSecret
      (u.initiate nacl random box) hsize = some text := by
    unfold openInitiate
    rw [hnonce]
    exact htextOpen
  obtain ⟨hclientKey, hclientMetadata, hvouchNonce, hvouchBox⟩ :=
    initiateText_parts (by omega) htext
  have hvouchOpen : openVouch nacl u.snSecret text = some vouchText := by
    unfold openVouch
    rw [hclientKey, hvouchNonce, hvouchBox]
    exact hvouch
  have hvouched : slice vouchText 0 32 (by decide) = u.cnPublic := by
    exact slice_eq (p := []) hvouchText rfl
  show (u.welcoming random).processInitiate nacl (u.initiate nacl random box) handler = _
  unfold processInitiate
  rw [if_neg (by rw [hform]; nofun), if_neg (by rw [hname]; nofun), dif_pos hsize]
  have hparse := Mechanism.parseMetadata_addBasicProperties (m := .new) hfit rfl hmetadata
  have hcookieKey : (u.welcoming random).cookieKey = some random.cookieKey := rfl
  have hcnClient : (u.welcoming random).cnClient = some u.cnPublic := rfl
  simp only [hcookieKey, hcnClient, hcookie]
  rw [if_neg (by rintro (h | h); exacts [h hclient, h hsecret])]
  rw [show (u.welcoming random).cnSecret = u.snSecret from rfl, hinitiate]
  dsimp only
  rw [hvouchOpen]
  dsimp only
  rw [if_neg (not_not.mpr hvouched), hkey]
  dsimp only
  rw [authenticate_unasked hzap rfl rfl, hclientMetadata, hnonce]
  exact congrArg Except.ok (takeMetadata_eq hparse)

/-- INITIATE is sent, and the server accepts it. -/
theorem initiate_sent (hnacl : nacl.Honest Pair) (hclient : Pair u.clientPublic u.clientSecret)
    (hcn : Pair u.cnPublic u.cnSecret) (hsn : Pair u.snPublic u.snSecret) (random : WelcomeRandom)
    (vouchNonce : Block 16) : ∃ (k : Nat) (box : Block k),
      (u.welcomed nacl random key).nextHandshakeCommand nacl vouchNonce =
        .ok (.ok (u.initiate nacl random box), u.initiating nacl random key) ∧
      (u.welcoming random).processHandshakeCommand nacl (u.initiate nacl random box) handler =
        .ok (.ok, u.initiated random key) := by
  obtain ⟨vouch, hvouch, hvouchOpen⟩ := hnacl.box hclient hsn (vouchPrefix ++ vouchNonce)
    (u.cnPublic ++ u.serverPublic)
  obtain ⟨vouchText, hvouchOpened, hvouchText⟩ := @hvouchOpen 64 vouch rfl rfl
  obtain ⟨box, hbox, hopen⟩ := hnacl.box hcn hsn (initiatePrefix ++ shortNonce 2)
    (u.initiateText vouchNonce vouch metadata)
  refine ⟨_, box, ?_, processInitiate_initiate hkey hzap hfit hmetadata hnacl.secretbox hopen
    hvouchOpened hvouchText⟩
  have hproduce : (u.welcomed nacl random key).tools.produceInitiate nacl 2 vouchNonce metadata =
      .ok (some (u.initiate nacl random box)) := by
    rw [CurveClientTools.produceInitiate_of_vouch rfl rfl hvouch]
    show Except.ok (Option.map _ (nacl.box u.snPublic u.cnSecret (initiatePrefix ++ shortNonce 2)
      (u.initiateText vouchNonce vouch metadata))) = _
    rw [hbox]
    rfl
  show ((u.welcomed nacl random key).produceInitiate nacl vouchNonce).map _ = _
  unfold CurveClient.produceInitiate
  rw [show (u.welcomed nacl random key).options = u.clientOptions from rfl, hmetadata]
  show ((u.welcomed nacl random key).tools.produceInitiate nacl 2 vouchNonce metadata >>= _).map _ =
    _
  rw [hproduce]
  rfl

end initiating

/-! ## READY -/

variable (nacl u)

/-- The READY of the server, with its box. -/
def ready {k : Nat} (box : Block k) : Bytes :=
  readyName ++ ((shortNonce 1).toList ++ box.toList)

/-- The server that has sent READY. -/
def serverReady (random : WelcomeRandom) (key : Block 32) : CurveServer :=
  { u.initiated random key with
    base := { (u.initiated random key).base with cnNonce := 2 }
    handshake := { (u.initiated random key).handshake with state := .ready } }

/-- The client that has got READY. -/
def clientReady (random : WelcomeRandom) (key : Block 32) : CurveClient :=
  { u.initiating nacl random key with
    state := .connected
    base := { (u.initiating nacl random key).base with cnPeerNonce := 1 }
    mechanism := Mechanism.new.after u.clientOptions u.serverOptions }

variable {nacl u}

theorem length_ready (box : Block k) : (ready box).length = 14 + k := by
  have hname : readyName.length = 6 := rfl
  simp only [ready, length_append, List.Vector.toList_length]
  omega

theorem ready_sent (key : Block 32) (hnacl : nacl.Honest Pair)
    (hfit : u.serverOptions.type ∈ u.clientOptions.type.peers)
    (hmetadata : u.serverOptions.addBasicProperties = .ok metadata) (random : WelcomeRandom) :
    ∃ (k : Nat) (box : Block k),
      (∀ random', (u.initiated random key).nextHandshakeCommand nacl random' =
        .ok (.ok (ready box), u.serverReady random key)) ∧
      (u.initiating nacl random key).processHandshakeCommand nacl (ready box) =
        .ok (.ok, u.clientReady nacl random key) := by
  refine ⟨_, nacl.afternm.encrypt key (readyPrefix ++ shortNonce 1) (Block.ofList metadata),
    fun _ => ?_, ?_⟩
  · show ((u.initiated random key).produceReady nacl >>= _) = _
    unfold produceReady
    rw [show (u.initiated random key).options = u.serverOptions from rfl, hmetadata]
    rfl
  · generalize hbox : nacl.afternm.encrypt key (readyPrefix ++ shortNonce 1)
      (Block.ofList metadata) = box
    have hlength := length_ready box
    have hsize : 30 ≤ (ready box).length := by omega
    have hcut : ∀ k h, k = metadata.length + 16 → (cut (ready box) 14 k h).toList = box.toList := by
      rintro - - rfl
      rw [cut_eq (b := box) (p := readyName ++ (shortNonce 1).toList) (q := [])
        (by simp [ready]) (by simp; rfl)]
    obtain ⟨text, hopen, htext⟩ := hnacl.afternm.decrypt
      (cut (ready box) 14 ((ready box).length - 30 + 16) (by omega)) (by omega)
      ((hcut _ _ (by omega)).trans (congrArg List.Vector.toList hbox.symm))
    have hready : CurveClient.openReady nacl key (ready box) hsize = some text := by
      exact hopen
    have hparse := Mechanism.parseMetadata_addBasicProperties (m := .new) hfit rfl hmetadata
    rw [Block.toList_ofList] at htext
    unfold CurveClient.processHandshakeCommand
    unfold CurveClient.processReady
    rw [dif_pos hsize]
    dsimp only
    rw [show (u.initiating nacl random key).base.cnPrecom = some key from rfl]
    dsimp only
    rw [hready]
    dsimp only
    rw [show (u.initiating nacl random key).mechanism = .new from rfl,
      show (u.initiating nacl random key).options = u.clientOptions from rfl, htext, hparse]
    rfl

end CurveSetup

/-! ## The whole handshake -/

/-- Both sides have the right keys, sockets that fit together and properties that fit into their
encoding, and the server does not ask a ZAP handler. -/
structure CurveSetup.Proper (u : CurveSetup) (Pair : Block 32 → Block 32 → Prop)
    (handler : ZapHandler) : Prop where
  client : Pair u.clientPublic u.clientSecret
  server : Pair u.serverPublic u.serverSecret
  cn : Pair u.cnPublic u.cnSecret
  sn : Pair u.snPublic u.snSecret
  fit : u.clientOptions.type ∈ u.serverOptions.type.peers
  clientEncodes : ∃ bytes, u.clientOptions.addBasicProperties = .ok bytes
  serverEncodes : ∃ bytes, u.serverOptions.addBasicProperties = .ok bytes
  unasked : u.Unasked handler

/-- Sockets that fit together do so in both directions. -/
theorem SocketType.mem_peers_comm {t p : SocketType} (h : p ∈ t.peers) : t ∈ p.peers := by
  cases t <;> cases p <;> first | exact absurd h (by decide) | decide

namespace CurvePair

/-- The four commands, and who sends them. -/
def script : List (CurvePeer × Bytes) :=
  [(.client, helloName), (.server, welcomeName), (.client, initiateName), (.server, readyName)]

/-- The first `k` commands were sent, in this order. -/
def Said (k : Nat) (wire : List (CurvePeer × Bytes)) : Prop :=
  List.Forall₂ (fun name said => said.1 = name.1 ∧ isCommand name.2 said.2 = true)
    (script.take k) wire

variable {nacl : Nacl} {handler : ZapHandler} {Pair : Block 32 → Block 32 → Prop} {key : Block 32}
  {n n' : CurvePair} {k : Nat}

variable {wire : List (CurvePeer × Bytes)} {client : CurveClient} {server : CurveServer}
  {a : CurvePairAct}

theorem Said.concat (h : Said k wire) (msg : Bytes) (hnext : script[k]? = some (p, name))
    (hname : isCommand name msg) : Said (k + 1) (wire ++ [(p, msg)]) := by
  unfold Said
  rw [take_add_one, hnext]
  exact rel_append h (.cons ⟨rfl, hname⟩ .nil)

/-- The stages of the handshake. -/
inductive Stage (nacl : Nacl) (handler : ZapHandler) (u : CurveSetup) (key : Block 32) :
    Nat → CurvePair → Prop where
  | start : Stage nacl handler u key 0 u.initial
  | helloSent {hello : Bytes} {wire : List (CurvePeer × Bytes)} (hsaid : Said 1 wire)
      (haccept : u.server.processHandshakeCommand nacl hello handler = .ok (.ok, u.greeted)) :
      Stage nacl handler u key 1 ⟨u.greeting, u.server, [hello], [], wire⟩
  | helloTaken {wire : List (CurvePeer × Bytes)} (hsaid : Said 1 wire) :
      Stage nacl handler u key 2 ⟨u.greeting, u.greeted, [], [], wire⟩
  | welcomeSent {random : WelcomeRandom} {welcome : Bytes}
      {wire : List (CurvePeer × Bytes)} (hsaid : Said 2 wire)
      (haccept : u.greeting.processHandshakeCommand nacl welcome =
        .ok (.ok, u.welcomed nacl random key)) :
      Stage nacl handler u key 3 ⟨u.greeting, u.welcoming random, [], [welcome], wire⟩
  | welcomeTaken (random : WelcomeRandom) {wire : List (CurvePeer × Bytes)}
      (hsaid : Said 2 wire) :
      Stage nacl handler u key 4 ⟨u.welcomed nacl random key, u.welcoming random, [], [], wire⟩
  | initiateSent {random : WelcomeRandom} {initiate : Bytes}
      {wire : List (CurvePeer × Bytes)} (hsaid : Said 3 wire)
      (haccept : (u.welcoming random).processHandshakeCommand nacl initiate handler =
        .ok (.ok, u.initiated random key)) :
      Stage nacl handler u key 5
        ⟨u.initiating nacl random key, u.welcoming random, [initiate], [], wire⟩
  | initiateTaken (random : WelcomeRandom) {wire : List (CurvePeer × Bytes)}
      (hsaid : Said 3 wire) :
      Stage nacl handler u key 6
        ⟨u.initiating nacl random key, u.initiated random key, [], [], wire⟩
  | readySent {random : WelcomeRandom} {ready : Bytes}
      {wire : List (CurvePeer × Bytes)} (hsaid : Said 4 wire)
      (haccept : (u.initiating nacl random key).processHandshakeCommand nacl ready =
        .ok (.ok, u.clientReady nacl random key)) :
      Stage nacl handler u key 7
        ⟨u.initiating nacl random key, u.serverReady random key, [], [ready], wire⟩
  | readyTaken (random : WelcomeRandom) {wire : List (CurvePeer × Bytes)}
      (hsaid : Said 4 wire) :
      Stage nacl handler u key 8
        ⟨u.clientReady nacl random key, u.serverReady random key, [], [], wire⟩

/-- What is assumed, with the common key. -/
structure Agreed (nacl : Nacl) (handler : ZapHandler) (Pair : Block 32 → Block 32 → Prop)
    (u : CurveSetup) (key : Block 32) : Prop where
  honest : nacl.Honest Pair
  proper : u.Proper Pair handler
  clientKey : nacl.beforenm u.snPublic u.cnSecret = some key
  serverKey : nacl.beforenm u.cnPublic u.snSecret = some key

/-! ### The steps of the handshake -/

section
variable (h : Agreed nacl handler Pair u key)
include h

theorem Agreed.hello (random : Block 16) :
    ∃ n', u.initial.clientNext nacl random = .ok n' ∧ Stage nacl handler u key 1 n' := by
  obtain ⟨box, hsend, haccept⟩ := CurveSetup.hello_sent h.honest h.proper.server h.proper.cn
  have hsaid : Said 1 [(.client, u.hello box)] :=
    .cons ⟨rfl, isPrefixOf_iff_prefix.mpr (prefix_append _ _)⟩ .nil
  refine ⟨_, ?_, .helloSent hsaid (congrArg Except.ok haccept)⟩
  unfold clientNext
  rw [show u.initial.client = u.client from rfl, hsend]
  rfl

theorem Agreed.welcome (random : WelcomeRandom) (hsaid : Said 1 wire) :
    ∃ n', serverNext nacl ⟨u.greeting, u.greeted, [], [], wire⟩ random = .ok n' ∧
      Stage nacl handler u key 3 n' := by
  obtain ⟨box, hsend, haccept⟩ := CurveSetup.welcome_sent h.honest h.proper.server h.proper.cn
    h.clientKey random
  refine ⟨_, ?_, .welcomeSent (hsaid.concat (CurveSetup.welcome random box) rfl
    ( isPrefixOf_iff_prefix.mpr (prefix_append _ _))) haccept⟩
  unfold serverNext
  rw [hsend]
  rfl

theorem Agreed.initiate (random : WelcomeRandom) (vouchNonce : Block 16) (hsaid : Said 2 wire) :
    ∃ n', clientNext nacl ⟨u.welcomed nacl random key, u.welcoming random, [], [], wire⟩
        vouchNonce = .ok n' ∧ Stage nacl handler u key 5 n' := by
  obtain ⟨metadata, hmetadata⟩ := h.proper.clientEncodes
  obtain ⟨k, box, hsend, haccept⟩ := CurveSetup.initiate_sent h.serverKey h.proper.unasked
    h.proper.fit hmetadata h.honest h.proper.client h.proper.cn h.proper.sn random vouchNonce
  refine ⟨_, ?_, .initiateSent (hsaid.concat (u.initiate nacl random box) rfl
    ( isPrefixOf_iff_prefix.mpr (prefix_append _ _))) haccept⟩
  unfold clientNext
  rw [hsend]
  rfl

theorem Agreed.ready (random random' : WelcomeRandom) (hsaid : Said 3 wire) :
    ∃ n', serverNext nacl ⟨u.initiating nacl random key, u.initiated random key, [], [], wire⟩
        random' = .ok n' ∧ Stage nacl handler u key 7 n' := by
  obtain ⟨metadata, hmetadata⟩ := h.proper.serverEncodes
  obtain ⟨k, box, hsend, haccept⟩ := CurveSetup.ready_sent key h.honest
    (SocketType.mem_peers_comm h.proper.fit) hmetadata random
  refine ⟨_, ?_, .readySent (hsaid.concat (CurveSetup.ready box) rfl
    ( isPrefixOf_iff_prefix.mpr (prefix_append _ _))) haccept⟩
  unfold serverNext
  rw [hsend random']
  rfl

end

/-- The server takes a command that it accepts. -/
theorem next_serverProcess {toClient : List Bytes}
    (haccept : server.processHandshakeCommand nacl msg handler = .ok (.ok, server')) :
    next nacl handler ⟨client, server, [msg], toClient, wire⟩ .serverProcess =
      .ok ⟨client, server', [], toClient, wire⟩ := by
  unfold next serverProcess
  dsimp only
  rw [haccept]

/-- The client takes a command that it accepts. -/
theorem next_clientProcess {toServer : List Bytes}
    (haccept : client.processHandshakeCommand nacl msg = .ok (.ok, client')) :
    next nacl handler ⟨client, server, toServer, [msg], wire⟩ .clientProcess =
      .ok ⟨client', server, toServer, [], wire⟩ := by
  unfold next clientProcess
  dsimp only
  rw [haccept]

/-- Whether it is the turn of a call. -/
def turn : Nat → CurvePairAct → Bool
  | 0, .clientNext _ => true
  | 1, .serverProcess => true
  | 2, .serverNext _ => true
  | 3, .clientProcess => true
  | 4, .clientNext _ => true
  | 5, .serverProcess => true
  | 6, .serverNext _ => true
  | 7, .clientProcess => true
  | _, _ => false

/-- A call whose turn it is not does nothing. -/
theorem Stage.ignores (h : Stage nacl handler u key k n)
    (hturn : turn k a = false) : n.next nacl handler a = .ok n := by
  cases h <;> cases a <;> first | rfl | cases hturn

/-- A call moves the handshake on if it is its turn. -/
theorem Stage.moves (hagreed : Agreed nacl handler Pair u key)
    (h : Stage nacl handler u key k n) (hturn : turn k a = true) :
    ∃ n', n.next nacl handler a = .ok n' ∧ Stage nacl handler u key (k + 1) n' := by
  cases h with
  | start =>
    cases a with
    | clientNext random => exact hagreed.hello random
    | _ => cases hturn
  | helloSent hsaid haccept =>
    cases a with
    | serverProcess => exact ⟨_, next_serverProcess haccept, .helloTaken hsaid⟩
    | _ => cases hturn
  | helloTaken hsaid =>
    cases a with
    | serverNext random => exact hagreed.welcome random hsaid
    | _ => cases hturn
  | welcomeSent hsaid haccept =>
    cases a with
    | clientProcess => exact ⟨_, next_clientProcess haccept, .welcomeTaken _ hsaid⟩
    | _ => cases hturn
  | welcomeTaken random hsaid =>
    cases a with
    | clientNext vouchNonce => exact hagreed.initiate random vouchNonce hsaid
    | _ => cases hturn
  | initiateSent hsaid haccept =>
    cases a with
    | serverProcess => exact ⟨_, next_serverProcess haccept, .initiateTaken _ hsaid⟩
    | _ => cases hturn
  | initiateTaken random hsaid =>
    cases a with
    | serverNext random' => exact hagreed.ready random random' hsaid
    | _ => cases hturn
  | readySent hsaid haccept =>
    cases a with
    | clientProcess => exact ⟨_, next_clientProcess haccept, .readyTaken _ hsaid⟩
    | _ => cases hturn
  | readyTaken => cases a <;> cases hturn

/-- It is always the turn of some call, until the handshake is over. -/
theorem exists_turn (random : Block 16) (random' : WelcomeRandom) :
    ∀ k, k < 8 → ∃ a, turn k a = true
  | 0, _ => ⟨.clientNext random, rfl⟩
  | 1, _ => ⟨.serverProcess, rfl⟩
  | 2, _ => ⟨.serverNext random', rfl⟩
  | 3, _ => ⟨.clientProcess, rfl⟩
  | 4, _ => ⟨.clientNext random, rfl⟩
  | 5, _ => ⟨.serverProcess, rfl⟩
  | 6, _ => ⟨.serverNext random', rfl⟩
  | 7, _ => ⟨.clientProcess, rfl⟩
  | _ + 8, h => absurd h (by omega)

/-- The handshake can be brought to its end from every stage. -/
theorem Stage.finish (hagreed : Agreed nacl handler Pair u key) (left : Nat)
    (h : Stage nacl handler u key k n) (hk : k + left = 8) :
    ∃ tr n', Exec (Step nacl handler) n tr n' ∧ tr.length = left ∧
      Stage nacl handler u key 8 n' := by
  induction left generalizing k n with
  | zero =>
    obtain rfl : k = 8 := hk
    exact ⟨[], n, .nil n, rfl, h⟩
  | succ _ ih =>
    obtain ⟨a, hturn⟩ := exists_turn (List.Vector.replicate 16 0)
      ⟨List.Vector.replicate 16 0, List.Vector.replicate 32 0, List.Vector.replicate 16 0⟩ k
      (by omega)
    obtain ⟨n₁, hnext, hstage⟩ := h.moves hagreed hturn
    obtain ⟨tr, n', hrun, hlength, hlast⟩ := ih hstage (by omega)
    exact ⟨a :: tr, n', .cons hnext hrun, by rw [length_cons, hlength], hlast⟩

theorem Stage.run (hagreed : Agreed nacl handler Pair u key)
    (hrun : Exec (Step nacl handler) u.initial tr n) : ∃ k ≤ 8, Stage nacl handler u key k n := by
  refine hrun.invariant (fun n => ∃ k ≤ 8, Stage nacl handler u key k n) ?_
    ⟨0, Nat.zero_le _, .start⟩
  rintro n a n' ⟨k, hk, h⟩ hstep
  cases hturn : turn k a with
  | false =>
    obtain rfl := Except.ok.inj ((h.ignores hturn).symm.trans hstep)
    exact ⟨k, hk, h⟩
  | true =>
    obtain ⟨n₁, hnext, hstage⟩ := h.moves hagreed hturn
    obtain rfl := Except.ok.inj (hnext.symm.trans hstep)
    refine ⟨k + 1, ?_, hstage⟩
    -- After the last stage it is nobody's turn.
    rcases Nat.lt_or_eq_of_le hk with hk | rfl
    · exact hk
    · cases a <;> cases hturn

/-! ## Both sides are ready -/

/-- The two ends of the encrypted connection. -/
def bases (n : CurvePair) : CurvePeer → CurveBase
  | .client => n.client.base
  | .server => n.server.base

/-- **The handshake is complete.**  The four commands were sent and taken; both sides are ready,
have the same key and know the properties of the other one; and the next message of either side is
understood by the other one. -/
structure Completed (nacl : Nacl) (u : CurveSetup) (n : CurvePair) : Prop where
  said : Said 4 n.wire
  taken : n.toServer = [] ∧ n.toClient = []
  clientReady : n.client.status = .ready
  serverReady : n.server.status = .ready
  joined : ∃ key, CurveLink.Joined key n.bases
  counters : ∀ p, (n.bases p).cnNonce = (n.bases p.other).cnPeerNonce + 1
  serverKnows : n.server.handshake.zap.mechanism =
    Mechanism.new.after u.serverOptions u.clientOptions
  clientKnows : n.client.mechanism = Mechanism.new.after u.clientOptions u.serverOptions
  toServer : ∀ m, ∃ frame client m' server, n.client.encode nacl m = .ok (frame, client) ∧
    n.server.decode nacl frame = .ok (.ok, m', server) ∧
    CurveBase.content m' = CurveBase.content m
  toClient : ∀ m, ∃ frame server m' client, n.server.encode nacl m = .ok (frame, server) ∧
    n.client.decode nacl frame = .ok (.ok, m', client) ∧
    CurveBase.content m' = CurveBase.content m

end CurvePair

variable {nacl : Nacl} {c : CurveClient} {m : Msg} {s : CurveServer}

/-- A frame with a new number is decoded. -/
theorem CurveBase.decode_frame (hnacl : nacl.afternm.Opens) {b : CurveBase} (key : Block 32)
    (counter : UInt64) (m : Msg) (hkey : b.cnPrecom = some key) (hnew : b.cnPeerNonce < counter) :
    ∃ m', b.decode nacl (frame nacl key b.decodeNoncePrefix counter m) =
        .ok (.ok, m', { b with cnPeerNonce := counter }) ∧ content m' = content m := by
  generalize hf : frame nacl key b.decodeNoncePrefix counter m = f
  have hdata : f.data = messageName ++ ((shortNonce counter).toList ++
      (nacl.afternm.encrypt key (b.decodeNoncePrefix ++ shortNonce counter)
        (plaintext m)).toList) := by
    rw [← hf]
    rfl
  have hlength : f.data.length = 16 + (m.data.length + 1 + 16) := by
    have hname : messageName.length = 8 := rfl
    simp only [hdata, length_append, List.Vector.toList_length]
    omega
  have hform : checkBasicCommandStructure f.data = true := by
    unfold checkBasicCommandStructure
    rw [Bool.and_eq_true, decide_eq_true_eq, decide_eq_true_eq]
    have hhead : (f.data.headD 0).toNat = 7 := by
      rw [hdata]
      rfl
    omega
  have hname : isCommand messageName f.data = true := by
    rw [hdata]
    exact isPrefixOf_iff_prefix.mpr (prefix_append _ _)
  have hshort : ∀ h, cut f.data 8 8 h = shortNonce counter := fun h =>
    cut_eq hdata rfl
  have hbox : ∀ k h, k = m.data.length + 1 + 16 → (cut f.data 16 k h).toList =
      (nacl.afternm.encrypt key (b.decodeNoncePrefix ++ shortNonce counter)
        (plaintext m)).toList := by
    rintro k h rfl
    have hcut := cut_eq (h := h) (by rw [hdata, append_assoc, append_nil]) rfl
    rw [hcut]
  obtain ⟨text, hopen, htext⟩ := hnacl.decrypt (k := f.data.length - 33 + 1)
    (cut f.data 16 _ (by omega)) (by omega) (hbox _ _ (by omega))
  refine ⟨ofPlaintext text, ?_, content_ofPlaintext htext⟩
  unfold decode
  rw [if_neg (by rw [hform]; nofun), if_neg (by rw [hname]; nofun), dif_neg (by omega), hshort]
  dsimp only
  rw [getUint64_shortNonce, if_neg (UInt64.not_le.mpr hnew), hkey]
  dsimp only
  rw [hopen]

/-! Once they are ready, both sides leave messages to what they have in common. -/

theorem CurveClient.encode_of_connected (hstate : c.state = .connected)
    (h : c.base.encode nacl m = .ok r) : c.encode nacl m = .ok (r.1, { c with base := r.2 }) := by
  rw [CurveClient.encode, if_pos hstate, h]
  rfl

theorem CurveClient.decode_of_connected (hstate : c.state = .connected)
    (h : c.base.decode nacl m = .ok r) :
    c.decode nacl m = .ok (r.1, r.2.1, { c with base := r.2.2 }) := by
  rw [CurveClient.decode, if_pos hstate, h]
  rfl

theorem CurveServer.encode_of_ready (hstate : s.handshake.state = .ready)
    (h : s.base.encode nacl m = .ok r) : s.encode nacl m = .ok (r.1, { s with base := r.2 }) := by
  rw [encode, if_pos hstate, h]
  rfl

theorem CurveServer.decode_of_ready (hstate : s.handshake.state = .ready)
    (h : s.base.decode nacl m = .ok r) :
    s.decode nacl m = .ok (r.1, r.2.1, { s with base := r.2.2 }) := by
  rw [decode, if_pos hstate, h]
  rfl

namespace CurvePair

variable {nacl : Nacl} {handler : ZapHandler} {Pair : Block 32 → Block 32 → Prop} {u : CurveSetup}
  {key : Block 32} {n : CurvePair}

theorem Stage.completed (hnacl : nacl.afternm.Opens) (h : Stage nacl handler u key 8 n) :
    Completed nacl u n := by
  cases h with
  | readyTaken random hsaid =>
    refine ⟨hsaid, ⟨rfl, rfl⟩, rfl, rfl, ⟨key, ?_⟩, ?_, rfl, rfl, fun m => ?_, fun m => ?_⟩
    · exact ⟨fun p => by cases p <;> rfl, fun p => by cases p <;> rfl, fun p => by cases p <;> rfl⟩
    · intro p
      cases p <;> rfl
    · obtain ⟨m', hdecode, hcontent⟩ := decode_frame hnacl
        (b := (u.serverReady random key).base) key 3 m rfl
        (show (2 : UInt64) < 3 by decide)
      exact ⟨_, _, m', _,
        CurveClient.encode_of_connected rfl (encode_eq (by exact rfl : _ = some key) m),
        decode_of_ready rfl hdecode, hcontent⟩
    · obtain ⟨m', hdecode, hcontent⟩ := decode_frame hnacl
        (b := (u.clientReady nacl random key).base) key 2 m rfl
        (show (1 : UInt64) < 2 by decide)
      exact ⟨_, _, m', _, encode_of_ready rfl (encode_eq (by exact rfl : _ = some key) m),
        CurveClient.decode_of_connected rfl hdecode, hcontent⟩

/-- **A handshake between a client and a server with the right keys.**  Whatever the order of the
calls and the random bytes, no call fails, and at most eight more calls complete the handshake. -/
theorem handshake_completes {tr : List CurvePairAct} (hnacl : nacl.Honest Pair)
    (hproper : u.Proper Pair handler) (hrun : Exec (Step nacl handler) u.initial tr n) :
    (∀ a, ∃ n', Step nacl handler n a n') ∧
      ∃ tr' n', Exec (Step nacl handler) n tr' n' ∧ tr'.length ≤ 8 ∧ Completed nacl u n' := by
  obtain ⟨key, hclient, hserver⟩ := hnacl.agree hproper.cn hproper.sn
  have hagreed : Agreed nacl handler Pair u key := ⟨hnacl, hproper, hclient, hserver⟩
  obtain ⟨k, hk, hstage⟩ := Stage.run hagreed hrun
  constructor
  · intro a
    cases hturn : turn k a with
    | false => exact ⟨n, hstage.ignores hturn⟩
    | true =>
      obtain ⟨n', hnext, -⟩ := hstage.moves hagreed hturn
      exact ⟨n', hnext⟩
  · obtain ⟨tr', n', hrun', hlength, hlast⟩ := hstage.finish hagreed (8 - k) (by omega)
    exact ⟨tr', n', hrun', by omega, hlast.completed hnacl.afternm⟩

/-! ## Two sockets -/

open CurveClientNet (same sampleOptions)

theorem opens_mark : Cipher.mark.Opens := by
  intro n key nonce text
  unfold Cipher.mark
  dsimp only
  have htext := List.Vector.toList_append text
    (List.Vector.map₂ (· ^^^ ·) (slice key 0 16 (by decide)) (slice nonce 8 16 (by decide)))
  rw [slice_eq (by rw [htext, append_nil]) text.toList_length, if_pos rfl]
  exact congrArg some (slice_eq (p := []) htext rfl)

theorem honest_mark : Nacl.mark.Honest Eq where
  agree := by
    rintro - _ - _ rfl rfl
    refine ⟨_, rfl, congrArg some (List.Vector.eq _ _ ?_)⟩
    exact zipWith_comm_of_comm UInt8.xor_comm
  afternm := opens_mark
  secretbox := opens_mark

/-- Two sockets, each with keys of its own. -/
def sampleSetup (clientType serverType : SocketType) : CurveSetup :=
  { clientOptions := sampleOptions clientType
    serverOptions := sampleOptions serverType
    peerAddress := []
    clientPublic := same 32 1, clientSecret := same 32 1
    serverPublic := same 32 2, serverSecret := same 32 2
    cnPublic := same 32 3, cnSecret := same 32 3
    snPublic := same 32 4, snSecret := same 32 4 }

def noHandler : ZapHandler := { present := false, answers := [] }

theorem proper_sampleSetup : (sampleSetup .push .pull).Proper Eq noHandler where
  client := rfl
  server := rfl
  cn := rfl
  sn := rfl
  fit := by decide
  clientEncodes := ⟨_, rfl⟩
  serverEncodes := ⟨_, rfl⟩
  unasked := .inr ⟨rfl, rfl⟩

/-- A socket that pushes and one that pulls. -/
theorem handshake_completes_push : ∃ tr n,
    Exec (Step .mark noHandler) (sampleSetup .push .pull).initial tr n ∧
      Completed .mark (sampleSetup .push .pull) n := by
  obtain ⟨-, tr, n, hrun, -, hcompleted⟩ :=
    handshake_completes honest_mark proper_sampleSetup (.nil _)
  exact ⟨tr, n, hrun, hcompleted⟩

/-- Why a call fails. -/
def failure : Except HandshakeFailure CurvePair → Option HandshakeFailure
  | .error f => some f
  | .ok _ => none

theorem step_of_attempt (nacl : Nacl) (handler : ZapHandler) (n : CurvePair) (a b : CurvePairAct)
    (n' : CurvePair) (h : Core.attempt (next nacl handler) (fun _ _ => True) n a = some (b, n')) :
    Step nacl handler n b n' :=
  (Core.attempt_eq_some h).2

/-- **Sockets that do not fit together.**  Two sockets that push have the right keys and properties
that fit into their encoding; the server refuses the INITIATE of the client. -/
theorem handshake_of_pushers :
    (∃ bytes, (sampleSetup .push .push).clientOptions.addBasicProperties = .ok bytes) ∧
    (sampleSetup .push .push).Unasked noHandler ∧
    ∃ tr n, Exec (Step .mark noHandler) (sampleSetup .push .push).initial tr n ∧
      failure (n.next .mark noHandler .serverProcess) = some (.refused .einval) := by
  refine ⟨⟨_, rfl⟩, .inr ⟨rfl, rfl⟩, ?_⟩
  exact Core.exists_exec_of_replay (step_of_attempt .mark noHandler)
    [.clientNext (same 16 0), .serverProcess, .serverNext ⟨same 16 0, same 32 0, same 16 0⟩,
      .clientProcess, .clientNext (same 16 0)]
    (by decide +kernel)

end CurvePair
end LibZmq
