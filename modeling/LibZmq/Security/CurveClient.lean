import LibZmq.Security.Curve

/-!
# The client of CURVE

The client says HELLO, is answered with WELCOME, sends INITIATE and is answered with READY
(`curve_client.cpp`, `curve_client_tools.hpp`). The commands of the server are told apart by their
names alone; whether one is expected is not looked at, except for ERROR.

* `CurveClientNet` is a client that is called by its engine, in any order and with whatever the peer
  sends, together with the history of the calls.
-/

namespace LibZmq

open Option
open LibZmq.Core (cut slice Exec Guarded exists_exec_of_replay exists_exec_with step_of_pure
  guarded_of_pure)
open Wire (ascii getUint64)

/-! ## The commands -/

/-- `curve_client_tools_t`. What the server sends is none as long as it is not initialised. -/
structure CurveClientTools where
  publicKey : Block 32
  secretKey : Block 32
  cnPublic : Block 32
  cnSecret : Block 32
  serverKey : Block 32
  cnServer : Option (Block 32)
  cnCookie : Option (Block 96)
deriving DecidableEq

namespace CurveClientTools

def helloPrefix : Block 16 := ⟨ascii "CurveZMQHELLO---", rfl⟩

def welcomePrefix : Block 8 := ⟨ascii "WELCOME-", rfl⟩

def vouchPrefix : Block 8 := ⟨ascii "VOUCH---", rfl⟩

def initiatePrefix : Block 16 := ⟨ascii "CurveZMQINITIATE", rfl⟩

def readyPrefix : Block 16 := ⟨ascii "CurveZMQREADY---", rfl⟩

def helloName : Bytes := 5 :: ascii "HELLO"

def welcomeName : Bytes := 7 :: ascii "WELCOME"

def initiateName : Bytes := 8 :: ascii "INITIATE"

def readyName : Bytes := 5 :: ascii "READY"

def errorName : Bytes := 5 :: ascii "ERROR"

/-- The 64 zeros that HELLO signs. -/
def zeros : Block 64 := List.Vector.replicate 64 0

/-- `produce_hello`; `none` stands for `-1`. -/
def produceHello (t : CurveClientTools) (nacl : Nacl) (cnNonce : UInt64) : Option Bytes :=
  let short := shortNonce cnNonce
  (nacl.box t.serverKey t.cnSecret (helloPrefix ++ short) zeros).map fun box =>
    helloName ++ ([1, 0] ++ (List.replicate 72 0 ++
      (t.cnPublic.toList ++ (short.toList ++ box.toList))))

/-- The text of a WELCOME that can be opened. -/
def openWelcome (nacl : Nacl) (serverKey cnSecret : Block 32) (msg : Bytes) :
    Option (Block 128) :=
  if hsize : msg.length = 168 then
    nacl.boxOpen serverKey cnSecret (welcomePrefix ++ cut msg 8 16 (by omega))
      (cut msg 24 (128 + 16) (by omega))
  else none

/-- The short-term key of the server in the text of a WELCOME. -/
def welcomeServer (plaintext : Block 128) : Block 32 := slice plaintext 0 32 (by decide)

/-- The cookie in the text of a WELCOME. -/
def welcomeCookie (plaintext : Block 128) : Block 96 := slice plaintext 32 96 (by decide)

/-- `process_welcome`; `none` stands for `-1`, otherwise the common key is returned. -/
def processWelcome (t : CurveClientTools) (nacl : Nacl) (msg : Bytes) :
    Except MechanismFault (Option (Block 32 × CurveClientTools)) :=
  match openWelcome nacl t.serverKey t.cnSecret msg with
  | none => .ok none
  | some plaintext =>
      match nacl.beforenm (welcomeServer plaintext) t.cnSecret with
      | none => .error .assertion
      | some key =>
          .ok (some (key, { t with cnServer := some (welcomeServer plaintext)
                                   cnCookie := some (welcomeCookie plaintext) }))

/-- `produce_initiate`, with the 16 random bytes of the nonce of the vouch. -/
def produceInitiate (t : CurveClientTools) (nacl : Nacl) (cnNonce : UInt64) (random : Block 16)
    (metadata : Bytes) : Except MechanismFault (Option Bytes) :=
  match t.cnServer, t.cnCookie with
  | some cnServer, some cnCookie =>
      match nacl.box cnServer t.secretKey (vouchPrefix ++ random) (t.cnPublic ++ t.serverKey) with
      | none => .ok none
      | some vouch =>
          let short := shortNonce cnNonce
          let plaintext := t.publicKey ++ (random ++ (vouch ++ Block.ofList metadata))
          .ok ((nacl.box cnServer t.cnSecret (initiatePrefix ++ short) plaintext).map fun box =>
            initiateName ++ (cnCookie.toList ++ (short.toList ++ box.toList)))
  | _, _ => .error .uninitialised

theorem produceInitiate_of_vouch {t : CurveClientTools} {cnServer : Block 32}
    {cnCookie : Block 96} {vouch : Block (32 + 32 + 16)}
    (hserver : t.cnServer = some cnServer) (hcookie : t.cnCookie = some cnCookie)
    (hvouch : nacl.box cnServer t.secretKey (vouchPrefix ++ random) (t.cnPublic ++ t.serverKey) =
      some vouch) :
    t.produceInitiate nacl cnNonce random metadata =
      .ok ((nacl.box cnServer t.cnSecret (initiatePrefix ++ shortNonce cnNonce)
        (t.publicKey ++ (random ++ (vouch ++ Block.ofList metadata)))).map fun box =>
          initiateName ++ (cnCookie.toList ++ ((shortNonce cnNonce).toList ++ box.toList))) := by
  simp [produceInitiate, hserver, hcookie, hvouch]

end CurveClientTools

/-! ## The client -/

/-- `curve_client_t::state_t`. -/
inductive CurveClientState where
  | sendHello
  | expectWelcome
  | sendInitiate
  | expectReady
  | errorReceived
  | connected
deriving DecidableEq, Repr

/-- `curve_client_t`. -/
structure CurveClient where
  options : Options
  state : CurveClientState
  tools : CurveClientTools
  base : CurveBase
  mechanism : Mechanism

namespace CurveClient

open CurveClientTools (readyPrefix welcomeName readyName errorName)

variable (nacl : Nacl)

/-- The constructor; the key pair `cnPublic`, `cnSecret` is generated. -/
def new (options : Options) (publicKey secretKey serverKey cnPublic cnSecret : Block 32) :
    CurveClient :=
  { options
    state := .sendHello
    tools := { publicKey, secretKey, cnPublic, cnSecret, serverKey, cnServer := none,
               cnCookie := none }
    base := .new CurveBase.messageC CurveBase.messageS
    mechanism := .new }

def status (c : CurveClient) : MechanismStatus :=
  if c.state = .connected then .ready
  else if c.state = .errorReceived then .error
  else .handshaking

def produceHello (c : CurveClient) : Except HandshakeErrno Bytes × CurveClient :=
  match c.tools.produceHello nacl c.base.cnNonce with
  | none => (.error .stale, c)
  | some msg => (.ok msg, { c with base := { c.base with cnNonce := c.base.cnNonce + 1 } })

def produceInitiate (c : CurveClient) (random : Block 16) :
    Except MechanismFault (Except HandshakeErrno Bytes × CurveClient) := do
  let metadata ← c.options.addBasicProperties
  match ← c.tools.produceInitiate nacl c.base.cnNonce random metadata with
  | none => .ok (.error .stale, c)
  | some msg => .ok (.ok msg, { c with base := { c.base with cnNonce := c.base.cnNonce + 1 } })

/-- A command that was produced moves the client on. -/
def moveOn (s : CurveClientState) :
    Except HandshakeErrno Bytes × CurveClient →
      Except HandshakeErrno Bytes × CurveClient
  | (.ok msg, c) => (.ok msg, { c with state := s })
  | (.error e, c) => (.error e, c)

def nextHandshakeCommand (c : CurveClient) (random : Block 16) :
    Except MechanismFault (Except HandshakeErrno Bytes × CurveClient) :=
  match c.state with
  | .sendHello => .ok (moveOn .expectWelcome (c.produceHello nacl))
  | .sendInitiate => (c.produceInitiate nacl random).map (moveOn .expectReady)
  | _ => .ok (.error .eagain, c)

def processWelcome (c : CurveClient) (msg : Bytes) :
    Except MechanismFault (Rc × CurveClient) := do
  match ← c.tools.processWelcome nacl msg with
  | none => .ok (.error .eproto, c)
  | some (key, tools) =>
      .ok (.ok, { c with tools, base := { c.base with cnPrecom := some key },
                         state := .sendInitiate })

/-- The text of a READY that can be opened. -/
def openReady (key : Block 32) (msg : Bytes) (hsize : 30 ≤ msg.length) :
    Option (Block (msg.length - 30)) :=
  nacl.afternm.decrypt key (readyPrefix ++ cut msg 6 8 (by omega))
    (cut msg 14 (msg.length - 30 + 16) (by omega))

def processReady (c : CurveClient) (msg : Bytes) : Except MechanismFault (Rc × CurveClient) :=
  if hsize : 30 ≤ msg.length then
    let cnPeerNonce := getUint64 (cut msg 6 8 (by omega)).toList
    let c := { c with base := { c.base with cnPeerNonce } }
    match c.base.cnPrecom with
    | none => .error .uninitialised
    | some key =>
        match openReady nacl key msg hsize with
        | none => .ok (.error .eproto, c)
        | some plaintext =>
            match c.mechanism.parseMetadata c.options false plaintext.toList with
            | (.ok, mechanism) => .ok (.ok, { c with mechanism, state := .connected })
            | (.error _, mechanism) => .ok (.error .eproto, { c with mechanism })
  else .ok (.error .eproto, c)

/-- An ERROR whose reason is complete. -/
def WellFormedError (msg : Bytes) : Prop :=
  7 ≤ msg.length ∧ (msg.getD 6 0).toNat ≤ msg.length - 7

instance (msg : Bytes) : Decidable (WellFormedError msg) :=
  inferInstanceAs (Decidable (_ ∧ _))

def processError (c : CurveClient) (msg : Bytes) : Rc × CurveClient :=
  if c.state ≠ .expectWelcome ∧ c.state ≠ .expectReady then (.error .eproto, c)
  else if WellFormedError msg then (.ok, { c with state := .errorReceived })
  else (.error .eproto, c)

def processHandshakeCommand (c : CurveClient) (msg : Bytes) :
    Except MechanismFault (Rc × CurveClient) :=
  if isCommand welcomeName msg then c.processWelcome nacl msg
  else if isCommand readyName msg then c.processReady nacl msg
  else if isCommand errorName msg then .ok (c.processError msg)
  else .ok (.error .eproto, c)

def encode (c : CurveClient) (m : Msg) : Except MechanismFault (Msg × CurveClient) :=
  if c.state = .connected then
    (c.base.encode nacl m).map fun r => (r.1, { c with base := r.2 })
  else .error .assertion

def decode (c : CurveClient) (m : Msg) : Except MechanismFault (Rc × Msg × CurveClient) :=
  if c.state = .connected then
    (c.base.decode nacl m).map fun r => (r.1, r.2.1, { c with base := r.2.2 })
  else .error .assertion

end CurveClient

/-! ## A client and its history -/

/-- How the engine calls the client. -/
inductive CurveClientCall where
  | next (random : Block 16)
  | process (msg : Bytes)
deriving DecidableEq

/-- A call with the client before and after it. -/
structure CurveClientEvent where
  before : CurveClient
  call : CurveClientCall
  rc : Rc
  after : CurveClient

/-- A client, the calls up to now, and the fault that has ended the run. -/
structure CurveClientNet where
  client : CurveClient
  history : List CurveClientEvent
  fault : Option MechanismFault

/-- Whether a command was produced. -/
def Rc.ofProduced : Except HandshakeErrno Bytes → Rc
  | .ok _ => .ok
  | .error e => .error e

namespace CurveClient

open CurveClientTools (welcomeName readyName errorName openWelcome welcomeServer welcomeCookie)

variable {nacl : Nacl} {c c' : CurveClient} {msg : Bytes}

def perform (nacl : Nacl) (c : CurveClient) :
    CurveClientCall → Except MechanismFault (Rc × CurveClient)
  | .next random => (c.nextHandshakeCommand nacl random).map fun r => (.ofProduced r.1, r.2)
  | .process msg => c.processHandshakeCommand nacl msg

/-! ### What a call can do -/

/-- The keys that the server has a part in are as before. -/
def SameKeys (c c' : CurveClient) : Prop :=
  c'.tools = c.tools ∧ c'.base.cnPrecom = c.base.cnPrecom

/-- Nothing that the handshake depends on has changed. -/
def Unmoved (c c' : CurveClient) : Prop := c'.state = c.state ∧ SameKeys c c'

theorem Unmoved.refl (c : CurveClient) : Unmoved c c := ⟨rfl, rfl, rfl⟩

theorem produceHello_unmoved (nacl : Nacl) (c : CurveClient) :
    Unmoved c (c.produceHello nacl).2 := by
  unfold produceHello
  split <;> exact .refl _

theorem produceInitiate_unmoved (h : c.produceInitiate nacl random = .ok r) : Unmoved c r.2 := by
  obtain ⟨metadata, -, h⟩ := bind_ok h
  obtain ⟨produced, -, h⟩ := bind_ok h
  split at h <;> cases h <;> exact .refl _

theorem moveOn_cases (s : CurveClientState) (r : Except HandshakeErrno Bytes × CurveClient) :
    (Rc.ofProduced (moveOn s r).1 ≠ .ok ∧ (moveOn s r).2 = r.2) ∨
      (Rc.ofProduced (moveOn s r).1 = .ok ∧ (moveOn s r).2 = { r.2 with state := s }) := by
  obtain ⟨_ | -, -⟩ := r
  · exact .inl ⟨nofun, rfl⟩
  · exact .inr ⟨rfl, rfl⟩

/-- What `moveOn` makes of a client that was not moved. -/
theorem moveOn_spec (hr : Unmoved c r.2) :
    (Rc.ofProduced (moveOn s r).1 ≠ .ok ∧ Unmoved c (moveOn s r).2) ∨
      (Rc.ofProduced (moveOn s r).1 = .ok ∧ SameKeys c (moveOn s r).2 ∧
        (moveOn s r).2.state = s) := by
  rcases moveOn_cases s r with ⟨hrc, hsame⟩ | ⟨hrc, hsame⟩
  · rw [hsame]
    exact .inl ⟨hrc, hr⟩
  · rw [hsame]
    exact .inr ⟨hrc, hr.2, rfl⟩

/-- A command is produced, or nothing happens. -/
theorem perform_next (h : c.perform nacl (.next random) = .ok (rc, c')) :
    (rc ≠ .ok ∧ Unmoved c c') ∨
      (rc = .ok ∧ SameKeys c c' ∧ ((c.state = .sendHello ∧ c'.state = .expectWelcome) ∨
        (c.state = .sendInitiate ∧ c'.state = .expectReady))) := by
  unfold perform nextHandshakeCommand at h
  dsimp only at h
  split at h
  · rename_i hstate
    cases h
    rcases moveOn_spec (produceHello_unmoved nacl c) with
      hfail | ⟨hrc, hkeys, hmoved⟩
    · exact .inl hfail
    · exact .inr ⟨hrc, hkeys, .inl ⟨hstate, hmoved⟩⟩
  · rename_i hstate
    obtain ⟨_, hcall, ⟨⟩⟩ := map_ok h
    obtain ⟨r, hproduce, rfl⟩ := map_ok hcall
    rcases moveOn_spec (produceInitiate_unmoved hproduce) with
      hfail | ⟨hrc, hkeys, hmoved⟩
    · exact .inl hfail
    · exact .inr ⟨hrc, hkeys, .inr ⟨hstate, hmoved⟩⟩
  · cases h
    exact .inl ⟨nofun, .refl _⟩

/-- INITIATE needs the keys of the server. -/
theorem perform_next_ne_uninitialised
    (hkeys : c.state = .sendInitiate → c.tools.cnServer ≠ none ∧ c.tools.cnCookie ≠ none) :
    c.perform nacl (.next random) ≠ .error .uninitialised := by
  unfold perform nextHandshakeCommand
  dsimp only
  split
  · nofun
  · rename_i hstate
    obtain ⟨hserver, hcookie⟩ := hkeys hstate
    obtain ⟨cnServer, hserver⟩ := ne_none_iff_exists'.mp hserver
    obtain ⟨cnCookie, hcookie⟩ := ne_none_iff_exists'.mp hcookie
    refine map_ne_error (map_ne_error (bind_ne_error (Options.addProperties_ne_uninitialised _)
      fun _ _ => bind_ne_error ?_ fun _ _ => by split <;> nofun))
    unfold CurveClientTools.produceInitiate
    rw [hserver, hcookie]
    dsimp only
    split <;> nofun
  · nofun

/-- What a command of the server can do. -/
inductive Processed (nacl : Nacl) (c : CurveClient) (msg : Bytes) :
    Rc → CurveClient → Prop where
  | refused {rc : Rc} {c' : CurveClient} (hrc : rc ≠ .ok) (hsame : Unmoved c c') :
      Processed nacl c msg rc c'
  | welcomed {plaintext : Block 128} {key : Block 32} {c' : CurveClient}
      (hname : isCommand welcomeName msg = true)
      (hopen : openWelcome nacl c.tools.serverKey c.tools.cnSecret msg = some plaintext)
      (hkey : nacl.beforenm (welcomeServer plaintext) c.tools.cnSecret = some key)
      (htools : c'.tools = { c.tools with cnServer := some (welcomeServer plaintext)
                                          cnCookie := some (welcomeCookie plaintext) })
      (hprecom : c'.base.cnPrecom = some key) (hstate : c'.state = .sendInitiate) :
      Processed nacl c msg .ok c'
  | ready {key : Block 32} {hsize : 30 ≤ msg.length} {plaintext : Block (msg.length - 30)}
      {c' : CurveClient} (hname : isCommand readyName msg = true)
      (hprecom : c.base.cnPrecom = some key) (hopen : openReady nacl key msg hsize = some plaintext)
      (hparse : (c.mechanism.parseMetadata c.options false plaintext.toList).1 = .ok)
      (hsame : SameKeys c c') (hstate : c'.state = .connected) : Processed nacl c msg .ok c'
  | failed {c' : CurveClient} (hname : isCommand errorName msg = true)
      (hexpect : c.state = .expectWelcome ∨ c.state = .expectReady) (hform : WellFormedError msg)
      (hsame : SameKeys c c') (hstate : c'.state = .errorReceived) : Processed nacl c msg .ok c'

theorem perform_process (h : c.perform nacl (.process msg) = .ok (rc, c')) :
    Processed nacl c msg rc c' := by
  unfold perform processHandshakeCommand at h
  dsimp only at h
  split at h
  · rename_i hname
    obtain ⟨result, hresult, h⟩ := bind_ok h
    unfold CurveClientTools.processWelcome at hresult
    split at hresult
    · cases hresult
      cases h
      exact .refused nofun (.refl _)
    · rename_i plaintext hopen
      split at hresult
      · cases hresult
      · rename_i key hkey
        cases hresult
        cases h
        exact .welcomed hname hopen hkey rfl rfl rfl
  · split at h
    · rename_i hname
      unfold processReady at h
      split at h
      · dsimp only at h
        split at h
        · cases h
        · rename_i key hkey
          split at h
          · cases h
            exact .refused nofun ⟨rfl, rfl, rfl⟩
          · rename_i plaintext hopen
            split at h
            · rename_i mechanism hparse
              cases h
              exact .ready hname hkey hopen (by rw [hparse]) ⟨rfl, rfl⟩ rfl
            · cases h
              exact .refused nofun ⟨rfl, rfl, rfl⟩
      · cases h
        exact .refused nofun (.refl _)
    · split at h
      · rename_i hname
        unfold processError at h
        split at h
        · cases h
          exact .refused nofun (.refl _)
        · split at h
          · rename_i hform
            cases h
            exact .failed hname (by tauto) hform ⟨rfl, rfl⟩ rfl
          · cases h
            exact .refused nofun (.refl _)
      · cases h
        exact .refused nofun (.refl _)

/-- The READY opens under the common key, and its metadata is proper. -/
def acceptsReady (nacl : Nacl) (c : CurveClient) (msg : Bytes) : Bool :=
  match c.base.cnPrecom with
  | none => false
  | some key =>
      if hsize : 30 ≤ msg.length then
        (openReady nacl key msg hsize).any fun plaintext =>
          (c.mechanism.parseMetadata c.options false plaintext.toList).1 = .ok
      else false

theorem acceptsReady_eq_true (hprecom : c.base.cnPrecom = some key)
    (hopen : openReady nacl key msg hsize = some plaintext)
    (hparse : (c.mechanism.parseMetadata c.options false plaintext.toList).1 = .ok) :
    c.acceptsReady nacl msg = true := by
  unfold acceptsReady
  rw [hprecom]
  dsimp only
  rw [dif_pos hsize, hopen]
  exact decide_eq_true hparse

/-- READY needs the common key. -/
theorem perform_process_ne_uninitialised
    (hkey : isCommand readyName msg = true → 30 ≤ msg.length → c.base.cnPrecom ≠ none) :
    c.perform nacl (.process msg) ≠ .error .uninitialised := by
  unfold perform processHandshakeCommand
  dsimp only
  split
  · refine bind_ne_error ?_ fun _ _ => by split <;> nofun
    unfold CurveClientTools.processWelcome
    split
    · nofun
    · split <;> nofun
  split
  · rename_i hname
    unfold processReady
    split
    · rename_i hsize
      obtain ⟨key, hkey⟩ := ne_none_iff_exists'.mp (hkey hname hsize)
      dsimp only
      rw [hkey]
      dsimp only
      split
      · nofun
      · split <;> nofun
    · nofun
  · split <;> nofun

end CurveClient

/-! ## The order of the handshake -/

namespace CurveClientEvent

open CurveClientTools (welcomeName readyName openWelcome welcomeServer)

variable (nacl : Nacl) (serverKey cnSecret key : Block 32) (e : CurveClientEvent)

/-- HELLO was produced. -/
def HelloProduced : Prop :=
  (∃ random, e.call = .next random) ∧ e.before.state = .sendHello ∧ e.rc = .ok

/-- A WELCOME was accepted that opens under the key of the server, while it was expected; `key` is
the common key that it leads to. -/
def WelcomeAccepted : Prop :=
  ∃ msg plaintext, e.call = .process msg ∧ isCommand welcomeName msg = true ∧
    e.before.state = .expectWelcome ∧ openWelcome nacl serverKey cnSecret msg = some plaintext ∧
    nacl.beforenm (welcomeServer plaintext) cnSecret = some key ∧ e.rc = .ok

/-- INITIATE was produced. -/
def InitiateProduced : Prop :=
  (∃ random, e.call = .next random) ∧ e.before.state = .sendInitiate ∧ e.rc = .ok

/-- A READY was accepted that opens under the common key, while it was expected. -/
def ReadyAccepted : Prop :=
  ∃ msg hsize plaintext, e.call = .process msg ∧ isCommand readyName msg = true ∧
    e.before.state = .expectReady ∧ CurveClient.openReady nacl key msg hsize = some plaintext ∧
    e.rc = .ok

/-- The command was refused and has changed neither the state nor the keys. -/
def Refused : Prop := e.rc ≠ .ok ∧ e.before.Unmoved e.after

end CurveClientEvent

namespace CurveClientNet

open CurveClientTools (welcomeName readyName errorName openWelcome)

variable {nacl : Nacl} {serverKey cnSecret : Block 32} {n n' : CurveClientNet}

def initial (options : Options) (publicKey secretKey serverKey cnPublic cnSecret : Block 32) :
    CurveClientNet :=
  { client := .new options publicKey secretKey serverKey cnPublic cnSecret, history := [],
    fault := none }

/-- The engine calls the client. -/
def next (nacl : Nacl) (n : CurveClientNet) (a : CurveClientCall) : CurveClientNet :=
  match n.client.perform nacl a with
  | .error f => { n with fault := some f }
  | .ok (rc, c) => { n with client := c, history := n.history ++ [⟨n.client, a, rc, c⟩] }

/-- A fault ends the run. -/
def Step (nacl : Nacl) (n : CurveClientNet) (a : CurveClientCall) (n' : CurveClientNet) : Prop :=
  n.fault = none ∧ n.next nacl a = n'

/-- **The order of the handshake.**  The client is ready only after its four steps, every other
command was refused, and no key was read that was not there. -/
structure InOrder (nacl : Nacl) (serverKey cnSecret : Block 32) (n : CurveClientNet) : Prop where
  ready : n.client.status = .ready → ∃ hello welcome initiate ready key,
    [hello, welcome, initiate, ready].Sublist n.history ∧ hello.HelloProduced ∧
    welcome.WelcomeAccepted nacl serverKey cnSecret key ∧ initiate.InitiateProduced ∧
    ready.ReadyAccepted nacl key ∧ n.client.base.cnPrecom = some key
  refused : ∀ e ∈ n.history, ∀ msg, e.call = .process msg →
    (∃ key, e.WelcomeAccepted nacl serverKey cnSecret key) ∨ (∃ key, e.ReadyAccepted nacl key) ∨
      e.Refused
  initialised : n.fault ≠ some .uninitialised

/-- A command that the client understands comes only when it is expected: a WELCOME that opens when
the client waits for it, a READY once the common key is there, a READY that opens and has proper
metadata when the client waits for it, and no ERROR ends the handshake. -/
def Timely (nacl : Nacl) (n : CurveClientNet) : CurveClientCall → Prop
  | .next _ => True
  | .process msg =>
      (isCommand welcomeName msg = true →
        (openWelcome nacl n.client.tools.serverKey n.client.tools.cnSecret msg).isSome →
        n.client.state = .expectWelcome) ∧
      (isCommand readyName msg = true → 30 ≤ msg.length → n.client.base.cnPrecom ≠ none ∧
        (n.client.acceptsReady nacl msg = true → n.client.state = .expectReady)) ∧
      (isCommand errorName msg = true → CurveClient.WellFormedError msg →
        n.client.state ≠ .expectWelcome ∧ n.client.state ≠ .expectReady)

/-- What the history shows in each state of the client. -/
def Trail (nacl : Nacl) (serverKey cnSecret : Block 32) (history : List CurveClientEvent) :
    CurveClientState → Option (Block 32) → Prop
  | .sendHello, precom => precom = none
  | .expectWelcome, precom => precom = none ∧ ∃ hello, [hello].Sublist history ∧ hello.HelloProduced
  | .sendInitiate, precom => ∃ hello welcome key, [hello, welcome].Sublist history ∧
      hello.HelloProduced ∧ welcome.WelcomeAccepted nacl serverKey cnSecret key ∧ precom = some key
  | .expectReady, precom => ∃ hello welcome initiate key,
      [hello, welcome, initiate].Sublist history ∧ hello.HelloProduced ∧
      welcome.WelcomeAccepted nacl serverKey cnSecret key ∧ initiate.InitiateProduced ∧
      precom = some key
  | .connected, precom => ∃ hello welcome initiate ready key,
      [hello, welcome, initiate, ready].Sublist history ∧ hello.HelloProduced ∧
      welcome.WelcomeAccepted nacl serverKey cnSecret key ∧ initiate.InitiateProduced ∧
      ready.ReadyAccepted nacl key ∧ precom = some key
  | .errorReceived, _ => False

theorem Trail.longer {history : List CurveClientEvent}
    (h : Trail nacl serverKey cnSecret history s precom)
    (e : CurveClientEvent) : Trail nacl serverKey cnSecret (history ++ [e]) s precom := by
  have hlonger : history.Sublist (history ++ [e]) := List.sublist_append_left _ _
  cases s with
  | sendHello | errorReceived => exact h
  | expectWelcome =>
    obtain ⟨hprecom, hello, hsub, h⟩ := h
    exact ⟨hprecom, hello, hsub.trans hlonger, h⟩
  | sendInitiate =>
    obtain ⟨hello, welcome, key, hsub, h⟩ := h
    exact ⟨hello, welcome, key, hsub.trans hlonger, h⟩
  | expectReady =>
    obtain ⟨hello, welcome, initiate, key, hsub, h⟩ := h
    exact ⟨hello, welcome, initiate, key, hsub.trans hlonger, h⟩
  | connected =>
    obtain ⟨hello, welcome, initiate, ready, key, hsub, h⟩ := h
    exact ⟨hello, welcome, initiate, ready, key, hsub.trans hlonger, h⟩

/-- The invariant: the state of the client says how far the handshake has come. -/
structure Sound (nacl : Nacl) (serverKey cnSecret : Block 32) (n : CurveClientNet) : Prop where
  configured : n.client.tools.serverKey = serverKey
  generated : n.client.tools.cnSecret = cnSecret
  trail : Trail nacl serverKey cnSecret n.history n.client.state n.client.base.cnPrecom
  keys : n.client.base.cnPrecom ≠ none →
    n.client.tools.cnServer ≠ none ∧ n.client.tools.cnCookie ≠ none
  refused : ∀ e ∈ n.history, ∀ msg, e.call = .process msg →
    (∃ key, e.WelcomeAccepted nacl serverKey cnSecret key) ∨ (∃ key, e.ReadyAccepted nacl key) ∨
      e.Refused
  initialised : n.fault ≠ some .uninitialised

theorem Sound.initial (options : Options)
    (publicKey secretKey serverKey cnPublic cnSecret : Block 32) :
    Sound nacl serverKey cnSecret
      (initial options publicKey secretKey serverKey cnPublic cnSecret) where
  configured := rfl
  generated := rfl
  trail := rfl
  keys := (absurd rfl)
  refused := fun _ he => absurd he List.not_mem_nil
  initialised := nofun

theorem Sound.inOrder (h : Sound nacl serverKey cnSecret n) :
    InOrder nacl serverKey cnSecret n where
  ready := fun hready => by
    have hstate : n.client.state = .connected := by
      unfold CurveClient.status at hready
      split at hready
      · assumption
      · split at hready <;> cases hready
    have htrail := h.trail
    rw [hstate] at htrail
    exact htrail
  refused := h.refused
  initialised := h.initialised

/-- INITIATE is sent when the keys are there. -/
theorem Sound.sendInitiate (h : Sound nacl serverKey cnSecret n)
    (hstate : n.client.state = .sendInitiate) : n.client.base.cnPrecom ≠ none := by
  have htrail := h.trail
  rw [hstate] at htrail
  obtain ⟨-, -, key, -, -, -, hprecom⟩ := htrail
  rw [hprecom]
  nofun

section
variable (h : Sound nacl serverKey cnSecret n)
include h

/-- A call that leaves state and keys alone. -/
theorem Sound.unmoved (hsame : n.client.Unmoved c) (hrc : rc ≠ .ok) : Sound nacl serverKey cnSecret
      { n with client := c, history := n.history ++ [⟨n.client, a, rc, c⟩] } := by
  obtain ⟨hstate, htools, hprecom⟩ := hsame
  constructor
  · exact (congrArg _ htools).trans h.configured
  · exact (congrArg _ htools).trans h.generated
  · rw [hstate, hprecom]
    exact h.trail.longer _
  · rw [hprecom, htools]
    exact h.keys
  · intro e he msg hcall
    rcases List.mem_append.mp he with he | he
    · exact h.refused e he msg hcall
    · rw [List.mem_singleton.mp he]
      exact .inr (.inr ⟨hrc, hstate, htools, hprecom⟩)
  · exact h.initialised

/-- A call that moves the client on. -/
theorem Sound.moved (hserver : c.tools.serverKey = n.client.tools.serverKey)
    (hsecret : c.tools.cnSecret = n.client.tools.cnSecret)
    (htrail : Trail nacl serverKey cnSecret (n.history ++ [⟨n.client, a, rc, c⟩]) c.state
      c.base.cnPrecom)
    (hkeys : c.base.cnPrecom ≠ none → c.tools.cnServer ≠ none ∧ c.tools.cnCookie ≠ none)
    (haccepted : ∀ msg, a = .process msg →
      (∃ key, (⟨n.client, a, rc, c⟩ : CurveClientEvent).WelcomeAccepted nacl serverKey cnSecret
        key) ∨
      (∃ key, (⟨n.client, a, rc, c⟩ : CurveClientEvent).ReadyAccepted nacl key)) :
    Sound nacl serverKey cnSecret
      { n with client := c, history := n.history ++ [⟨n.client, a, rc, c⟩] } where
  configured := hserver.trans h.configured
  generated := hsecret.trans h.generated
  trail := htrail
  keys := hkeys
  refused := fun e he msg hcall => by
    rcases List.mem_append.mp he with he | he
    · exact h.refused e he msg hcall
    rw [List.mem_singleton.mp he] at hcall ⊢
    rcases haccepted msg hcall with hwelcome | hready
    · exact .inl hwelcome
    · exact .inr (.inl hready)
  initialised := h.initialised

theorem Sound.next : Sound nacl serverKey cnSecret (n.next nacl (.next random)) := by
  unfold CurveClientNet.next
  split
  · rename_i f hcall
    refine { h with initialised := fun hfault => ?_ }
    rw [some.inj hfault] at hcall
    exact CurveClient.perform_next_ne_uninitialised
      (fun hstate => h.keys (h.sendInitiate hstate)) hcall
  rename_i rc c hcall
  rcases CurveClient.perform_next hcall with ⟨hrc, hsame⟩ | ⟨rfl, ⟨htools, hprecom⟩, hmoved⟩
  · exact h.unmoved hsame hrc
  have htrail := h.trail
  refine h.moved (congrArg _ htools) (congrArg _ htools) ?_ ?_ nofun
  · rcases hmoved with ⟨hbefore, hafter⟩ | ⟨hbefore, hafter⟩
    · rw [hbefore] at htrail
      rw [hafter, hprecom]
      exact ⟨htrail, _, List.sublist_append_right _ _, ⟨random, rfl⟩, hbefore, rfl⟩
    rw [hbefore] at htrail
    rw [hafter, hprecom]
    obtain ⟨hello, welcome, key, hsub, hhello, hwelcome, hkey⟩ := htrail
    exact ⟨hello, welcome, _, key, hsub.append (List.Sublist.refl [_]), hhello, hwelcome,
      ⟨⟨random, rfl⟩, hbefore, rfl⟩, hkey⟩
  · rw [hprecom, htools]
    exact h.keys

theorem Sound.process (htimely : n.Timely nacl (.process msg)) :
    Sound nacl serverKey cnSecret (n.next nacl (.process msg)) := by
  obtain ⟨hwelcome, hready, herror⟩ := htimely
  have htrail := h.trail
  unfold CurveClientNet.next
  split
  · rename_i f hcall
    refine { h with initialised := fun hfault => ?_ }
    rw [some.inj hfault] at hcall
    exact CurveClient.perform_process_ne_uninitialised
      (fun hname hsize => (hready hname hsize).1) hcall
  rename_i rc c hcall
  cases CurveClient.perform_process hcall with
  | refused hrc hsame => exact h.unmoved hsame hrc
  | welcomed hname hopen hkey htools hprecom hstate =>
    have hbefore := hwelcome hname (by rw [hopen]; rfl)
    have haccepted : (⟨n.client, .process msg, .ok, c⟩ : CurveClientEvent).WelcomeAccepted nacl
        serverKey cnSecret _ :=
      ⟨msg, _, rfl, hname, hbefore, by rw [← h.configured, ← h.generated]; exact hopen,
        by rw [← h.generated]; exact hkey, rfl⟩
    refine h.moved (by rw [htools]) (by rw [htools]) ?_ ?_ fun _ _ => .inl ⟨_, haccepted⟩
    · rw [hbefore] at htrail
      rw [hstate, hprecom]
      obtain ⟨-, hello, hsub, hhello⟩ := htrail
      exact ⟨hello, _, _, hsub.append (List.Sublist.refl [_]), hhello, haccepted, rfl⟩
    · intro _
      rw [htools]
      exact ⟨nofun, nofun⟩
  | ready hname hprecom hopen hparse hsame hstate =>
    rename_i key hsize plaintext
    have hbefore : n.client.state = .expectReady :=
      (hready hname hsize).2 (CurveClient.acceptsReady_eq_true hprecom hopen hparse)
    have haccepted : (⟨n.client, .process msg, .ok, c⟩ : CurveClientEvent).ReadyAccepted nacl key :=
      ⟨msg, hsize, plaintext, rfl, hname, hbefore, hopen, rfl⟩
    obtain ⟨htools, hsameKey⟩ := hsame
    refine h.moved (congrArg _ htools) (congrArg _ htools) ?_ ?_ fun _ _ => .inr ⟨key, haccepted⟩
    · rw [hbefore, hprecom] at htrail
      rw [hstate, hsameKey, hprecom]
      obtain ⟨hello, welcome, initiate, _, hsub, hhello, hwelcome, hinitiate, ⟨⟩⟩ := htrail
      exact ⟨hello, welcome, initiate, _, key, hsub.append (List.Sublist.refl [_]), hhello,
        hwelcome, hinitiate, haccepted, rfl⟩
    · rw [hsameKey, htools]
      exact h.keys
  | failed hname hexpect hform =>
    -- the condition leaves no ERROR that the client expects
    obtain ⟨hnotWelcome, hnotReady⟩ := herror hname hform
    rcases hexpect with hstate | hstate
    · exact absurd hstate hnotWelcome
    · exact absurd hstate hnotReady

theorem Sound.step
    (hstep : Guarded (Step nacl) (Timely nacl) n a n') : Sound nacl serverKey cnSecret n' := by
  obtain ⟨⟨-, rfl⟩, htimely⟩ := hstep
  cases a with
  | next => exact h.next
  | process => exact h.process htimely

end

/-- **The handshake of the client keeps its order**: if the commands that the client understands
come only when they are expected, then in every state that is reached the client is ready only after
HELLO, a WELCOME of the server, INITIATE and a READY under the key of that WELCOME, all other
commands were refused without effect, and no key was used before it was there. -/
theorem handshake_in_order (options : Options)
    (publicKey secretKey serverKey cnPublic cnSecret : Block 32) (tr : List CurveClientCall)
    (n : CurveClientNet)
    (hrun : Exec (Guarded (Step nacl) (Timely nacl))
      (initial options publicKey secretKey serverKey cnPublic cnSecret) tr n) :
    InOrder nacl serverKey cnSecret n :=
  (hrun.invariant (Sound nacl serverKey cnSecret) (fun _ _ _ h hstep => h.step hstep)
    (.initial options publicKey secretKey serverKey cnPublic cnSecret)).inOrder

/-! ### Two runs -/

instance (n : CurveClientNet) (a : CurveClientCall) : Decidable (n.Timely nacl a) :=
  match a with
  | .next _ => .isTrue trivial
  | .process _ => inferInstanceAs (Decidable (_ ∧ _ ∧ _))

/-- Bytes that are all the same, as keys and nonces to try. -/
def same (n : Nat) (b : UInt8) : Block n := List.Vector.replicate n b

def sampleOptions (type : SocketType) : Options :=
  { type, routingId := [], recvRoutingId := false, appMetadata := .empty, zapDomain := [],
    zapEnforceDomain := false }

/-- A client that reads from a server. -/
def sample : CurveClientNet :=
  initial (sampleOptions .pull) (same 32 1) (same 32 1) (same 32 2) (same 32 3) (same 32 3)

/-- The WELCOME of that server. -/
def sampleWelcome : Bytes :=
  welcomeName ++ ((same 16 9).toList ++ (Cipher.mark.encrypt (same 32 1)
    (CurveClientTools.welcomePrefix ++ same 16 9) (same 32 4 ++ same 96 5)).toList)

/-- Its READY. -/
def sampleReady : Bytes :=
  let metadata := Block.ofList (5 :: ascii "XType" ++ [0, 0, 0, 0])
  readyName ++ ((shortNonce 1).toList ++ (Cipher.mark.encrypt (same 32 7)
    (CurveClientTools.readyPrefix ++ shortNonce 1) metadata).toList)

theorem handshake_in_order_sample : ∃ tr n,
    Exec (Guarded (Step .mark) (Timely .mark)) sample tr n ∧ n.client.status = .ready ∧
      InOrder .mark (same 32 2) (same 32 3) n := by
  refine exists_exec_with guarded_of_pure (fun n => n.client.status = .ready)
    [.next (same 16 8), .process sampleWelcome, .next (same 16 8), .process sampleReady]
    (by decide +kernel) ?_
  intro tr n hexec hready
  exact ⟨hready, handshake_in_order _ _ _ _ _ _ tr n hexec⟩

instance (e : CurveClientEvent) : Decidable e.InitiateProduced :=
  have : Decidable (∃ random, e.call = .next random) :=
    match e.call with
    | .next random => .isTrue ⟨random, rfl⟩
    | .process _ => .isFalse nofun
  inferInstanceAs (Decidable (_ ∧ _ ∧ _))

/-- A READY that follows the WELCOME at once makes the client ready without INITIATE, and a READY
before the WELCOME is opened with a key that is not there. -/
theorem ready_before_initiate :
    (∃ tr n, Exec (Step .mark) sample tr n ∧ n.client.status = .ready ∧
      (∀ e ∈ n.history, ¬ e.InitiateProduced) ∧ ¬ InOrder .mark (same 32 2) (same 32 3) n) ∧
    ∃ tr n, Exec (Step .mark) sample tr n ∧ n.fault = some .uninitialised := by
  refine ⟨?_, exists_exec_of_replay step_of_pure [.process sampleReady] (by decide +kernel)⟩
  refine exists_exec_with step_of_pure
    (fun n => n.client.status = .ready ∧ ∀ e ∈ n.history, ¬ e.InitiateProduced)
    [.next (same 16 8), .process sampleWelcome, .process sampleReady] (by decide +kernel) ?_
  rintro _ n _ ⟨hready, hnone⟩
  refine ⟨hready, hnone, fun horder => ?_⟩
  obtain ⟨hello, welcome, initiate, ready, -, hsub, -, -, hinitiate, -⟩ := horder.ready hready
  exact hnone initiate (hsub.subset (by simp)) hinitiate

end CurveClientNet
end LibZmq
