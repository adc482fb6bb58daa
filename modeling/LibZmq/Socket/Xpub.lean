import LibZmq.Socket.Dist
import LibZmq.Trie.Mtrie

/-!
# Publishing

`xpub_t` (`xpub.cpp`) keeps the subscriptions of its peers in a multi-trie and distributes
every message to the pipes that have subscribed to a beginning of its first part.
Subscriptions and cancellations arrive on the same pipes. The user can read them, together
with ordinary messages from the peers.

In manual mode a request is only reported to the user, who then makes the change for the pipe
that it came from.
-/

namespace LibZmq

open LibZmq.Core PipePair List

/-- A subscription or a cancellation. -/
structure Request where
  subscribe : Bool
  key : Bytes
deriving DecidableEq, Repr

/-- The request as an old-style message. -/
def Request.encode (r : Request) : Bytes := (if r.subscribe then 1 else 0) :: r.key

/-- The subscriptions after a request of pipe `p`. -/
def Request.apply (p : PipeId) (subs : Finset (Bytes × PipeId)) (r : Request) :
    Finset (Bytes × PipeId) :=
  if r.subscribe then insert (r.key, p) subs else subs.erase (r.key, p)

/-- `_pending_data` and `_pending_flags`. -/
structure Pending where
  data : Bytes
  flags : UInt8
deriving DecidableEq, Repr

/-- `xpub_t`, with the two options that it looks at. -/
structure Xpub where
  subscriptions : Mtrie PipeId
  manualSubscriptions : Mtrie PipeId
  dist : Dist
  verboseSubs : Bool
  verboseUnsubs : Bool
  /-- We are in the middle of sending a message. -/
  moreSend : Bool
  /-- We are in the middle of receiving a message. -/
  moreRecv : Bool
  processSubscribe : Bool
  onlyFirstSubscribe : Bool
  /-- Drop messages if the high watermark is reached. -/
  lossy : Bool
  manual : Bool
  sendLastPipe : Bool
  lastPipe : Option PipeId
  pendingPipes : List (Option PipeId)
  /-- The payload of `_welcome_msg`, which has no flags. -/
  welcomeMsg : Bytes
  pending : List Pending
  /-- `options.invert_matching`. -/
  invertMatching : Bool
  /-- `options.type` is `ZMQ_PUB`. -/
  isPub : Bool

namespace Xpub

def new (isPub : Bool) : Xpub :=
  { subscriptions := .new
    manualSubscriptions := .new
    dist := .new
    verboseSubs := false
    verboseUnsubs := false
    moreSend := false
    moreRecv := false
    processSubscribe := false
    onlyFirstSubscribe := false
    lossy := true
    manual := false
    sendLastPipe := false
    lastPipe := none
    pendingPipes := []
    welcomeMsg := []
    pending := []
    invertMatching := false
    isPub := isPub }

/-- A fault of a trie is a failure of the socket. -/
def liftTrie {β : Type} : Except TrieFault β → Except Failure β
  | .error f => .error (.trie f)
  | .ok b => .ok b

/-! ## Requests -/

/-- What a part from a peer asks for. A command is recognised by its flags, an old-style
request by its first byte. -/
def request? (x : Xpub) (m : Msg) : Except Failure (Option Request) :=
  if !x.moreRecv || x.processSubscribe then
    if m.isSubscribe || m.isCancel then
      match m.commandBody with
      | none => .error .outOfRange
      | some key => .ok (some ⟨m.isSubscribe, key⟩)
    else
      match m.data with
      | [] => .ok none
      | b :: key => .ok (if b = 0 ∨ b = 1 then some ⟨b == 1, key⟩ else none)
  else .ok none

/-- The request is applied to the trie. The second component is whether the user is told. -/
def applyRequest (x : Xpub) (p : PipeId) (r : Request) : Except Failure (Mtrie PipeId × Bool) :=
  if r.subscribe then do
    let (t, firstAdded) ← liftTrie (Mtrie.add r.key p x.subscriptions)
    .ok (t, firstAdded || x.verboseSubs)
  else do
    let (t, result) ← liftTrie (Mtrie.rm r.key p x.subscriptions)
    .ok (t, result != .valuesRemain || x.verboseUnsubs)

/-- The request is remembered for the user, who will make the change. -/
def holdRequest (x : Xpub) (p : PipeId) (r : Request) : Except Failure Xpub := do
  let t ←
    if r.subscribe then do
      let (t, _) ← liftTrie (Mtrie.add r.key p x.manualSubscriptions)
      .ok t
    else do
      let (t, _) ← liftTrie (Mtrie.rm r.key p x.manualSubscriptions)
      .ok t
  .ok { x with
    manualSubscriptions := t
    pendingPipes := x.pendingPipes ++ [some p]
    pending := x.pending ++ [⟨r.encode, 0⟩] }

/-- One round of the loop of `xread_activated`, and the request that was found. -/
def processPart (x : Xpub) (p : PipeId) (m : Msg) : Except Failure (Xpub × Option Request) := do
  let request ← x.request? m
  let processSubscribe :=
    if !x.moreRecv then !x.onlyFirstSubscribe || request.isSome else x.processSubscribe
  let x := { x with moreRecv := m.hasMore, processSubscribe := processSubscribe }
  match request with
  | none => .ok ({ x with pending := x.pending ++ [⟨m.data, m.flags⟩] }, none)
  | some r =>
      if x.manual then do
        let x ← x.holdRequest p r
        .ok (x, some r)
      else do
        let (t, notify) ← x.applyRequest p r
        let pending := if !x.isPub && notify then x.pending ++ [⟨r.encode, 0⟩] else x.pending
        .ok ({ x with subscriptions := t, pending := pending }, some r)

/-- The loop of `xread_activated`, with at most `n` rounds. The requests are listed for the
sake of the specification. -/
def readLoop : Nat → Xpub → Channels → PipeId →
    Except Failure (Xpub × Channels × List Request)
  | 0, x, cs, _ => .ok (x, cs, [])
  | n + 1, x, cs, p => do
      match ← cs.read p with
      | (none, cs) => .ok (x, cs, [])
      | (some m, cs) => do
          let (x, request) ← x.processPart p m
          let (x, cs, requests) ← readLoop n x cs p
          .ok (x, cs, request.toList ++ requests)

/-- `xread_activated`. There are no more messages than the queue holds. -/
def xreadActivated (x : Xpub) (cs : Channels) (p : PipeId) :
    Except Failure (Xpub × Channels × List Request) :=
  readLoop (((cs p).pair.inbox .first).size + 1) x cs p

/-! ## Pipes -/

/-- A copy of the welcome message is sent, if there is one. -/
def sendWelcome (x : Xpub) (cs : Channels) (p : PipeId) : Except Failure Channels :=
  if x.welcomeMsg.length > 0 then do
    let (ok, cs) ← cs.write p { Msg.init with data := x.welcomeMsg }
    if ok then cs.flush p else .error .assertion
  else .ok cs

/-- The caller of `xattach_pipe` may want to subscribe to all data implicitly. -/
def addImplicit (x : Xpub) (p : PipeId) (subscribeToAll : Bool) : Except Failure Xpub :=
  if subscribeToAll then do
    let (t, _) ← liftTrie (Mtrie.add [] p x.subscriptions)
    .ok { x with subscriptions := t }
  else .ok x

def xattachPipe (x : Xpub) (cs : Channels) (p : PipeId) (subscribeToAll : Bool) :
    Except Failure (Xpub × Channels × List Request) := do
  let d ← x.dist.attach p
  let x ← addImplicit { x with dist := d } p subscribeToAll
  let cs ← x.sendWelcome cs p
  -- the pipe is active when attached, so read the subscriptions from it, if any
  x.xreadActivated cs p

def xwriteActivated (x : Xpub) (p : PipeId) : Except Failure Xpub := do
  let d ← x.dist.activated p
  .ok { x with dist := d }

/-- `send_unsubscription`, for all keys that it is called with. -/
def sendUnsubscription (x : Xpub) (keys : List Bytes) : Xpub :=
  if x.isPub then x
  else
    let x := { x with pending := x.pending ++ keys.map fun k => ⟨0 :: k, 0⟩ }
    if x.manual && !keys.isEmpty then
      { x with lastPipe := none, pendingPipes := x.pendingPipes ++ keys.map fun _ => none }
    else x

/-- The pipe is removed from the tries. The user is told of the topics that nobody is interested
in any more, and in manual mode of all topics of the pipe. -/
def dropSubscriptions (x : Xpub) (p : PipeId) : Except Failure Xpub :=
  if x.manual then do
    let (manual, keys) ← liftTrie (Mtrie.rmAll p false x.manualSubscriptions)
    let x := sendUnsubscription { x with manualSubscriptions := manual } keys
    let (t, _) ← liftTrie (Mtrie.rmAll p false x.subscriptions)
    .ok { x with subscriptions := t }
  else do
    let (t, keys) ← liftTrie (Mtrie.rmAll p (!x.verboseUnsubs) x.subscriptions)
    .ok (sendUnsubscription { x with subscriptions := t } keys)

def xpipeTerminated (x : Xpub) (p : PipeId) : Except Failure Xpub := do
  let x ← x.dropSubscriptions p
  let d ← x.dist.pipeTerminated p
  .ok { x with dist := d }

/-! ## Sending and receiving -/

/-- The matching pipes are found; `mark_as_matching` and `mark_last_pipe_as_matching` are called
for the pipes that the trie gives. -/
def markPipes (x : Xpub) (m : Msg) : Except Failure Xpub := do
  let pipes ← liftTrie (Mtrie.matching m.data x.subscriptions)
  let last := x.manual && x.lastPipe.isSome && x.sendLastPipe
  let pipes := if last then pipes.filter fun p => x.lastPipe = some p else pipes
  let d ← pipes.foldlM (fun d p => d.matchPipe p) x.dist
  let d ← if x.invertMatching then d.reverseMatch else .ok d
  .ok { x with dist := d, lastPipe := if last then none else x.lastPipe }

/-- The first part of a message determines the matching pipes. -/
def selectPipes (x : Xpub) (m : Msg) : Except Failure Xpub :=
  if x.moreSend then .ok x else x.markPipes m

/-- `xsend`; `false` stands for `-1` with `EAGAIN`. -/
def xsend (x : Xpub) (cs : Channels) (m : Msg) : Except Failure (Bool × Xpub × Channels) := do
  let x ← x.selectPipes m
  if x.lossy || x.dist.checkHwm cs then do
    let (d, cs) ← x.dist.sendToMatching cs m
    let d := if m.hasMore then d else d.unmatch
    .ok (true, { x with dist := d, moreSend := m.hasMore }, cs)
  else .ok (false, x, cs)

/-- `xrecv`; `none` stands for `-1` with `EAGAIN`. -/
def xrecv (x : Xpub) : Option Pending × Xpub :=
  match x.pending with
  | [] => (none, x)
  | data :: rest =>
      match x.manual, x.pendingPipes with
      | true, p :: pipes =>
          (some data, { x with pending := rest, lastPipe := p, pendingPipes := pipes })
      | _, _ => (some data, { x with pending := rest })

/-- The options of `xsetsockopt`, except the two that change the trie in manual mode. -/
inductive Opt where
  | verbose
  | verboser
  | manualLastValue
  | nodrop
  | manual
  | onlyFirstSubscribe
deriving DecidableEq, Repr

/-- `xsetsockopt` for an option with an `int` value; `none` stands for `-1` with `EINVAL`. -/
def setOption (x : Xpub) (o : Opt) (value : Int) : Option Xpub :=
  if value < 0 then none
  else
    let on := value ≠ 0
    some <| match o with
      | .verbose => { x with verboseSubs := on, verboseUnsubs := false }
      | .verboser => { x with verboseSubs := on, verboseUnsubs := on }
      | .manualLastValue => { x with manual := on, sendLastPipe := on }
      | .nodrop => { x with lossy := !on }
      | .manual => { x with manual := on }
      | .onlyFirstSubscribe => { x with onlyFirstSubscribe := on }

/-- `xsetsockopt` with `ZMQ_XPUB_WELCOME_MSG`. -/
def setWelcomeMsg (x : Xpub) (data : Bytes) : Xpub := { x with welcomeMsg := data }

/-- The trie after a request for pipe `p`. -/
def applyTo (t : Mtrie PipeId) (p : PipeId) (r : Request) : Except Failure (Mtrie PipeId) :=
  if r.subscribe then do
    let (t, _) ← liftTrie (Mtrie.add r.key p t)
    .ok t
  else do
    let (t, _) ← liftTrie (Mtrie.rm r.key p t)
    .ok t

/-- `xsetsockopt` with `ZMQ_SUBSCRIBE` or `ZMQ_UNSUBSCRIBE`: in manual mode the user makes a change
for the pipe of the last request. `none` stands for `-1` with `EINVAL`. -/
def setSubscription (x : Xpub) (r : Request) : Except Failure (Option Xpub) :=
  if x.manual then
    match x.lastPipe with
    | none => .ok (some x)
    | some p => do
        let t ← applyTo x.subscriptions p r
        .ok (some { x with subscriptions := t })
  else .ok none

def handle (x : Xpub) (cs : Channels) (p : PipeId) :
    PipeEvent → Except Failure (Xpub × Channels × List Request)
  | .readActivated => x.xreadActivated cs p
  | .writeActivated => do .ok (← x.xwriteActivated p, cs, [])
  | .pipeTerminated => do .ok (← x.xpipeTerminated p, cs, [])
  | .hiccuped | .statsPublish _ _ => .ok (x, cs, [])

/-! ## What the calls do in the ordinary mode -/

variable {x x' : Xpub} {cs cs' : Channels} {p : PipeId} {m : Msg}
  {subs : Finset (Bytes × PipeId)}

/-- What `xsend` looks at is the same, apart from the subscriptions. -/
structure Alike (x x' : Xpub) : Prop where
  dist : x'.dist = x.dist
  moreSend : x'.moreSend = x.moreSend
  lossy : x'.lossy = x.lossy
  manual : x'.manual = x.manual
  invertMatching : x'.invertMatching = x.invertMatching

theorem Alike.refl (x : Xpub) : Alike x x := ⟨rfl, rfl, rfl, rfl, rfl⟩

variable {requests : List Request} {request : Option Request}

theorem Alike.trans (h : Alike x x₁) (h' : Alike x₁ x') : Alike x x' :=
  ⟨h'.dist.trans h.dist, h'.moreSend.trans h.moreSend, h'.lossy.trans h.lossy,
    h'.manual.trans h.manual, h'.invertMatching.trans h.invertMatching⟩

theorem liftTrie_ok {β : Type} {e : Except TrieFault β} {b : β} (h : e = .ok b) :
    liftTrie e = .ok b := by
  rw [h]
  rfl

theorem sendUnsubscription_alike (hmanual : x.manual = false) (keys : List Bytes) :
    Alike x (x.sendUnsubscription keys) ∧
      (x.sendUnsubscription keys).subscriptions = x.subscriptions := by
  unfold sendUnsubscription
  split
  · exact ⟨.refl x, rfl⟩
  · simp only [hmanual, Bool.false_and, Bool.false_eq_true, if_false]
    exact ⟨⟨rfl, rfl, rfl, hmanual.symm ▸ rfl, rfl⟩, trivial⟩

/-- The socket has read requests from pipe `p`. -/
structure Reads (x : Xpub) (cs : Channels) (p : PipeId) (subs : Finset (Bytes × PipeId))
    (x' : Xpub) (cs' : Channels) (requests : List Request) : Prop where
  alike : Alike x x'
  represents : x'.subscriptions.Represents (requests.foldl (Request.apply p) subs)
  others : ∀ q, q ≠ p → cs' q = cs q
  quiet : (cs p).Quiet (cs' p)

/-- The loop ends, or there is one more round. -/
theorem readLoop_succ (hloop : readLoop (n + 1) x cs p = .ok (x', cs', requests)) :
    (cs.read p = .ok (none, cs') ∧ x' = x ∧ requests = []) ∨
      ∃ m cs₁ x₁ request rest, cs.read p = .ok (some m, cs₁) ∧
        x.processPart p m = .ok (x₁, request) ∧ readLoop n x₁ cs₁ p = .ok (x', cs', rest) ∧
        requests = request.toList ++ rest := by
  obtain ⟨⟨found, cs₁⟩, hread, hloop⟩ := bind_ok hloop
  cases found with
  | none =>
    cases hloop
    exact .inl ⟨hread, rfl, rfl⟩
  | some m =>
    obtain ⟨⟨x₁, request⟩, hpart, hloop⟩ := bind_ok hloop
    obtain ⟨⟨x₂, cs₂, rest⟩, hrest, ⟨⟩⟩ := bind_ok hloop
    exact .inr ⟨m, cs₁, x₁, request, rest, hread, hpart, hrest, rfl⟩

/-- The welcome message is written, or the assertion fails. -/
theorem sendWelcome_spec (halive : ¬ (cs p).gone) (hok : x.sendWelcome cs p = .ok cs') :
    (∀ q, q ≠ p → cs' q = cs q) ∧ ¬ (cs' p).gone ∧ KeepsOut (cs p).pipe (cs' p).pipe := by
  rw [sendWelcome] at hok
  split at hok
  · have hcred : Msg.isCredential { Msg.init with data := x.welcomeMsg } = false := by
      simp only [Msg.isCredential]
      decide
    obtain ⟨⟨b, cs₁⟩, hwrite, hok⟩ := bind_ok hok
    rcases Channels.write_cases halive ⟨rfl, hcred⟩ hwrite with ⟨rfl, hw⟩ | ⟨rfl, -⟩
    · obtain ⟨hpipe, hcalls⟩ := Channels.flush_calls hw.gone hok
      refine ⟨fun q hq => (hcalls.others q hq).trans (hw.others q hq), hcalls.gone, fun hst => ?_⟩
      rw [hpipe] at hst ⊢
      exact ⟨hw.offered.state ▸ hst, hw.outActive.trans hw.writable.2.1.symm⟩
    · cases hok
  · cases hok
    exact ⟨fun _ _ => rfl, halive, .refl _⟩

section
variable (h : x.subscriptions.Represents subs)
include h

theorem applyRequest_spec (p : PipeId) (r : Request) :
    ∃ t notify, x.applyRequest p r = .ok (t, notify) ∧ t.Represents (r.apply p subs) := by
  rw [applyRequest, Request.apply]
  cases r.subscribe with
  | true =>
    obtain ⟨t, hadd, ht⟩ := h.add r.key p
    exact ⟨t, _, by rw [liftTrie_ok hadd]; rfl, ht⟩
  | false =>
    obtain ⟨t, hrm, ht⟩ := h.rm r.key p
    exact ⟨t, _, by rw [liftTrie_ok hrm]; rfl, ht⟩

theorem addImplicit_spec (p : PipeId) (all : Bool) :
    ∃ x', x.addImplicit p all = .ok x' ∧ Alike x x' ∧
      x'.subscriptions.Represents (if all then insert ([], p) subs else subs) := by
  rw [addImplicit]
  cases all with
  | true =>
    obtain ⟨t, hadd, ht⟩ := h.add [] p
    exact ⟨{ x with subscriptions := t }, by rw [liftTrie_ok hadd]; rfl,
      ⟨rfl, rfl, rfl, rfl, rfl⟩, ht⟩
  | false => exact ⟨x, rfl, .refl x, h⟩

theorem Reads.refl : Reads x cs p subs x cs [] :=
  ⟨.refl x, h, fun _ _ => rfl, .refl _⟩

variable (hmanual : x.manual = false)
include hmanual

theorem processPart_spec (hpart : x.processPart p m = .ok (x', request)) :
    Alike x x' ∧ x'.subscriptions.Represents (request.toList.foldl (Request.apply p) subs) := by
  obtain ⟨req, -, hpart⟩ := bind_ok hpart
  cases req with
  | none =>
    cases hpart
    exact ⟨⟨rfl, rfl, rfl, rfl, rfl⟩, h⟩
  | some r =>
    simp only [hmanual] at hpart
    -- the fields that have changed do not matter for the trie
    obtain ⟨t, notify, happly, ht⟩ := applyRequest_spec (x := { x with
      moreRecv := m.hasMore
      processSubscribe := if !x.moreRecv then !x.onlyFirstSubscribe || (some r).isSome
        else x.processSubscribe }) h p r
    rw [hmanual] at happly
    simp only [happly, ok_bind] at hpart
    cases hpart
    exact ⟨⟨rfl, rfl, rfl, hmanual.symm, rfl⟩, ht⟩

theorem Reads.round (halive : ¬ (cs p).gone) (hread : cs.read p = .ok (some m, cs₁))
    (hpart : x.processPart p m = .ok (x₁, request))
    (hrest : x₁.subscriptions.Represents (request.toList.foldl (Request.apply p) subs) →
      x₁.manual = false → ¬ (cs₁ p).gone →
      Reads x₁ cs₁ p (request.toList.foldl (Request.apply p) subs) x' cs' requests) :
    Reads x cs p subs x' cs' (request.toList ++ requests) := by
  obtain ⟨halike, hrep⟩ := processPart_spec h hmanual hpart
  obtain ⟨hothers, hquiet⟩ := Channels.read_quiet halive hread
  have hr := hrest hrep (halike.manual.trans hmanual) (mt hquiet.alive halive)
  refine ⟨halike.trans hr.alike, ?_, fun q hq => (hr.others q hq).trans (hothers q hq),
    hquiet.trans hr.quiet⟩
  rw [foldl_append]
  exact hr.represents

theorem readLoop_spec (halive : ¬ (cs p).gone)
    (hloop : readLoop n x cs p = .ok (x', cs', requests)) : Reads x cs p subs x' cs' requests := by
  induction n generalizing x cs subs requests with
  | zero =>
    cases hloop
    exact .refl h
  | succ n ih =>
    rcases readLoop_succ hloop with
      ⟨hread, rfl, rfl⟩ | ⟨m, cs₁, x₁, request, rest, hread, hpart, hrest, rfl⟩
    · obtain ⟨hothers, hquiet⟩ := Channels.read_quiet halive hread
      exact ⟨.refl _, h, hothers, hquiet⟩
    · exact .round h hmanual halive hread hpart fun h₁ hmanual₁ halive₁ =>
        ih h₁ hmanual₁ halive₁ hrest

/-- A pipe joins the distributor, may subscribe to everything and is read. -/
theorem xattachPipe_spec (hn : x.dist.Nested) (hp : p ∉ x.dist.pipes) (halive : ¬ (cs p).gone)
    {all : Bool} (hok : x.xattachPipe cs p all = .ok (x', cs', requests)) :
    Alike { x with dist := x'.dist } x' ∧
      x.dist.Groups x'.dist (fun q => q ∈ x.dist.pipes ∨ q = p) x.dist.Matching
        (fun q => x.dist.Active q ∨ x.dist.more = false ∧ q = p)
        (fun q => x.dist.Eligible q ∨ q = p) ∧
      x'.subscriptions.Represents (requests.foldl (Request.apply p)
        (if all then insert ([], p) subs else subs)) ∧
      (∀ q, q ≠ p → cs' q = cs q) ∧ ¬ (cs' p).gone ∧ KeepsOut (cs p).pipe (cs' p).pipe := by
  obtain ⟨d, hattach, hgroups⟩ := Dist.attach_spec hn hp
  obtain ⟨x₁, hadd, halike, hrep⟩ := addImplicit_spec (x := { x with dist := d }) h p all
  simp only [xattachPipe, hattach, hadd, ok_bind] at hok
  obtain ⟨cs₁, hwelcome, hok⟩ := bind_ok hok
  obtain ⟨hothers, hgone, hkeeps⟩ := sendWelcome_spec halive hwelcome
  have hr := readLoop_spec hrep (halike.manual.trans hmanual) hgone hok
  have hdist : x'.dist = d := hr.alike.dist.trans halike.dist
  refine ⟨?_, ?_, hr.represents, fun q hq => (hr.others q hq).trans (hothers q hq),
    mt hr.quiet.alive hgone, hkeeps.trans hr.quiet.keepsOut⟩
  · rw [hdist]
    exact halike.trans hr.alike
  · rw [hdist]
    exact hgroups

theorem dropSubscriptions_spec (p : PipeId) :
    ∃ x', x.dropSubscriptions p = .ok x' ∧ Alike x x' ∧
      x'.subscriptions.Represents (subs.filter fun e => e.2 ≠ p) := by
  obtain ⟨t, keys, hrm, -, ht⟩ := h.rmAll p (!x.verboseUnsubs)
  obtain ⟨halike, hsubs⟩ := sendUnsubscription_alike (x := { x with subscriptions := t }) hmanual
    keys
  refine ⟨_, ?_, { halike with }, hsubs ▸ ht⟩
  rw [dropSubscriptions, if_neg (by simp [hmanual]), liftTrie_ok hrm]
  rfl

/-- A pipe leaves the distributor and the trie. -/
theorem xpipeTerminated_spec (hn : x.dist.Nested) (hp : p ∈ x.dist.pipes) :
    ∃ x', x.xpipeTerminated p = .ok x' ∧ Alike { x with dist := x'.dist } x' ∧
      x.dist.Groups x'.dist (fun q => q ∈ x.dist.pipes ∧ q ≠ p)
        (fun q => x.dist.Matching q ∧ q ≠ p) (fun q => x.dist.Active q ∧ q ≠ p)
        (fun q => x.dist.Eligible q ∧ q ≠ p) ∧
      x'.subscriptions.Represents (subs.filter fun e => e.2 ≠ p) := by
  obtain ⟨x₁, hdrop, halike, hrep⟩ := dropSubscriptions_spec h hmanual p
  obtain ⟨d, hd, hgroups⟩ := Dist.pipeTerminated_spec hn hp
  refine ⟨{ x₁ with dist := d }, ?_, { halike with dist := rfl }, hgroups, hrep⟩
  simp [xpipeTerminated, hdrop, halike.dist, hd]

end

/-! ## Sending -/

/-- Pipe `q` is subscribed to a prefix of the data. -/
def Subscribed (subs : Finset (Bytes × PipeId)) (data : Bytes) (q : PipeId) : Prop :=
  ∃ e ∈ subs, e.2 = q ∧ e.1 <+: data

instance (subs : Finset (Bytes × PipeId)) (data : Bytes) (q : PipeId) :
    Decidable (Subscribed subs data q) := inferInstanceAs (Decidable (∃ e ∈ subs, _))

theorem mem_matching (h : x.subscriptions.Represents subs) (data : Bytes) :
    ∃ pipes, Mtrie.matching data x.subscriptions = .ok pipes ∧
      ∀ q, q ∈ pipes ↔ Subscribed subs data q := by
  refine ⟨_, Mtrie.matching_spec data x.subscriptions h.valid, fun q => ?_⟩
  simp only [mem_flatMap, mem_inits, Finset.mem_sort, h.pipes, Subscribed, Prod.exists]
  constructor
  · rintro ⟨k, hk, hmem⟩
    exact ⟨k, q, hmem, rfl, hk⟩
  · rintro ⟨k, _, hmem, rfl, hk⟩
    exact ⟨k, hk, hmem⟩

/-- All given pipes are marked as matching, if they are eligible. -/
theorem foldlM_matchPipe (pipes : List PipeId) (d : Dist) (hn : d.Nested) (hmore : d.more = false)
    (hmem : ∀ q ∈ pipes, q ∈ d.pipes) :
    ∃ d', pipes.foldlM (fun d p => d.matchPipe p) d = .ok d' ∧
      d.Groups d' (· ∈ d.pipes) (fun q => d.Matching q ∨ d.Eligible q ∧ q ∈ pipes) d.Active
        d.Eligible := by
  induction pipes generalizing d with
  | nil => exact ⟨d, rfl, ⟨hn, rfl, fun _ => .rfl, fun q => by simp, fun _ => .rfl, fun _ => .rfl⟩⟩
  | cons p _ ih =>
    obtain ⟨d₁, h₁, hg₁⟩ := Dist.matchPipe_spec hn hmore (hmem p mem_cons_self)
    obtain ⟨d', h', hg'⟩ := ih d₁ hg₁.nested (hg₁.more.trans hmore) fun q hq =>
      (hg₁.mem q).mpr (hmem q (mem_cons_of_mem p hq))
    refine ⟨d', ?_, ⟨hg'.nested, hg'.more.trans hg₁.more, fun q => (hg'.mem q).trans (hg₁.mem q),
      fun q => ?_, fun q => (hg'.active q).trans (hg₁.active q),
      fun q => (hg'.eligible q).trans (hg₁.eligible q)⟩⟩
    · rw [foldlM_cons, h₁]
      exact h'
    · rw [hg'.matching, hg₁.matching, hg₁.eligible, mem_cons]
      tauto

/-- The part goes to these pipes, if it is accepted. -/
def Chosen (x : Xpub) (subs : Finset (Bytes × PipeId)) (m : Msg) (q : PipeId) : Prop :=
  if x.moreSend then x.dist.Matching q
  else x.dist.Eligible q ∧
    (x.invertMatching = false ↔ (x.dist.Matching q ∨ Subscribed subs m.data q))

/-- What a call of `xsend` can do, after the pipes have been chosen. -/
inductive Sends (x : Xpub) (cs : Channels) (m : Msg) (d : Dist) : Bool → Xpub → Channels → Prop
  | refused : x.lossy = false → d.checkHwm cs = false →
      Sends x cs m d false { x with dist := d } cs
  | accepted {d' : Dist} {cs' : Channels} : x.lossy = true ∨ d.checkHwm cs = true →
      d.Distributes cs m d' cs' →
      Sends x cs m d true
        { x with dist := if m.hasMore then d' else d'.unmatch, moreSend := m.hasMore } cs'

section
variable (hn : x.dist.Nested) (h : x.subscriptions.Represents subs)
  (hsubs : ∀ e ∈ subs, e.2 ∈ x.dist.pipes) (hmanual : x.manual = false)
include hn h hsubs hmanual

/-- The pipes that match the first part, and those that matched before. -/
theorem markPipes_spec (hmore : x.dist.more = false) (m : Msg) :
    ∃ d, x.markPipes m = .ok { x with dist := d } ∧
      x.dist.Groups d (· ∈ x.dist.pipes) (fun q => x.dist.Eligible q ∧
          (x.invertMatching = false ↔ (x.dist.Matching q ∨ Subscribed subs m.data q)))
        x.dist.Active x.dist.Eligible := by
  obtain ⟨pipes, hpipes, hmem⟩ := mem_matching h m.data
  obtain ⟨d₁, h₁, hg₁⟩ := foldlM_matchPipe pipes x.dist hn hmore fun q hq => by
    obtain ⟨e, he, rfl, -⟩ := (hmem q).mp hq
    exact hsubs e he
  have heligible : ∀ {q}, x.dist.Matching q → x.dist.Eligible q := fun hq =>
    hn.eligible_of_active (hn.active_of_matching hq)
  have hlast : (x.manual && x.lastPipe.isSome && x.sendLastPipe) = false := by rw [hmanual]; rfl
  rw [markPipes, liftTrie_ok hpipes]
  simp only [hlast, Bool.false_eq_true, if_false, h₁, ok_bind]
  by_cases hinv : x.invertMatching = true
  · obtain ⟨d, hd, hg⟩ := Dist.reverseMatch_spec hg₁.nested (hg₁.more.trans hmore)
    refine ⟨d, by simp [hinv, hd], ⟨hg.nested, hg.more.trans hg₁.more,
      fun q => (hg.mem q).trans (hg₁.mem q), fun q => ?_,
      fun q => (hg.active q).trans (hg₁.active q), fun q => (hg.eligible q).trans (hg₁.eligible q)⟩⟩
    rw [hg.matching, hg₁.eligible, hg₁.matching, hmem, hinv]
    tauto
  have hplain : x.invertMatching = false := by simpa using hinv
  refine ⟨d₁, by simp [hplain], { hg₁ with matching := fun q => ?_ }⟩
  rw [hg₁.matching, hmem]
  simp only [hplain, true_iff]
  constructor
  · rintro (hq | ⟨he, hq⟩)
    · exact ⟨heligible hq, .inl hq⟩
    · exact ⟨he, .inr hq⟩
  · rintro ⟨he, hq | hq⟩
    · exact .inl hq
    · exact .inr ⟨he, hq⟩

theorem selectPipes_spec (hmore : x.dist.more = x.moreSend) (m : Msg) :
    ∃ d, x.selectPipes m = .ok { x with dist := d } ∧
      x.dist.Groups d (· ∈ x.dist.pipes) (x.Chosen subs m) x.dist.Active x.dist.Eligible := by
  rw [selectPipes]
  by_cases hmid : x.moreSend = true
  · refine ⟨x.dist, by rw [if_pos hmid], ⟨hn, rfl, fun _ => .rfl, fun q => ?_, fun _ => .rfl,
      fun _ => .rfl⟩⟩
    rw [Chosen, if_pos hmid]
  obtain ⟨d, hmark, hg⟩ := markPipes_spec hn h hsubs hmanual (hmore.trans (by simpa using hmid)) m
  refine ⟨d, by rw [if_neg hmid, hmark], { hg with matching := fun q => ?_ }⟩
  rw [Chosen, if_neg hmid]
  exact hg.matching q

theorem xsend_spec (hmore : x.dist.more = x.moreSend) (hmsg : m.Ordinary)
    (halive : ∀ q ∈ x.dist.pipes, ¬ (cs q).gone) :
    (∃ f, x.xsend cs m = .error (.pipe f)) ∨
      ∃ d ok x' cs', x.xsend cs m = .ok (ok, x', cs') ∧ Sends x cs m d ok x' cs' ∧
        x.dist.Groups d (· ∈ x.dist.pipes) (x.Chosen subs m) x.dist.Active x.dist.Eligible := by
  obtain ⟨d, hselect, hg⟩ := selectPipes_spec hn h hsubs hmanual hmore m
  rw [xsend, hselect]
  simp only [bind, Except.bind]
  by_cases hgo : (x.lossy || d.checkHwm cs) = true
  · simp only [if_pos hgo]
    rcases Dist.sendToMatching_spec hmsg hg.nested
      (fun q hq => halive q ((hg.mem q).mp hq.1)) with ⟨⟨f, hf⟩, -⟩ | ⟨d', cs', hsend, hdist⟩
    · exact .inl ⟨f, by simp [hf]⟩
    · refine .inr ⟨d, true, _, cs', by simp only [hsend]; rfl, ?_, hg⟩
      exact .accepted (by simpa using hgo) hdist
  · simp only [if_neg hgo]
    simp only [Bool.or_eq_true, not_or, Bool.not_eq_true] at hgo
    exact .inr ⟨d, false, _, cs, rfl, .refused hgo.1 hgo.2, hg⟩

end

end Xpub
end LibZmq
