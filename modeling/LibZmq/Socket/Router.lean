import LibZmq.Socket.FqReads
import LibZmq.Socket.Routing

/-!
# Routers

`router_t` (`router.cpp`) puts the routing id of the peer in front of every message that it
receives, and sends a message to the peer whose routing id is in its first part. A pipe is
anonymous until the routing id of its peer has arrived.
-/

namespace LibZmq

open LibZmq.Core PipePair

/-- `router_t`. -/
structure Router extends RoutingBase where
  fq : Fq
  /-- There is a message held in the pre-fetch buffer. -/
  prefetched : Bool
  /-- The receiver got the part with the routing id of the peer. -/
  routingIdSent : Bool
  prefetchedId : Msg
  prefetchedMsg : Msg
  /-- The pipe we are currently reading from. -/
  currentIn : Option PipeId
  /-- `currentIn` should be terminated after all parts are received. -/
  terminateCurrentIn : Bool
  /-- More incoming parts are expected. -/
  moreIn : Bool
  /-- The pipes that have not been identified yet. -/
  anonymousPipes : Finset PipeId
  /-- The pipe we are currently writing to. -/
  currentOut : Option PipeId
  /-- More outgoing parts are expected. -/
  moreOut : Bool
  nextIntegralRoutingId : UInt32
  mandatory : Bool
  rawSocket : Bool
  probeRouter : Bool
  handover : Bool
  /-- `options.raw_socket`. -/
  optionsRaw : Bool
  /-- `options.immediate` is `1`. -/
  immediate : Bool

namespace Router

/-- The constructor; `random` is the result of `generate_random ()`. -/
def new (random : UInt32) (immediate : Bool) : Router :=
  { RoutingBase.new with
    fq := .new
    prefetched := false
    routingIdSent := false
    prefetchedId := Msg.init
    prefetchedMsg := Msg.init
    currentIn := none
    terminateCurrentIn := false
    moreIn := false
    anonymousPipes := ∅
    currentOut := none
    moreOut := false
    nextIntegralRoutingId := random
    mandatory := false
    rawSocket := false
    probeRouter := false
    handover := false
    optionsRaw := false
    immediate := immediate }

/-- The options of `xsetsockopt` with an `int` value. -/
inductive Opt where
  | raw
  | mandatory
  | probeRouter
  | handover
deriving DecidableEq, Repr

/-- `xsetsockopt` for an option with an `int` value; `none` stands for `-1` with `EINVAL`. -/
def setOption (r : Router) (o : Opt) (value : Int) : Option Router :=
  if value < 0 then none
  else
    let on := decide (value ≠ 0)
    some <| match o with
      | .raw => { r with rawSocket := on, optionsRaw := r.optionsRaw || on }
      | .mandatory => { r with mandatory := on }
      | .probeRouter => { r with probeRouter := on }
      | .handover => { r with handover := on }

/-! ## Identification of peers -/

/-- The pipe gets the routing id `id`. -/
def namePipe (r : Router) (cs : Channels) (p : PipeId) (id : Blob) :
    Except Failure (Bool × Router × Channels) := do
  let b ← r.name p id
  .ok (true, { r with toRoutingBase := b }, cs)

/-- The pipe gets a routing id from the counter. -/
def nameByCounter (r : Router) (cs : Channels) (p : PipeId) :
    Except Failure (Bool × Router × Channels) :=
  namePipe { r with nextIntegralRoutingId := r.nextIntegralRoutingId + 1 } cs p
    (integralRoutingId r.nextIntegralRoutingId)

/-- `currentIn` is terminated when its message is complete, any other pipe at once. -/
def replacePipe (r : Router) (cs : Channels) (old : PipeId) : Except Failure (Router × Channels) :=
  if r.currentIn = some old then .ok ({ r with terminateCurrentIn := true }, cs)
  else do
    let cs ← cs.terminate old true
    .ok (r, cs)

/-- Another connection takes over the routing id of the pipe `old`, which gets a new one so that
it can be terminated asynchronously. -/
def handOver (r : Router) (cs : Channels) (old : PipeId) : Except Failure (Router × Channels) := do
  let b ← r.eraseOutPipe old
  let b ← b.name old (integralRoutingId r.nextIntegralRoutingId)
  replacePipe
    { r with toRoutingBase := b, nextIntegralRoutingId := r.nextIntegralRoutingId + 1 } cs old

/-- The peer has sent its routing id. -/
def takeRoutingId (r : Router) (cs : Channels) (p : PipeId) (m : Msg) :
    Except Failure (Bool × Router × Channels) :=
  if m.data = [] then r.nameByCounter cs p
  else
    match r.lookupOutPipe m.data with
    | none => r.namePipe cs p m.data
    | some e =>
        -- peers with a duplicate routing id are ignored
        if !r.handover then .ok (false, r, cs)
        else do
          let (r, cs) ← r.handOver cs e.pipe
          r.namePipe cs p m.data

def identifyPeer (r : Router) (cs : Channels) (p : PipeId) (locallyInitiated : Bool) :
    Except Failure (Bool × Router × Channels) :=
  if locallyInitiated && !r.connectRoutingId.isEmpty then
    let id := r.connectRoutingId
    let r := { r with connectRoutingId := [] }
    -- not allowed to duplicate an existing routing id
    if r.hasOutPipe id then .error .assertion else r.namePipe cs p id
  else if r.optionsRaw then r.nameByCounter cs p
  else do
    match ← cs.read p with
    | (none, cs) => .ok (false, r, cs)
    | (some m, cs) => r.takeRoutingId cs p m

/-! ## Pipes -/

/-- An empty message is sent to every peer, if the user wants it. -/
def probe (r : Router) (cs : Channels) (p : PipeId) : Except Failure Channels :=
  if r.probeRouter then do
    let (_, cs) ← cs.write p Msg.init
    cs.flush p
  else .ok cs

/-- A new pipe that is identified takes part in fair queueing. -/
def enroll (p : PipeId) : Bool × Router × Channels → Except Failure (Router × Channels)
  | (true, r, cs) => do
      let f ← r.fq.attach p
      .ok ({ r with fq := f }, cs)
  | (false, r, cs) => .ok ({ r with anonymousPipes := insert p r.anonymousPipes }, cs)

def xattachPipe (r : Router) (cs : Channels) (p : PipeId) (locallyInitiated : Bool) :
    Except Failure (Router × Channels) := do
  let cs ← r.probe cs p
  let found ← r.identifyPeer cs p locallyInitiated
  enroll p found

def xpipeTerminated (r : Router) (cs : Channels) (p : PipeId) :
    Except Failure (Router × Channels) :=
  if p ∈ r.anonymousPipes then
    .ok ({ r with anonymousPipes := r.anonymousPipes.erase p }, cs)
  else do
    let b ← r.eraseOutPipe p
    let f ← r.fq.pipeTerminated p
    let cs ← cs.rollback p
    let out := if r.currentOut = some p then none else r.currentOut
    .ok ({ r with toRoutingBase := b, fq := f, currentOut := out }, cs)

/-- A pipe that was anonymous takes part in fair queueing when it is identified. -/
def promote (p : PipeId) : Bool × Router × Channels → Except Failure (Router × Channels)
  | (true, r, cs) => do
      let f ← r.fq.attach p
      .ok ({ r with fq := f, anonymousPipes := r.anonymousPipes.erase p }, cs)
  | (false, r, cs) => .ok (r, cs)

def xreadActivated (r : Router) (cs : Channels) (p : PipeId) : Except Failure (Router × Channels) :=
  if p ∈ r.anonymousPipes then do
    let found ← r.identifyPeer cs p false
    promote p found
  else do
    let f ← r.fq.activated p
    .ok ({ r with fq := f }, cs)

def handle (r : Router) (cs : Channels) (p : PipeId) :
    PipeEvent → Except Failure (Router × Channels)
  | .readActivated => r.xreadActivated cs p
  | .writeActivated => do
      let b ← r.xwriteActivated p
      .ok ({ r with toRoutingBase := b }, cs)
  | .pipeTerminated => r.xpipeTerminated cs p
  | .hiccuped => do
      let cs ← cs.hiccuped r.immediate p
      .ok (r, cs)
  | .statsPublish _ _ => .ok (r, cs)

/-! ## Sending -/

/-- The first part of a message is the routing id of the peer to send it to. A message for an
unknown peer, or for one that takes no messages, is ignored, unless the user wants to know. -/
def sendLabel (r : Router) (cs : Channels) (m : Msg) : SendResult × Router × Channels :=
  match r.lookupOutPipe m.data with
  | none =>
      if r.mandatory then (.refused .ehostunreach m, r, cs)
      else (.accepted, { r with moreOut := true }, cs)
  | some e =>
      match cs.checkWrite e.pipe with
      | (true, cs) => (.accepted, { r with moreOut := true, currentOut := some e.pipe }, cs)
      | (false, cs) =>
          let r := { r with toRoutingBase := r.deactivate m.data e }
          if r.mandatory then
            let errno := if (cs e.pipe).pipe.checkHwm then .ehostunreach else .eagain
            (.refused errno m, r, cs)
          else (.accepted, { r with moreOut := true }, cs)

/-- Another part is pushed into the pipe `p`. A message of a raw socket has no flags, and an
empty one closes the connection. -/
def sendPart (r : Router) (cs : Channels) (p : PipeId) (m : Msg) :
    Except Failure (SendResult × Router × Channels) :=
  if r.rawSocket && m.data.isEmpty then do
    let cs ← cs.terminate p false
    .ok (.accepted, { r with currentOut := none }, cs)
  else do
    match ← cs.write p m with
    | (false, cs) => do
        -- the pipe must be gone; take back what was piped, for example the labels of a reply
        let cs ← cs.rollback p
        .ok (.accepted, { r with currentOut := none }, cs)
    | (true, cs) => do
        let cs ← cs.flushLast p m
        .ok (.accepted, { r with currentOut := if m.hasMore then some p else none }, cs)

def xsend (r : Router) (cs : Channels) (m : Msg) :
    Except Failure (SendResult × Router × Channels) :=
  if !r.moreOut then
    if r.currentOut.isSome then .error .assertion
    -- a routing id without a message is ignored
    else if m.hasMore then .ok (r.sendLabel cs m) else .ok (.accepted, r, cs)
  else
    let m := if r.optionsRaw then m.resetMore else m
    let r := { r with moreOut := m.hasMore }
    match r.currentOut with
    | none => .ok (.accepted, r, cs)
    | some p => r.sendPart cs p m

def rollback (r : Router) (cs : Channels) : Except Failure (Router × Channels) :=
  match r.currentOut with
  | none => .ok (r, cs)
  | some p => do
      let cs ← cs.rollback p
      .ok ({ r with currentOut := none, moreOut := false }, cs)

/-! ## Receiving -/

/-- The next part that is not a routing id; a peer sends its routing id again after it has
connected anew. -/
def recvData (r : Router) (cs : Channels) :
    Except Failure (Option (PipeId × Msg) × Router × Channels) := do
  let (part, f, cs) ← r.fq.recvUntil (fun _ m => !m.isRoutingId) (r.fq.backlog cs + 1) cs
  .ok (part, { r with fq := f }, cs)

/-- A part with `more` or without is returned to the user. -/
def returned (r : Router) (cs : Channels) (m : Msg) :
    Except Failure (Option Msg × Router × Channels) :=
  if m.hasMore then .ok (some m, { r with moreIn := true }, cs)
  else
    match r.terminateCurrentIn, r.currentIn with
    | true, some p => do
        let cs ← cs.terminate p true
        .ok (some m, { r with moreIn := false, terminateCurrentIn := false, currentIn := none }, cs)
    | _, _ => .ok (some m, { r with moreIn := false, currentIn := none }, cs)

/-- `xrecv`; `none` stands for `-1` with `EAGAIN`. -/
def xrecv (r : Router) (cs : Channels) : Except Failure (Option Msg × Router × Channels) :=
  if r.prefetched then
    if !r.routingIdSent then
      returned { r with routingIdSent := true, prefetchedId := Msg.init } cs r.prefetchedId
    else returned { r with prefetched := false, prefetchedMsg := Msg.init } cs r.prefetchedMsg
  else do
    match ← r.recvData cs with
    | (none, r, cs) => .ok (none, r, cs)
    | (some (p, m), r, cs) =>
        if r.moreIn then r.returned cs m
        else
          -- at the beginning of a message the routing id of the peer is returned
          .ok (some (labelMsg (r.routingIds p)),
            { r with
              prefetchedMsg := m
              prefetched := true
              currentIn := some p
              routingIdSent := true }, cs)

def xhasIn (r : Router) (cs : Channels) : Except Failure (Bool × Router × Channels) :=
  if r.moreIn || r.prefetched then .ok (true, r, cs)
  else do
    match ← r.recvData cs with
    | (none, r, cs) => .ok (false, r, cs)
    | (some (p, m), r, cs) =>
        .ok (true,
          { r with
            prefetchedMsg := m
            prefetchedId := labelMsg (r.routingIds p)
            prefetched := true
            routingIdSent := false
            currentIn := some p }, cs)

end Router
end LibZmq
