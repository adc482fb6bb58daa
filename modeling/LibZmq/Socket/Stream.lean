import LibZmq.Socket.FqReads
import LibZmq.Socket.Routing

/-!
# Streams

`stream_t` (`stream.cpp`) talks to peers that do not speak the protocol. A message consists of the
routing id of a peer and one further part with the bytes for it.
-/

namespace LibZmq

open LibZmq.Core PipePair

/-- `stream_t`. -/
structure Stream extends RoutingBase where
  fq : Fq
  /-- There is a message held in the pre-fetch buffer. -/
  prefetched : Bool
  /-- The receiver got the part with the routing id of the peer. -/
  routingIdSent : Bool
  prefetchedRoutingId : Msg
  prefetchedMsg : Msg
  /-- The pipe we are currently writing to. -/
  currentOut : Option PipeId
  /-- More outgoing parts are expected. -/
  moreOut : Bool
  nextIntegralRoutingId : UInt32
  /-- `options.immediate` is `1`. -/
  immediate : Bool

namespace Stream

/-- The constructor; `random` is the result of `generate_random ()`. -/
def new (random : UInt32) (immediate : Bool) : Stream :=
  { RoutingBase.new with
    fq := .new
    prefetched := false
    routingIdSent := false
    prefetchedRoutingId := Msg.init
    prefetchedMsg := Msg.init
    currentOut := none
    moreOut := false
    nextIntegralRoutingId := random
    immediate := immediate }

/-! ## Pipes -/

/-- The pipe gets the routing id `id`. -/
def namePipe (s : Stream) (p : PipeId) (id : Blob) : Except Failure Stream := do
  let b ← s.name p id
  .ok { s with toRoutingBase := b }

def identifyPeer (s : Stream) (p : PipeId) (locallyInitiated : Bool) : Except Failure Stream :=
  if locallyInitiated && !s.connectRoutingId.isEmpty then
    let id := s.connectRoutingId
    let s := { s with connectRoutingId := [] }
    -- not allowed to duplicate an existing routing id
    if s.hasOutPipe id then .error .assertion else s.namePipe p id
  else
    namePipe { s with nextIntegralRoutingId := s.nextIntegralRoutingId + 1 } p
      (integralRoutingId s.nextIntegralRoutingId)

def xattachPipe (s : Stream) (p : PipeId) (locallyInitiated : Bool) : Except Failure Stream := do
  let s ← s.identifyPeer p locallyInitiated
  let f ← s.fq.attach p
  .ok { s with fq := f }

def xpipeTerminated (s : Stream) (p : PipeId) : Except Failure Stream := do
  let b ← s.eraseOutPipe p
  let f ← s.fq.pipeTerminated p
  let out := if s.currentOut = some p then none else s.currentOut
  .ok { s with toRoutingBase := b, fq := f, currentOut := out }

def xreadActivated (s : Stream) (p : PipeId) : Except Failure Stream := do
  let f ← s.fq.activated p
  .ok { s with fq := f }

def handle (s : Stream) (cs : Channels) (p : PipeId) :
    PipeEvent → Except Failure (Stream × Channels)
  | .readActivated => do .ok (← s.xreadActivated p, cs)
  | .writeActivated => do
      let b ← s.xwriteActivated p
      .ok ({ s with toRoutingBase := b }, cs)
  | .pipeTerminated => do .ok (← s.xpipeTerminated p, cs)
  | .hiccuped => do
      let cs ← cs.hiccuped s.immediate p
      .ok (s, cs)
  | .statsPublish _ _ => .ok (s, cs)

/-! ## Sending -/

/-- The first part of a message is the routing id of the peer to send it to. It fails if there is
no such peer, or if it takes no messages. -/
def sendLabel (s : Stream) (cs : Channels) (m : Msg) : SendResult × Stream × Channels :=
  match s.lookupOutPipe m.data with
  | none => (.refused .ehostunreach m, s, cs)
  | some e =>
      match cs.checkWrite e.pipe with
      | (true, cs) => (.accepted, { s with moreOut := true, currentOut := some e.pipe }, cs)
      | (false, cs) =>
          (.refused .eagain m, { s with toRoutingBase := s.deactivate m.data e }, cs)

/-- The other part is pushed into the pipe `p`; an empty one closes the connection. -/
def sendBody (s : Stream) (cs : Channels) (p : PipeId) (m : Msg) :
    Except Failure (SendResult × Stream × Channels) :=
  if m.data.isEmpty then do
    let cs ← cs.terminate p false
    .ok (.accepted, { s with currentOut := none }, cs)
  else do
    match ← cs.write p m with
    | (false, cs) => .ok (.accepted, { s with currentOut := none }, cs)
    | (true, cs) => do
        let cs ← cs.flush p
        .ok (.accepted, { s with currentOut := none }, cs)

/-- `xsend`. One more part is expected after a first part, also if this did not announce one. -/
def xsend (s : Stream) (cs : Channels) (m : Msg) :
    Except Failure (SendResult × Stream × Channels) :=
  if !s.moreOut then
    if s.currentOut.isSome then .error .assertion
    else if m.hasMore then .ok (s.sendLabel cs m)
    else .ok (.accepted, { s with moreOut := true }, cs)
  else
    let m := m.resetMore
    let s := { s with moreOut := false }
    match s.currentOut with
    | none => .ok (.accepted, s, cs)
    | some p => s.sendBody cs p m

/-! ## Receiving -/

/-- `xrecv`; `none` stands for `-1` with `EAGAIN`. -/
def xrecv (s : Stream) (cs : Channels) : Except Failure (Option Msg × Stream × Channels) :=
  if s.prefetched then
    if !s.routingIdSent then
      .ok (some s.prefetchedRoutingId,
        { s with routingIdSent := true, prefetchedRoutingId := Msg.init }, cs)
    else
      .ok (some s.prefetchedMsg, { s with prefetched := false, prefetchedMsg := Msg.init }, cs)
  else do
    match ← s.fq.recvpipe cs with
    | (none, f, cs) => .ok (none, { s with fq := f }, cs)
    | (some (p, m), f, cs) =>
        if m.hasMore then .error .assertion
        else
          -- the bytes are kept, and the routing id of the peer is returned
          .ok (some (labelMsg (s.routingIds p)),
            { s with fq := f, prefetchedMsg := m, prefetched := true, routingIdSent := true }, cs)

def xhasIn (s : Stream) (cs : Channels) : Except Failure (Bool × Stream × Channels) :=
  if s.prefetched then .ok (true, s, cs)
  else do
    match ← s.fq.recvpipe cs with
    | (none, f, cs) => .ok (false, { s with fq := f }, cs)
    | (some (p, m), f, cs) =>
        if m.hasMore then .error .assertion
        else
          .ok (true,
            { s with
              fq := f
              prefetchedMsg := m
              prefetchedRoutingId := labelMsg (s.routingIds p)
              prefetched := true
              routingIdSent := false }, cs)

/-! ## What the calls leave alone -/

variable {s s' : Stream}

/-- What the socket does with an event of a pipe that stays. -/
theorem handle_quiet (hterm : e ≠ .pipeTerminated) (h : s.handle cs p e = .ok (s', cs')) :
    s'.nextIntegralRoutingId = s.nextIntegralRoutingId ∧ s'.currentOut = s.currentOut ∧
      s'.moreOut = s.moreOut ∧
      (s'.toRoutingBase = s.toRoutingBase ∨ s.xwriteActivated p = .ok s'.toRoutingBase) ∧
      (cs' = cs ∨ cs.hiccuped s.immediate p = .ok cs') := by
  cases e with
  | pipeTerminated => exact absurd rfl hterm
  | readActivated =>
    obtain ⟨s₁, hread, ⟨⟩⟩ := bind_ok h
    obtain ⟨f, -, ⟨⟩⟩ := bind_ok hread
    exact ⟨rfl, rfl, rfl, .inl rfl, .inl rfl⟩
  | writeActivated =>
    obtain ⟨b, hb, ⟨⟩⟩ := bind_ok h
    exact ⟨rfl, rfl, rfl, .inr hb, .inl rfl⟩
  | hiccuped =>
    obtain ⟨cs₁, hhic, ⟨⟩⟩ := bind_ok h
    exact ⟨rfl, rfl, rfl, .inl rfl, .inr hhic⟩
  | statsPublish =>
    cases h
    exact ⟨rfl, rfl, rfl, .inl rfl, .inl rfl⟩

/-- At most the queue is polled. -/
structure Polls (s : Stream) (cs : Channels) (s' : Stream) (cs' : Channels) : Prop where
  base : s'.toRoutingBase = s.toRoutingBase
  next : s'.nextIntegralRoutingId = s.nextIntegralRoutingId
  out : s'.currentOut = s.currentOut
  more : s'.moreOut = s.moreOut
  fq : s'.fq = s.fq ∧ cs' = cs ∨ ∃ found, s.fq.recvpipe cs = .ok (found, s'.fq, cs')

theorem xrecv_polls {part : Option Msg} (hrecv : s.xrecv cs = .ok (part, s', cs')) :
    Polls s cs s' cs' := by
  unfold xrecv at hrecv
  split at hrecv
  · split at hrecv <;> cases hrecv <;> exact ⟨rfl, rfl, rfl, rfl, .inl ⟨rfl, rfl⟩⟩
  obtain ⟨⟨found, f, cs₁⟩, hpoll, hrecv⟩ := bind_ok hrecv
  rcases found with _ | ⟨q, m⟩
  · cases hrecv
    exact ⟨rfl, rfl, rfl, rfl, .inr ⟨_, hpoll⟩⟩
  simp only at hrecv
  split at hrecv
  · cases hrecv
  · cases hrecv
    exact ⟨rfl, rfl, rfl, rfl, .inr ⟨_, hpoll⟩⟩

theorem xhasIn_polls (hin : s.xhasIn cs = .ok (b, s', cs')) : Polls s cs s' cs' := by
  unfold xhasIn at hin
  split at hin
  · cases hin
    exact ⟨rfl, rfl, rfl, rfl, .inl ⟨rfl, rfl⟩⟩
  obtain ⟨⟨found, f, cs₁⟩, hpoll, hin⟩ := bind_ok hin
  rcases found with _ | ⟨q, m⟩
  · cases hin
    exact ⟨rfl, rfl, rfl, rfl, .inr ⟨_, hpoll⟩⟩
  simp only at hin
  split at hin
  · cases hin
  · cases hin
    exact ⟨rfl, rfl, rfl, rfl, .inr ⟨_, hpoll⟩⟩

end Stream
end LibZmq
