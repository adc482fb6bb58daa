import LibZmq.Socket.Dealer
import LibZmq.Wire.Bytes

/-!
# Requests

`req_t` (`req.cpp`) is a dealer that sends a request and then receives its reply. It puts an empty
frame in front of every request, and a number in front of that if the user wants to know which
reply belongs to which request. A reply comes with the same frames in front.

`ReqNet` is a socket with its pipes and a record of what its user has sent and received. The
results about runs are in `LibZmq.Socket.ReqEnvelope` and `LibZmq.Socket.ReqReply`.
-/

namespace LibZmq

open LibZmq.Core PipePair

/-- `req_t`. -/
structure Req extends Dealer where
  /-- A request was sent, and the reply has not been received completely. -/
  receivingReply : Bool
  /-- The next part to be sent or received is the first one of a message. -/
  messageBegins : Bool
  /-- The pipe the request was sent to. -/
  replyPipe : Option PipeId
  requestIdFramesEnabled : Bool
  requestId : UInt32
  /-- A request must be answered before the next one is sent. -/
  strict : Bool

namespace Req

/-- The constructor; `random` is the result of `generate_random ()`. -/
def new (random : UInt32) (immediate : Bool) : Req :=
  { Dealer.new immediate with
    receivingReply := false
    messageBegins := true
    replyPipe := none
    requestIdFramesEnabled := false
    requestId := random
    strict := true }

inductive Opt where
  | correlate
  | relaxed
  | probeRouter
deriving DecidableEq, Repr

/-- `xsetsockopt`; `none` stands for `-1` with `EINVAL`. -/
def setOption (r : Req) (o : Opt) (value : Int) : Option Req :=
  match o with
  | .correlate =>
      if value ≥ 0 then some { r with requestIdFramesEnabled := decide (value ≠ 0) } else none
  | .relaxed => if value ≥ 0 then some { r with strict := decide (value = 0) } else none
  | .probeRouter => (r.toDealer.setProbeRouter value).map fun d => { r with toDealer := d }

/-! ## Sending -/

/-- The bytes of a number in the order of the host, which has the least significant byte first. -/
def requestIdBytes (id : UInt32) : Bytes := (Wire.putUint32 id).reverse

/-- The frame with the number of the request. -/
def idFrame (id : UInt32) : Msg :=
  { Msg.init with flags := MsgFlag.more, data := requestIdBytes id }

/-- The empty frame in front of the request. -/
def bottom : Msg := { Msg.init with flags := MsgFlag.more }

/-- A frame is sent with `dealer_t::sendpipe`, which says where it has gone. -/
def sendFrame (r : Req) (cs : Channels) (m : Msg) : Except Failure (Bool × Req × Channels) := do
  let (st, d, cs) ← r.toDealer.sendpipe cs m
  match st with
  | .done (some p) => .ok (true, { r with toDealer := d, replyPipe := some p }, cs)
  | .done none => .ok (true, { r with toDealer := d }, cs)
  | .again | .abandoned => .ok (false, { r with toDealer := d }, cs)

/-- The number of the request is sent, if the user wants it. -/
def sendRequestId (r : Req) (cs : Channels) : Except Failure (Bool × Req × Channels) :=
  if r.requestIdFramesEnabled then
    let r := { r with requestId := r.requestId + 1 }
    r.sendFrame cs (idFrame r.requestId)
  else .ok (true, r, cs)

/-- The frames in front of a request. -/
def sendEnvelope (r : Req) (cs : Channels) : Except Failure (Bool × Req × Channels) := do
  match ← sendRequestId { r with replyPipe := none } cs with
  | (false, r, cs) => .ok (false, r, cs)
  | (true, r, cs) => r.sendFrame cs bottom

/-- All messages that are available are dropped, so that an old reply is not taken for the new
one. -/
def dropInput (r : Req) (cs : Channels) : Except Failure (Req × Channels) := do
  let (_, f, cs) ← r.fq.recvUntil (fun _ _ => false) (r.fq.backlog cs + 1) cs
  .ok ({ r with fq := f }, cs)

/-- A request begins. -/
def openRequest (r : Req) (cs : Channels) : Except Failure (Bool × Req × Channels) := do
  match ← r.sendEnvelope cs with
  | (false, r, cs) => .ok (false, r, cs)
  | (true, r, cs) =>
      if r.replyPipe.isNone then .error .assertion
      else do
        let (r, cs) ← dropInput { r with messageBegins := false } cs
        .ok (true, r, cs)

/-- A part of the request is sent; after the last one it is time to receive the reply. -/
def sendPart (r : Req) (cs : Channels) (m : Msg) :
    Except Failure (SendResult × Req × Channels) := do
  let (res, d, cs) ← r.toDealer.xsend cs m
  if res.rc = 0 ∧ m.hasMore = false then
    .ok (res, { r with toDealer := d, receivingReply := true, messageBegins := true }, cs)
  else .ok (res, { r with toDealer := d }, cs)

def xsend (r : Req) (cs : Channels) (m : Msg) : Except Failure (SendResult × Req × Channels) :=
  if r.receivingReply && r.strict then .ok (.refused .efsm m, r, cs)
  else
    let r := if r.receivingReply then { r with receivingReply := false, messageBegins := true }
      else r
    if r.messageBegins then do
      match ← r.openRequest cs with
      | (false, r, cs) => .ok (.refused .eagain m, r, cs)
      | (true, r, cs) => r.sendPart cs m
    else r.sendPart cs m

def xhasOut (r : Req) (cs : Channels) : Except Failure (Bool × Req × Channels) :=
  if r.receivingReply && r.strict then .ok (false, r, cs)
  else do
    let (b, d, cs) ← r.toDealer.xhasOut cs
    .ok (b, { r with toDealer := d }, cs)

/-! ## Receiving -/

/-- `recv_reply_pipe`; `none` stands for `-1` with `EAGAIN`. -/
def recvReplyPipe (r : Req) (cs : Channels) : Except Failure (Option Msg × Req × Channels) := do
  let (part, f, cs) ← r.fq.recvUntil (fun p _ => r.replyPipe.isNone || r.replyPipe == some p)
    (r.fq.backlog cs + 1) cs
  .ok (part.map Prod.snd, { r with fq := f }, cs)

/-- Skip the remaining frames of a message; at most `n` of them. -/
def skipRest : Nat → Req → Channels → Msg → Except Failure (Req × Channels)
  | 0, r, cs, _ => .ok (r, cs)
  | n + 1, r, cs, m =>
      if m.hasMore then do
        match ← r.recvReplyPipe cs with
        | (none, _, _) => .error .assertion
        | (some m, r, cs) => skipRest n r cs m
      else .ok (r, cs)

/-- The next frame must be as `good` says, or else its message is skipped. `none` if there is no
frame. -/
def expect (r : Req) (cs : Channels) (good : Msg → Bool) :
    Except Failure (Option Bool × Req × Channels) := do
  match ← r.recvReplyPipe cs with
  | (none, r, cs) => .ok (none, r, cs)
  | (some m, r, cs) =>
      if good m then .ok (some true, r, cs)
      else do
        let (r, cs) ← skipRest (r.fq.backlog cs + 1) r cs m
        .ok (some false, r, cs)

/-- The frame has the number of the request. -/
def isRequestId (id : UInt32) (m : Msg) : Bool := m.hasMore && m.data == requestIdBytes id

/-- The frame is empty, and another one follows. -/
def isBottom (m : Msg) : Bool := m.hasMore && m.data.isEmpty

/-- If enabled, the first frame must have the number of the request. -/
def expectRequestId (r : Req) (cs : Channels) : Except Failure (Option Bool × Req × Channels) :=
  if r.requestIdFramesEnabled then r.expect cs (isRequestId r.requestId)
  else .ok (some true, r, cs)

/-- Skip messages until one with the right first frames is found, and take these from it; at most
`n` messages. -/
def beginReply : Nat → Req → Channels → Except Failure (Bool × Req × Channels)
  | 0, r, cs => .ok (false, r, cs)
  | n + 1, r, cs => do
      match ← r.expectRequestId cs with
      | (none, r, cs) => .ok (false, r, cs)
      | (some false, r, cs) => beginReply n r cs
      | (some true, r, cs) => do
          match ← r.expect cs isBottom with
          | (none, r, cs) => .ok (false, r, cs)
          | (some false, r, cs) => beginReply n r cs
          | (some true, r, cs) => .ok (true, { r with messageBegins := false }, cs)

/-- A frame of the reply is received; after the last one the next request can be sent. -/
def recvPart (r : Req) (cs : Channels) : Except Failure (Except Errno Msg × Req × Channels) := do
  match ← r.recvReplyPipe cs with
  | (none, r, cs) => .ok (.error .eagain, r, cs)
  | (some m, r, cs) =>
      if m.hasMore then .ok (.ok m, r, cs)
      else .ok (.ok m, { r with receivingReply := false, messageBegins := true }, cs)

def xrecv (r : Req) (cs : Channels) : Except Failure (Except Errno Msg × Req × Channels) :=
  if !r.receivingReply then .ok (.error .efsm, r, cs)
  else if r.messageBegins then do
    match ← beginReply (r.fq.backlog cs + 1) r cs with
    | (false, r, cs) => .ok (.error .eagain, r, cs)
    | (true, r, cs) => r.recvPart cs
  else r.recvPart cs

def xhasIn (r : Req) (cs : Channels) : Except Failure (Bool × Req × Channels) :=
  if !r.receivingReply then .ok (false, r, cs)
  else do
    let (b, d, cs) ← r.toDealer.xhasIn cs
    .ok (b, { r with toDealer := d }, cs)

/-! ## Pipes -/

/-- `xattach_pipe`, which is that of `dealer_t`. -/
def xattachPipe (r : Req) (cs : Channels) (p : PipeId) : Except Failure (Req × Channels) := do
  let (d, cs) ← r.toDealer.xattachPipe cs p
  .ok ({ r with toDealer := d }, cs)

def xpipeTerminated (r : Req) (p : PipeId) : Except Failure Req := do
  let reply := if r.replyPipe = some p then none else r.replyPipe
  let d ← r.toDealer.xpipeTerminated p
  .ok { r with toDealer := d, replyPipe := reply }

def handle (r : Req) (cs : Channels) (p : PipeId) : PipeEvent → Except Failure (Req × Channels)
  | .pipeTerminated => do
      let r ← r.xpipeTerminated p
      .ok (r, cs)
  | e => do
      let (d, cs) ← r.toDealer.handle cs p e
      .ok ({ r with toDealer := d }, cs)

/-! ## What the calls leave alone -/

variable {r r' r'' : Req} {cs cs' cs'' : Channels} {pipes : Finset PipeId}

theorem handle_dealer (h : r.handle cs p e = .ok (r', cs')) :
    r.toDealer.handle cs p e = .ok (r'.toDealer, cs') ∧ r' = { r with
        toDealer := r'.toDealer
        replyPipe :=
          if e = .pipeTerminated ∧ r.replyPipe = some p then none else r.replyPipe } := by
  cases e with
  | pipeTerminated =>
    obtain ⟨r₁, hr, ⟨⟩⟩ := bind_ok h
    obtain ⟨d, hd, ⟨⟩⟩ := bind_ok hr
    simp [Dealer.handle, hd]
  | readActivated | writeActivated | hiccuped | statsPublish =>
    obtain ⟨⟨d, cs₁⟩, hd, ⟨⟩⟩ := bind_ok h
    exact ⟨hd, by simp⟩

theorem setOption_eq (value : Int) (ho : o ≠ .probeRouter) (r : Req) :
    ∃ correlate strict, (r.setOption o value).getD r =
      { r with requestIdFramesEnabled := correlate, strict := strict } := by
  cases o with
  | probeRouter => exact absurd rfl ho
  | correlate =>
    by_cases hv : value ≥ 0
    · exact ⟨decide (value ≠ 0), r.strict, by simp [setOption, hv]⟩
    · exact ⟨r.requestIdFramesEnabled, r.strict, by simp [setOption, hv]⟩
  | relaxed =>
    by_cases hv : value ≥ 0
    · exact ⟨r.requestIdFramesEnabled, decide (value = 0), by simp [setOption, hv]⟩
    · exact ⟨r.requestIdFramesEnabled, r.strict, by simp [setOption, hv]⟩

/-- The socket has received, and has not done anything else. -/
structure Listens (r : Req) (cs : Channels) (r' : Req) (cs' : Channels) : Prop where
  same : r' = { r with
    fq := r'.fq, receivingReply := r'.receivingReply, messageBegins := r'.messageBegins }
  searched : Fq.Searched r.fq cs r'.fq cs'

theorem Listens.trans (h : Listens r cs r' cs') (h' : Listens r' cs' r'' cs'') :
    Listens r cs r'' cs'' := by
  refine ⟨?_, h.searched.trans h'.searched⟩
  rw [h'.same, h.same]

section listening
variable (h : Fq.Matches r.fq.pipes cs) {found : Option Bool}
include h

theorem Listens.refl : Listens r cs r cs := ⟨rfl, .refl h⟩

theorem recvReplyPipe_listens (hcall : r.recvReplyPipe cs = .ok (m, r', cs')) :
    Listens r cs r' cs' ∧ r' = { r with fq := r'.fq } := by
  obtain ⟨⟨part, f, cs₁⟩, hrecv, ⟨⟩⟩ := bind_ok hcall
  exact ⟨⟨rfl, Fq.recvUntil_searched h hrecv⟩, rfl⟩

theorem dropInput_listens (hcall : r.dropInput cs = .ok (r', cs')) :
    Listens r cs r' cs' ∧ r' = { r with fq := r'.fq } := by
  obtain ⟨⟨part, f, cs₁⟩, hrecv, ⟨⟩⟩ := bind_ok hcall
  exact ⟨⟨rfl, Fq.recvUntil_searched h hrecv⟩, rfl⟩

theorem skipRest_listens (hcall : skipRest n r cs m = .ok (r', cs')) :
    Listens r cs r' cs' ∧ r' = { r with fq := r'.fq } := by
  induction n generalizing r cs m with
  | zero =>
    cases hcall
    exact ⟨.refl h, rfl⟩
  | succ n ih =>
    unfold skipRest at hcall
    split at hcall
    · obtain ⟨⟨part, r₁, cs₁⟩, hrecv, hcall⟩ := bind_ok hcall
      obtain ⟨hl, hsame⟩ := recvReplyPipe_listens h hrecv
      cases part with
      | none => cases hcall
      | some =>
        obtain ⟨hl', hsame'⟩ := ih hl.searched.agreed hcall
        exact ⟨hl.trans hl', by rw [hsame', hsame]⟩
    · cases hcall
      exact ⟨.refl h, rfl⟩

theorem expect_listens {good : Msg → Bool} (hcall : r.expect cs good = .ok (found, r', cs')) :
    Listens r cs r' cs' ∧ r' = { r with fq := r'.fq } := by
  obtain ⟨⟨part, r₁, cs₁⟩, hrecv, hcall⟩ := bind_ok hcall
  obtain ⟨hl, hsame⟩ := recvReplyPipe_listens h hrecv
  cases part with
  | none =>
    cases hcall
    exact ⟨hl, hsame⟩
  | some =>
    simp only at hcall
    split at hcall
    · cases hcall
      exact ⟨hl, hsame⟩
    obtain ⟨⟨r₂, cs₂⟩, hskip, ⟨⟩⟩ := bind_ok hcall
    obtain ⟨hl', hsame'⟩ := skipRest_listens hl.searched.agreed hskip
    exact ⟨hl.trans hl', by rw [hsame', hsame]⟩

theorem expectRequestId_listens (hcall : r.expectRequestId cs = .ok (found, r', cs')) :
    Listens r cs r' cs' ∧ r' = { r with fq := r'.fq } := by
  unfold expectRequestId at hcall
  split at hcall
  · exact expect_listens h hcall
  · cases hcall
    exact ⟨.refl h, rfl⟩

theorem beginReply_listens (hcall : beginReply n r cs = .ok (b, r', cs')) :
    Listens r cs r' cs' ∧ r'.receivingReply = r.receivingReply := by
  induction n generalizing r cs with
  | zero =>
    cases hcall
    exact ⟨.refl h, rfl⟩
  | succ n ih =>
    obtain ⟨⟨found, r₁, cs₁⟩, hid, hcall⟩ := bind_ok hcall
    obtain ⟨hl, hsame⟩ := expectRequestId_listens h hid
    have hreceiving : r₁.receivingReply = r.receivingReply := by rw [hsame]
    match found with
    | none =>
      cases hcall
      exact ⟨hl, hreceiving⟩
    | some false =>
      obtain ⟨hl', hsame'⟩ := ih hl.searched.agreed hcall
      exact ⟨hl.trans hl', hsame'.trans hreceiving⟩
    | some true =>
      obtain ⟨⟨found', r₂, cs₂⟩, hbottom, hcall⟩ := bind_ok hcall
      obtain ⟨hl', hsame'⟩ := expect_listens hl.searched.agreed hbottom
      have hreceiving' : r₂.receivingReply = r.receivingReply := by rw [hsame', hreceiving]
      match found' with
      | none =>
        cases hcall
        exact ⟨hl.trans hl', hreceiving'⟩
      | some false =>
        obtain ⟨hl'', hsame''⟩ := ih hl'.searched.agreed hcall
        exact ⟨(hl.trans hl').trans hl'', hsame''.trans hreceiving'⟩
      | some true =>
        cases hcall
        exact ⟨(hl.trans hl').trans ⟨rfl, .refl hl'.searched.agreed⟩, hreceiving'⟩

/-- After `xrecv` either the reply is still awaited, or the next request can be sent. -/
theorem recvPart_listens (hcall : r.recvPart cs = .ok (res, r', cs')) :
    Listens r cs r' cs' ∧ (r'.receivingReply = r.receivingReply ∨ r'.messageBegins = true) := by
  obtain ⟨⟨part, r₁, cs₁⟩, hrecv, hcall⟩ := bind_ok hcall
  obtain ⟨hl, hsame⟩ := recvReplyPipe_listens h hrecv
  have hreceiving : r₁.receivingReply = r.receivingReply := by rw [hsame]
  cases part with
  | none =>
    cases hcall
    exact ⟨hl, .inl hreceiving⟩
  | some =>
    simp only at hcall
    split at hcall
    · cases hcall
      exact ⟨hl, .inl hreceiving⟩
    · cases hcall
      exact ⟨hl.trans ⟨rfl, .refl hl.searched.agreed⟩, .inr rfl⟩

theorem xrecv_listens (hcall : r.xrecv cs = .ok (res, r', cs')) :
    Listens r cs r' cs' ∧ (r.receivingReply = false → r' = r) ∧
      (r.receivingReply = true → r'.receivingReply = false → r'.messageBegins = true) := by
  unfold xrecv at hcall
  split at hcall
  · rename_i hno
    cases hcall
    refine ⟨.refl h, fun _ => rfl, fun hyes => ?_⟩
    simp [hyes] at hno
  rename_i hyes
  have hyes : r.receivingReply = true := by simpa using hyes
  have hcase : Listens r cs r' cs' ∧
      (r'.receivingReply = r.receivingReply ∨ r'.messageBegins = true) := by
    split at hcall
    · obtain ⟨⟨b, r₁, cs₁⟩, hbegin, hcall⟩ := bind_ok hcall
      obtain ⟨hl, hreceiving⟩ := beginReply_listens h hbegin
      cases b with
      | false =>
        cases hcall
        exact ⟨hl, .inl hreceiving⟩
      | true =>
        obtain ⟨hl', hcase⟩ := recvPart_listens hl.searched.agreed hcall
        exact ⟨hl.trans hl', hcase.imp_left fun e => e.trans hreceiving⟩
    · exact recvPart_listens h hcall
  refine ⟨hcase.1, fun hno => ?_, fun _ hdone => ?_⟩
  · rw [hyes] at hno
    cases hno
  · refine hcase.2.resolve_left fun e => ?_
    rw [e, hyes] at hdone
    cases hdone

end listening

theorem hasMore_idFrame (id : UInt32) : (idFrame id).hasMore = true := by
  show (MsgFlag.more &&& MsgFlag.more != 0) = true
  decide

theorem ordinary_idFrame (id : UInt32) : (idFrame id).Ordinary := by
  refine ⟨rfl, ?_⟩
  show (MsgFlag.more &&& MsgFlag.credential == MsgFlag.credential) = false
  decide

theorem hasMore_bottom : bottom.hasMore = true := rfl

section sending
variable (h : r.Wired pipes cs)
include h

theorem sendFrame_keeps (hmsg : m.Ordinary) (hcall : r.sendFrame cs m = .ok (b, r', cs')) :
    r'.Wired pipes cs' ∧ (∀ q, (cs q).Kept (cs' q)) ∧
      r' = { r with lb := r'.lb, replyPipe := r'.replyPipe } := by
  obtain ⟨⟨st, d, cs₁⟩, hsend, hcall⟩ := bind_ok hcall
  obtain ⟨hs, hsame, hwired⟩ := h.sendpipe hmsg hsend
  match st with
  | .done (some _) | .done none | .again | .abandoned =>
    cases hcall
    exact ⟨hwired, hs.kept, by rw [hsame]⟩

theorem sendEnvelope_keeps (hcall : r.sendEnvelope cs = .ok (b, r', cs')) :
    r'.Wired pipes cs' ∧ (∀ q, (cs q).Kept (cs' q)) ∧
      r' = { r with lb := r'.lb, replyPipe := r'.replyPipe, requestId := r'.requestId } := by
  obtain ⟨⟨sent, r₁, cs₁⟩, hid, hcall⟩ := bind_ok hcall
  have hfirst : r₁.Wired pipes cs₁ ∧ (∀ q, (cs q).Kept (cs₁ q)) ∧
      r₁ = { r with lb := r₁.lb, replyPipe := r₁.replyPipe, requestId := r₁.requestId } := by
    unfold sendRequestId at hid
    split at hid
    · obtain ⟨hwired, hkept, hsame⟩ := sendFrame_keeps
        (r := { r with replyPipe := none, requestId := r.requestId + 1 }) h
        (ordinary_idFrame _) hid
      exact ⟨hwired, hkept, by rw [hsame]⟩
    · cases hid
      exact ⟨h, fun _ => .refl _, rfl⟩
  obtain ⟨hwired, hkept, hsame⟩ := hfirst
  cases sent with
  | false =>
    cases hcall
    exact ⟨hwired, hkept, hsame⟩
  | true =>
    obtain ⟨hwired', hkept', hsame'⟩ := sendFrame_keeps hwired ⟨rfl, rfl⟩ hcall
    exact ⟨hwired', fun q => (hkept q).trans (hkept' q), by rw [hsame', hsame]⟩

theorem sendPart_keeps (hmsg : m.Ordinary) (hcall : r.sendPart cs m = .ok (res, r', cs')) :
    r'.Wired pipes cs' ∧ (∀ q, (cs q).Kept (cs' q)) ∧ (r' = { r with lb := r'.lb } ∨
        r' = { r with lb := r'.lb, receivingReply := true, messageBegins := true }) ∧
      res.errno ≠ some .efsm := by
  obtain ⟨⟨res', d, cs₁⟩, hsend, hcall⟩ := bind_ok hcall
  obtain ⟨⟨st, d', cs₂⟩, hpipe, ⟨⟩⟩ := bind_ok hsend
  obtain ⟨hs, hsame, hwired⟩ := h.sendpipe hmsg hpipe
  have herrno : (st.result m).errno ≠ some .efsm := by
    cases st <;> simp [SendStatus.result, SendResult.accepted, SendResult.refused]
  simp only at hcall
  split at hcall
  · cases hcall
    exact ⟨hwired, hs.kept, .inr (by rw [hsame]), herrno⟩
  · cases hcall
    exact ⟨hwired, hs.kept, .inl (by rw [hsame]), herrno⟩

end sending
end Req

/-! ## Runs -/

/-- A request of the user, with its number if it has one. -/
structure Req.Request where
  id : Option UInt32
  parts : List Msg
deriving DecidableEq, Repr

/-- The frames that are sent for a request. -/
def Req.Request.frames (q : Request) : List Msg :=
  (q.id.map idFrame).toList ++ [bottom] ++ q.parts

/-- A reply that the user has received. -/
structure Req.Answer where
  /-- The number of the request, if it had one. -/
  id : Option UInt32
  /-- The pipe that its envelope was sent to. -/
  target : Option PipeId
  parts : List Msg
deriving DecidableEq, Repr

/-- A socket, its pipes, and what its user has sent and received. -/
structure ReqNet where
  req : Req
  pipes : Finset PipeId
  /-- The pipes that have ever been attached. -/
  seen : Finset PipeId
  channels : Channels
  /-- The requests that were sent, oldest first. -/
  requests : List Req.Request
  /-- The first parts of the next one. -/
  request : Req.Request
  /-- The pipe that the last envelope was sent to. -/
  target : Option PipeId
  /-- The last call of `send` did not take its part, or has dropped it. -/
  failed : Bool
  /-- The replies that were received, oldest first. -/
  answers : List Req.Answer
  /-- The first parts of the next one. -/
  answer : Req.Answer

namespace ReqNet

open Req (Request Answer)

inductive Act where
  | attach (p : PipeId)
  | pipe (p : PipeId) (a : PipePair.Action)
  /-- `send` calls `xsend`, and waits if it is `blocking`. To try again is another step. -/
  | send (m : Msg) (blocking : Bool)
  | recv
  | hasIn
  | hasOut
  | setOption (o : Req.Opt) (value : Int)
deriving DecidableEq, Repr

def initial (random : UInt32) (immediate : Bool) (hwm₀ hwm₁ : PipeId → Int) : ReqNet :=
  { req := .new random immediate
    pipes := ∅
    seen := ∅
    channels := fun p => .start (hwm₀ p) (hwm₁ p)
    requests := []
    request := ⟨none, []⟩
    target := none
    failed := false
    answers := []
    answer := ⟨none, none, []⟩ }

/-- The number that belongs to the current request. -/
def number (r : Req) : Option UInt32 := if r.requestIdFramesEnabled then some r.requestId else none

/-- The user has sent another part, after which the socket is `r`. -/
def sent (n : ReqNet) (m : Msg) (r : Req) : ReqNet :=
  let request : Request := if n.request.parts.isEmpty then ⟨number r, [m]⟩
    else { n.request with parts := n.request.parts ++ [m] }
  if m.hasMore then { n with request := request }
  else { n with requests := n.requests ++ [request], request := ⟨none, []⟩ }

/-- The user has received another part. -/
def received (n : ReqNet) (m : Msg) : ReqNet :=
  let answer : Answer := if n.answer.parts.isEmpty then ⟨number n.req, n.target, [m]⟩
    else { n.answer with parts := n.answer.parts ++ [m] }
  if m.hasMore then { n with answer := answer }
  else { n with answers := n.answers ++ [answer], answer := ⟨none, none, []⟩ }

/-- The socket is told what has happened to one of its pipes. -/
def tell (r : Req) (cs : Channels) (p : PipeId) (ev : List PipeEvent) :
    Except Failure (Req × Channels) :=
  ev.foldlM (fun (r, cs) e => r.handle cs p e) (r, cs)

def next (n : ReqNet) : Act → Except Failure ReqNet
  | .attach p => do
      let (r, cs) ← n.req.xattachPipe n.channels p
      .ok { n with req := r, pipes := insert p n.pipes, seen := insert p n.seen, channels := cs }
  | .pipe p a => do
      let (ev, cs) ← n.channels.act p a
      let (r, cs) ← tell n.req cs p ev
      .ok { n with req := r, pipes := Channels.remaining n.pipes p ev, channels := cs }
  | .send m blocking => do
      let (res, r, cs) ← n.req.xsend n.channels m
      -- a part that cannot be delivered any more is dropped if the user waits
      let n := if res.rc = 0 ∨ res.rc = -2 ∧ blocking = true then n.sent m r else n
      -- whoever sends again does not wait for the reply any more
      let answer := if res.errno = some .efsm then n.answer else ⟨none, none, []⟩
      .ok { n with
        req := r
        channels := cs
        target := r.replyPipe.or n.target
        failed := decide (res.rc ≠ 0 ∧ res.errno = some .eagain)
        answer := answer }
  | .recv => do
      let (res, r, cs) ← n.req.xrecv n.channels
      let n := match res with
        | .ok m => n.received m
        | .error _ => n
      .ok { n with req := r, channels := cs }
  | .hasIn => do
      let (_, r, cs) ← n.req.xhasIn n.channels
      .ok { n with req := r, channels := cs }
  | .hasOut => do
      let (_, r, cs) ← n.req.xhasOut n.channels
      .ok { n with req := r, channels := cs }
  | .setOption o value => .ok { n with req := (n.req.setOption o value).getD n.req }

/-- A pipe is attached once, and lives until the socket is told that it is terminated. Only the
socket reads and writes its end, and nobody replaces its queue. The user does not ask for probes,
which are messages of their own. -/
def Enabled (n : ReqNet) : Act → Prop
  | .attach p => p ∉ n.pipes ∧ ¬ (n.channels p).gone
  | .pipe p a => n.channels.Outside n.pipes p a ∧ a ≠ .hiccup .second ∧
      (a = .deliver .first → (n.channels p).pair.hiccupNext .first = false)
  | .send m _ => m.isDelimiter = false ∧ m.isCredential = false
  | .setOption o _ => o ≠ .probeRouter
  | .recv | .hasIn | .hasOut => True

def Step (n : ReqNet) (a : Act) (n' : ReqNet) : Prop := n.Enabled a ∧ n.next a = .ok n'

/-- The dealer is told the same; a reply is no longer expected from a pipe that is gone. -/
theorem tell_dealer (hfew : ev = [] ∨ ∃ e, ev = [e]) (h : tell r cs p ev = .ok (r', cs')) :
    ev.foldlM (fun (d, cs) e => Dealer.handle d cs p e) (r.toDealer, cs) = .ok (r'.toDealer, cs') ∧
      r' = { r with
        toDealer := r'.toDealer
        replyPipe := if ev = [.pipeTerminated] ∧ r.replyPipe = some p then none
          else r.replyPipe } := by
  rcases hfew with rfl | ⟨e, rfl⟩
  · cases h
    exact ⟨rfl, by simp⟩
  · simp only [tell, foldlM_singleton] at h ⊢
    obtain ⟨hd, hsame⟩ := Req.handle_dealer h
    exact ⟨hd, by simpa using hsame⟩

instance (n : ReqNet) (a : Act) : Decidable (n.Enabled a) := by
  rcases a <;> dsimp only [Enabled] <;> infer_instance

end ReqNet
end LibZmq
