import LibZmq.Socket.Req

/-!
# Requests have an envelope

Every message that a peer gets is a request of the user with its envelope in front, and after a
request that has failed the next one begins with an envelope again.

* `requests_enveloped`: this is so in every run in which the pipe of a request stays with it: it
  takes every part (`Steady`).
* `envelope_missing`: when the pipe is closed in the middle of a request, the socket goes on to wait
  for the rest of it, and sends the next request without an envelope.
-/

namespace LibZmq

open LibZmq.Core PipePair Function List

/-! ## Pipes that are not closed by the peer -/

namespace Channels

variable {cs cs' : Channels} {p q : PipeId} {m : Msg} {pipes : Finset PipeId}

/-- No pipe that can be written is closed by the peer. -/
def Calm (cs : Channels) (pipes : Finset PipeId) : Prop :=
  ∀ p ∈ pipes, (cs p).pipe.state = .active → (cs p).NoDelimiter

instance (cs : Channels) (pipes : Finset PipeId) : Decidable (cs.Calm pipes) :=
  inferInstanceAs (Decidable (∀ _ ∈ _, _))

theorem Calm.kept (h : cs.Calm pipes) (hkept : ∀ q, (cs q).Kept (cs' q))
    (hh : ∀ q, (cs q).Healthy) : cs'.Calm pipes := by
  intro p hp hst
  rw [Channel.NoDelimiter, (hkept p).inbox (hh p)]
  exact h p hp ((hkept p).state ▸ hst)

end Channels

/-! ## Sending the frames of one message -/

namespace Dealer

variable {d d' : Dealer} {pipes : Finset PipeId} {cs cs' : Channels} {opened : List Msg} {m : Msg}

/-- The messages `messages` were sent, and the first parts `opened` of another one, which is not
dropped. -/
structure Sending (d : Dealer) (pipes : Finset PipeId) (cs : Channels) (messages : List (List Msg))
    (opened : List Msg) : Prop where
  wired : d.Wired pipes cs
  atomic : LbNet.Atomic ⟨d.lb, cs, messages, opened⟩
  dropping : d.lb.dropping = false

/-- The pipe of the current message takes the next part. -/
def Ready (d : Dealer) (cs : Channels) : Prop :=
  d.lb.more = true → ∀ p, d.lb.pipes.IsCurrent p → (cs p).Writable

/-- A part goes to the pipe of the message, or there is no pipe for a new one. -/
theorem Sending.sendpipe (h : d.Sending pipes cs messages opened) (hmsg : m.Ordinary)
    (hready : d.Ready cs) (hcall : d.sendpipe cs m = .ok (st, d', cs')) :
    d' = { d with lb := d'.lb } ∧
      (st = .again ∧ d.lb.more = false ∧ d'.lb.more = false ∧ d'.Sending pipes cs' messages opened ∨
        ∃ p, st = .done (some p) ∧ d'.lb.more = m.hasMore ∧
          d'.Sending pipes cs' (if m.hasMore then messages else messages ++ [opened ++ [m]])
            (if m.hasMore then opened ++ [m] else []) ∧
          (m.hasMore = true → d'.lb.pipes.IsCurrent p ∧ (cs' p).Writable)) := by
  obtain ⟨hs, hsame, hwired⟩ := h.wired.sendpipe hmsg hcall
  have hatomic := h.atomic.moves (.sendpipe ⟨hmsg.1, hmsg.2⟩ hs) trivial trivial
  refine ⟨hsame, ?_⟩
  generalize hb : d'.lb = b at hs hatomic
  cases hs with
  | drop hdrop =>
    rw [h.dropping] at hdrop
    cases hdrop
  | again _ hmore =>
    refine .inl ⟨rfl, hmore, hmore, hwired, by rw [hb]; exact hatomic, ?_⟩
    rw [hb]
    exact h.dropping
  | abandon _ hmore hp ho =>
    -- the pipe would have taken the part
    exact absurd (hready hmore _ hp) ho.not_writable
  | @part l cs₁ _ p _ _ _ hp hw hm =>
    refine .inr ⟨p, rfl, hm.symm, ⟨hwired, ?_, by rw [hb]; exact h.dropping⟩,
      fun _ => ⟨hp, hw.ready hm⟩⟩
    rw [hb]
    simpa [LbNet.pass, hm] using hatomic
  | last _ _ _ _ _ hm =>
    refine .inr ⟨_, rfl, hm.symm, ⟨hwired, ?_, by rw [hb]; exact h.dropping⟩, ?_⟩
    · rw [hb]
      simpa [LbNet.pass, hm] using hatomic
    · rw [hm]
      exact fun h => absurd h Bool.false_ne_true

/-- The message that is being sent has gone to pipe `p`, which takes the rest of it. -/
structure Carrying (d : Dealer) (pipes : Finset PipeId) (cs : Channels) (messages : List (List Msg))
    (opened : List Msg) (p : PipeId) : Prop extends Sending d pipes cs messages opened where
  more : d.lb.more = true
  current : d.lb.pipes.IsCurrent p
  writable : (cs p).Writable

theorem Carrying.ready (h : d.Carrying pipes cs messages opened p) : d.Ready cs := by
  intro _ q hq
  rw [hq.unique h.current]
  exact h.writable

end Dealer

/-! ## Sending a request -/

namespace Req

open ReqNet (number)

variable {r r' : Req} {pipes : Finset PipeId} {cs cs' : Channels} {opened : List Msg} {m : Msg}

/-- The frames of an envelope. -/
def envelope (id : Option UInt32) : List Msg := (id.map idFrame).toList ++ [bottom]

theorem sendFrame_spec (h : r.toDealer.Sending pipes cs messages opened) (hm : m.hasMore = true)
    (hmsg : m.Ordinary) (hready : r.toDealer.Ready cs)
    (hcall : r.sendFrame cs m = .ok (b, r', cs')) :
    b = false ∧ r.lb.more = false ∧ r' = { r with lb := r'.lb } ∧ r'.lb.more = false ∧
        r'.toDealer.Sending pipes cs' messages opened ∨
      b = true ∧ ∃ p, r' = { r with lb := r'.lb, replyPipe := some p } ∧
        r'.toDealer.Carrying pipes cs' messages (opened ++ [m]) p := by
  obtain ⟨⟨st, d, cs₁⟩, hsend, hcall⟩ := bind_ok hcall
  obtain ⟨hsame, ⟨rfl, hmore, hmore', hs⟩ | ⟨p, rfl, hmore, hs, hp⟩⟩ :=
    h.sendpipe hmsg hready hsend
  · cases hcall
    exact .inl ⟨rfl, hmore, by rw [hsame], hmore', hs⟩
  · cases hcall
    rw [hm] at hs
    exact .inr ⟨rfl, p, by rw [hsame], ⟨hs, hmore.trans hm, (hp hm).1, (hp hm).2⟩⟩

section
variable (h : r.toDealer.Sending pipes cs messages []) (hmore : r.lb.more = false)
include h hmore

/-- The envelope goes to one pipe as a whole, or nothing of it is sent. -/
theorem sendEnvelope_spec (hcall : r.sendEnvelope cs = .ok (b, r', cs')) :
    b = false ∧ r' = { r with lb := r'.lb, replyPipe := none, requestId := r'.requestId } ∧
        r'.lb.more = false ∧ r'.toDealer.Sending pipes cs' messages [] ∨
      b = true ∧ ∃ p, r' = { r with lb := r'.lb, replyPipe := some p, requestId := r'.requestId } ∧
        r'.toDealer.Carrying pipes cs' messages (envelope (number r')) p := by
  have hfirst : r.toDealer.Ready cs := fun hyes => by
    rw [hmore] at hyes
    cases hyes
  obtain ⟨⟨sent, r₁, cs₁⟩, hid, hcall⟩ := bind_ok hcall
  unfold sendRequestId at hid
  by_cases hon : r.requestIdFramesEnabled = true
  · rw [if_pos hon] at hid
    rcases sendFrame_spec (r := { r with replyPipe := none, requestId := r.requestId + 1 }) h
      (hasMore_idFrame _) (ordinary_idFrame _) hfirst hid with
      ⟨rfl, -, hsame, hmore', hs⟩ | ⟨rfl, p, hsame, hs⟩
    · cases hcall
      exact .inl ⟨rfl, by rw [hsame], hmore', hs⟩
    rcases sendFrame_spec hs.toSending hasMore_bottom ⟨rfl, rfl⟩ hs.ready hcall with
      ⟨-, hno, -⟩ | ⟨rfl, p', hsame', hs'⟩
    · -- the pipe of the first frame takes the second one
      rw [hs.more] at hno
      cases hno
    refine .inr ⟨rfl, p', by rw [hsame', hsame], ?_⟩
    have hnumber : number r' = some (r.requestId + 1) := by
      rw [hsame', hsame]
      exact if_pos hon
    rw [hnumber]
    exact hs'
  · rw [if_neg hon] at hid
    cases hid
    rcases sendFrame_spec (r := { r with replyPipe := none }) h hasMore_bottom ⟨rfl, rfl⟩ hfirst
      hcall with
      ⟨rfl, -, hsame, hmore', hs⟩ | ⟨rfl, p, hsame, hs⟩
    · exact .inl ⟨rfl, by rw [hsame], hmore', hs⟩
    refine .inr ⟨rfl, p, by rw [hsame], ?_⟩
    have hnumber : number r' = none := by
      rw [hsame]
      exact if_neg hon
    rw [hnumber]
    exact hs

/-- When old messages have been dropped, the pipe of the request still takes the rest of it. -/
theorem openRequest_spec (hcalm : cs.Calm pipes) (hcall : r.openRequest cs = .ok (b, r', cs')) :
    b = false ∧ r' = { r with lb := r'.lb, replyPipe := none, requestId := r'.requestId } ∧
        r'.lb.more = false ∧ r'.toDealer.Sending pipes cs' messages [] ∨
      b = true ∧ ∃ p, r' = { r with
          fq := r'.fq, lb := r'.lb, replyPipe := some p, requestId := r'.requestId
          messageBegins := false } ∧
        r'.toDealer.Carrying pipes cs' messages (envelope (number r')) p := by
  obtain ⟨⟨sent, r₁, cs₁⟩, henv, hcall⟩ := bind_ok hcall
  have hcalm₁ := hcalm.kept (sendEnvelope_keeps h.wired henv).2.1 h.wired.agreed.healthy
  rcases sendEnvelope_spec h hmore henv with ⟨rfl, hsame, hmore', hs⟩ | ⟨rfl, p, hsame, hs⟩
  · cases hcall
    exact .inl ⟨rfl, hsame, hmore', hs⟩
  have hsome : ¬ r₁.replyPipe.isNone = true := by
    rw [hsame]
    simp
  simp only [if_neg hsome] at hcall
  obtain ⟨⟨r₂, cs₂⟩, hdrop, ⟨⟩⟩ := bind_ok hcall
  have hp := (hs.wired.balanced p).mp hs.current.1.1
  obtain ⟨⟨-, hl⟩, hsame'⟩ := dropInput_listens (r := { r₁ with messageBegins := false })
    hs.wired.agreed hdrop
  refine .inr ⟨rfl, p, by rw [hsame', hsame], ?_⟩
  rw [hsame']
  exact ⟨⟨hs.wired.searched hl, hs.atomic.quiet hl.quiet, hs.dropping⟩, hs.more, hs.current,
    (hl.stays p ⟨hs.writable, hcalm₁ p hp hs.writable.1⟩).1⟩

end

/-- A part of a request follows the ones before it. -/
theorem sendPart_spec (h : r.toDealer.Carrying pipes cs messages opened p) (hmsg : m.Ordinary)
    (hcall : r.sendPart cs m = .ok (res, r', cs')) :
    res = .accepted ∧ r'.lb.more = m.hasMore ∧ r' = { r with
        lb := r'.lb
        receivingReply := if m.hasMore then r.receivingReply else true
        messageBegins := if m.hasMore then r.messageBegins else true } ∧
      r'.toDealer.Sending pipes cs' (if m.hasMore then messages else messages ++ [opened ++ [m]])
        (if m.hasMore then opened ++ [m] else []) := by
  obtain ⟨⟨res', d, cs₁⟩, hsend, hcall⟩ := bind_ok hcall
  obtain ⟨⟨st, d', cs₂⟩, hpipe, ⟨⟩⟩ := bind_ok hsend
  obtain ⟨hsame, ⟨-, hno, -⟩ | ⟨q, rfl, hmore, hs, -⟩⟩ := h.sendpipe hmsg h.ready hpipe
  · rw [h.more] at hno
    cases hno
  cases hm : m.hasMore with
  | true =>
    simp only [hm] at hcall
    cases hcall
    rw [hm] at hmore hs
    exact ⟨rfl, hmore, by rw [hsame, if_pos rfl, if_pos rfl], hs⟩
  | false =>
    simp only [hm] at hcall
    cases hcall
    rw [hm] at hmore hs
    exact ⟨rfl, hmore, by rw [hsame, if_neg Bool.false_ne_true, if_neg Bool.false_ne_true], hs⟩

end Req

/-! ## Runs -/

namespace ReqNet

open Req (Request envelope)

/-- The pipe of a request stays with it. When a request begins, no pipe that can be written is
closed by its peer. When another part is sent, the pipe of the request is still attached and takes
it. If it stands at the end of the active ones, no other active pipe is removed but the one at the
beginning. -/
def Steady (n : ReqNet) : Act → Prop
  | .send _ _ =>
      (n.req.messageBegins = true ∨ n.req.receivingReply = true → n.channels.Calm n.pipes) ∧
      (n.req.messageBegins = false → n.req.receivingReply = false → n.req.lb.dropping = false ∧
        ∀ p ∈ n.pipes, n.req.lb.pipes.items.get? n.req.lb.pipes.current = some p →
          (n.channels p).Writable)
  | .pipe p a => LbNet.Undisturbed ⟨n.req.lb, n.channels, [], []⟩ (.pipe p a)
  | _ => True

/-- Requests have an envelope. -/
structure Enveloped (n : ReqNet) : Prop where
  /-- Every request of the user has gone to one pipe as a whole, behind its envelope, and was
  flushed there. Nothing else was sent. -/
  routed : LbNet.Routed n.channels (n.requests.map Request.frames)
  /-- What a peer reads are these messages. -/
  whole : ∀ p, Whole (n.channels p).pair .first ((n.channels p).log .first)
  /-- The first part of a request is sent with a new envelope, as soon as the socket takes it. -/
  first : n.request.parts = [] → n.req.receivingReply = true ∨ n.req.messageBegins = true
  /-- So is the next part after one that was not taken. -/
  restart : n.failed = true → n.request.parts = [] ∧ n.req.receivingReply = false ∧
    n.req.messageBegins = true

variable {n n' : ReqNet} {m : Msg}

/-- The frames that were sent for the current request. -/
def opened (n : ReqNet) : List Msg := if n.request.parts = [] then [] else n.request.frames

structure Sound (n : ReqNet) : Prop where
  wired : n.req.Wired n.pipes n.channels
  noProbe : n.req.probeRouter = false
  atomic : LbNet.Atomic ⟨n.req.lb, n.channels, n.requests.map Request.frames, n.opened⟩
  between : n.request.parts = [] → n.req.lb.more = false ∧ n.req.lb.dropping = false ∧
    (n.req.receivingReply = false → n.req.messageBegins = true)
  midway : n.request.parts ≠ [] → n.req.receivingReply = false ∧ n.req.messageBegins = false ∧
    (n.req.lb.dropping = false → n.req.lb.more = true)
  restart : n.failed = true → n.request.parts = [] ∧ n.req.receivingReply = false

theorem sound_initial (random : UInt32) (immediate : Bool) (hwm₀ hwm₁ : PipeId → Int) :
    (initial random immediate hwm₀ hwm₁).Sound where
  wired := Dealer.wired_new immediate hwm₀ hwm₁
  noProbe := rfl
  atomic := LbNet.atomic_initial hwm₀ hwm₁
  between _ := ⟨rfl, rfl, fun _ => rfl⟩
  midway h := absurd rfl h
  restart := nofun

theorem Sound.enveloped (h : n.Sound) : n.Enveloped where
  routed := h.atomic.routed
  whole p := (h.atomic.intact p).2.whole (h.atomic.intact p).1.sound
  first hnil := by
    cases hr : n.req.receivingReply with
    | true => exact .inl rfl
    | false => exact .inr ((h.between hnil).2.2 hr)
  restart hfailed := by
    obtain ⟨hnil, hr⟩ := h.restart hfailed
    exact ⟨hnil, hr, (h.between hnil).2.2 hr⟩

/-- Nothing was sent, and the load balancer is in the same phase. -/
theorem Sound.update (h : n.Sound) {pipes : Finset PipeId} (hwired : r.Wired pipes cs)
    (hatomic : LbNet.Atomic ⟨r.lb, cs, n.requests.map Request.frames, n.opened⟩)
    (hprobe : r.probeRouter = n.req.probeRouter) (hmore : r.lb.more = n.req.lb.more)
    (hdrop : n.req.lb.more = false → r.lb.dropping = n.req.lb.dropping)
    (hundrop : r.lb.dropping = false → n.req.lb.dropping = false)
    (hreply : n.req.receivingReply = false →
      r.receivingReply = false ∧ r.messageBegins = n.req.messageBegins)
    (hbegins : n.req.receivingReply = true → r.receivingReply = false → r.messageBegins = true) :
    Sound { n with req := r, pipes := pipes, channels := cs } where
  wired := hwired
  noProbe := hprobe.trans h.noProbe
  atomic := hatomic
  between hnil := by
    obtain ⟨hmore₀, hdrop₀, hfsm⟩ := h.between hnil
    refine ⟨hmore.trans hmore₀, (hdrop hmore₀).trans hdrop₀, fun hno => ?_⟩
    cases hr : n.req.receivingReply with
    | true => exact hbegins hr hno
    | false => exact (hreply hr).2.trans (hfsm hr)
  midway hne := by
    obtain ⟨hr, hb, hcase⟩ := h.midway hne
    exact ⟨(hreply hr).1, (hreply hr).2.trans hb, fun hd => hmore.trans (hcase (hundrop hd))⟩
  restart hfailed := by
    obtain ⟨hnil, hr⟩ := h.restart hfailed
    exact ⟨hnil, (hreply hr).1⟩

theorem Sound.answered (h : n.Sound) (seen : Finset PipeId) (answers : List Req.Answer)
    (answer : Req.Answer) (target : Option PipeId) :
    Sound { n with seen := seen, answers := answers, answer := answer, target := target } :=
  { h with }

theorem received_eq (n : ReqNet) (m : Msg) :
    ∃ answers answer, n.received m = { n with answers := answers, answer := answer } := by
  by_cases hm : m.hasMore = true
  · exact ⟨_, _, if_pos hm⟩
  · exact ⟨_, _, if_neg hm⟩

section
variable (h : n.Sound)
include h

theorem Sound.attach (hen : n.Enabled (.attach p))
    (hnext : n.next (.attach p) = .ok n') : n'.Sound := by
  obtain ⟨⟨r, cs⟩, hattach, ⟨⟩⟩ := bind_ok hnext
  obtain ⟨⟨d, cs₁⟩, hd, ⟨⟩⟩ := bind_ok hattach
  obtain ⟨hwired, rfl, hsame, -, -, hm⟩ := h.wired.attach hen.1 hen.2 h.noProbe hd
  obtain ⟨hmore, hdrop, hundrop⟩ := (hm [] []).phase nofun
  have hprobe : d.probeRouter = n.req.probeRouter := by rw [hsame]
  have hatomic := h.atomic.moves (hm (n.requests.map Request.frames) n.opened) trivial trivial
  have hnew := h.update (r := { n.req with toDealer := d }) hwired hatomic hprobe hmore hdrop
    hundrop (fun hr => ⟨hr, rfl⟩)
    fun hyes hno => by rw [hyes] at hno; cases hno
  exact hnew.answered (insert p n.seen) n.answers n.answer n.target

theorem Sound.pipe (hen : n.Enabled (.pipe p a))
    (hsteady : n.Steady (.pipe p a)) (hnext : n.next (.pipe p a) = .ok n') : n'.Sound := by
  obtain ⟨⟨ev, cs⟩, hact, hnext⟩ := bind_ok hnext
  obtain ⟨⟨r, cs'⟩, htell, ⟨⟩⟩ := bind_ok hnext
  obtain ⟨hout, hhic, hdeliver⟩ := hen
  have htells := Channels.act_tells hout hact
  obtain ⟨hd, hsame⟩ := tell_dealer htells.few htell
  obtain ⟨rfl, hwired, hsame', -, hm⟩ := h.wired.event hout hhic hdeliver hact hd
  obtain ⟨hmore, hdrop, hundrop⟩ := (hm [] []).phase nofun
  have hatomic := h.atomic.moves (hm _ _) hout.2.1 hsteady
  refine h.update hwired hatomic ?_ hmore hdrop hundrop (fun hr => ?_) fun hyes hno => ?_
  · rw [hsame']
  · rw [hsame]
    exact ⟨hr, rfl⟩
  · rw [hsame] at hno
    rw [show n.req.receivingReply = false from hno] at hyes
    cases hyes

theorem Sound.recv (hnext : n.next .recv = .ok n') : n'.Sound := by
  obtain ⟨⟨res, r, cs⟩, hrecv, ⟨⟩⟩ := bind_ok hnext
  obtain ⟨hl, hidle, hbegins⟩ := Req.xrecv_listens h.wired.agreed hrecv
  have hwired := h.wired.searched hl.searched
  have hsame := hl.same
  have hlb : r.lb = n.req.lb := by rw [hsame]
  have hnew : Sound { n with req := r, pipes := n.pipes, channels := cs } := by
    refine h.update ?_ (by rw [hlb]; exact h.atomic.quiet hl.searched.quiet) (by rw [hsame])
      (by rw [hlb]) (fun _ => by rw [hlb])
      (fun hd => by rw [← hlb]; exact hd) (fun hr => ?_) hbegins
    · rw [hsame]
      exact hwired
    · rw [hidle hr]
      exact ⟨hr, rfl⟩
  cases res with
  | error => exact hnew
  | ok m =>
    obtain ⟨answers, answer, hanswer⟩ := received_eq n m
    simp only [hanswer]
    exact hnew.answered n.seen answers answer n.target

theorem Sound.hasIn (hnext : n.next .hasIn = .ok n') : n'.Sound := by
  obtain ⟨⟨b, r, cs⟩, hin, ⟨⟩⟩ := bind_ok hnext
  unfold Req.xhasIn at hin
  split at hin
  · cases hin
    exact h
  obtain ⟨⟨b', d, cs'⟩, hd, ⟨⟩⟩ := bind_ok hin
  obtain ⟨hsame, hwired, hquiet⟩ := h.wired.hasIn hd
  have hlb : d.lb = n.req.lb := by rw [hsame]
  exact h.update hwired (by rw [hlb]; exact h.atomic.quiet hquiet) (by rw [hsame]) (by rw [hlb])
    (fun _ => by rw [hlb]) (fun hd => by rw [← hlb]; exact hd) (fun hr => ⟨hr, rfl⟩)
    fun hyes hno => by rw [show n.req.receivingReply = false from hno] at hyes; cases hyes

theorem Sound.hasOut (hnext : n.next .hasOut = .ok n') : n'.Sound := by
  obtain ⟨⟨b, r, cs⟩, hout, ⟨⟩⟩ := bind_ok hnext
  unfold Req.xhasOut at hout
  split at hout
  · cases hout
    exact h
  obtain ⟨⟨b', d, cs'⟩, hd, ⟨⟩⟩ := bind_ok hout
  obtain ⟨hsame, hwired, -, hm⟩ := h.wired.hasOut hd
  obtain ⟨hmore, hdrop, hundrop⟩ := (hm [] []).phase nofun
  exact h.update hwired (h.atomic.moves (hm _ _) trivial trivial) (by rw [hsame]) hmore hdrop
    hundrop (fun hr => ⟨hr, rfl⟩)
    fun hyes hno => by rw [show n.req.receivingReply = false from hno] at hyes; cases hyes

theorem Sound.setOption (hen : n.Enabled (.setOption o value))
    (hnext : n.next (.setOption o value) = .ok n') : n'.Sound := by
  cases hnext
  obtain ⟨correlate, strict, heq⟩ := Req.setOption_eq value hen n.req
  rw [heq]
  exact { h with }

/-- Another part has gone to the pipe of the request, or to that of a new one. -/
theorem Sound.sent {frames : List Msg}
    (hs : r.toDealer.Sending n.pipes cs (if m.hasMore then n.requests.map Request.frames
        else n.requests.map Request.frames ++ [frames ++ [m]])
      (if m.hasMore then frames ++ [m] else []))
    (hframes : frames = if n.request.parts = [] then envelope (number r) else n.request.frames)
    (hmore : r.lb.more = m.hasMore) (hprobe : r.probeRouter = n.req.probeRouter)
    (hreply : r.receivingReply = !m.hasMore) (hbegins : r.messageBegins = !m.hasMore) :
    Sound { n.sent m r with
      req := r, channels := cs, failed := false, answer := ⟨none, none, []⟩ } := by
  -- the request with the new part
  obtain ⟨request, hrequest, hne, hall⟩ : ∃ request : Request,
      (if n.request.parts.isEmpty then ⟨number r, [m]⟩
        else { n.request with parts := n.request.parts ++ [m] }) = request ∧
      request.parts ≠ [] ∧ request.frames = frames ++ [m] := by
    refine ⟨_, rfl, ?_⟩
    by_cases hnil : n.request.parts = []
    · simp [hnil, hframes, Request.frames, envelope]
    · simp [hnil, hframes, Request.frames]
  cases hm : m.hasMore with
  | true =>
    rw [hm] at hs hmore hreply hbegins
    simp only [ReqNet.sent, hrequest, hm, if_true]
    refine ⟨hs.wired, hprobe.trans h.noProbe, ?_, fun hnil => absurd hnil hne,
      fun _ => ⟨hreply, hbegins, fun _ => hmore⟩, nofun⟩
    simp only [opened, if_neg hne, hall]
    exact hs.atomic
  | false =>
    rw [hm] at hs hmore hreply hbegins
    simp only [ReqNet.sent, hrequest, hm, Bool.false_eq_true, if_false]
    refine ⟨hs.wired, hprobe.trans h.noProbe, ?_,
      fun _ => ⟨hmore, hs.dropping, fun _ => hbegins⟩, absurd rfl, nofun⟩
    simp only [map_append, map_cons, hall]
    exact hs.atomic

/-- In the middle of a request its pipe takes the next part. -/
theorem Sound.carrying (hsteady : n.Steady (.send m blocking))
    (hbegins : n.req.messageBegins = false) (hreply : n.req.receivingReply = false) :
    n.request.parts ≠ [] ∧ ∃ p, n.req.toDealer.Carrying n.pipes n.channels
      (n.requests.map Request.frames) n.request.frames p := by
  have hne : n.request.parts ≠ [] := by
    intro hnil
    have := (h.between hnil).2.2 hreply
    rw [hbegins] at this
    cases this
  obtain ⟨hdrop, hwritable⟩ := hsteady.2 hbegins hreply
  have hmore := (h.midway hne).2.2 hdrop
  obtain ⟨p, hp⟩ := h.wired.current hdrop hmore
  have hatomic := h.atomic
  rw [opened, if_neg hne] at hatomic
  exact ⟨hne, p, ⟨h.wired, hatomic, hdrop⟩, hmore, hp,
    hwritable p ((h.wired.balanced p).mp hp.1.1) hp.get?⟩

section
variable (hfirst : n.req.messageBegins = true ∨ n.req.receivingReply = true)
include hfirst

/-- Between two requests nothing has been sent of the next one. -/
theorem Sound.sending :
    n.request.parts = [] ∧ n.req.lb.more = false ∧
      n.req.toDealer.Sending n.pipes n.channels (n.requests.map Request.frames) [] := by
  have hnil : n.request.parts = [] := by
    by_contra hne
    obtain ⟨hr, hb, -⟩ := h.midway hne
    simp [hr, hb] at hfirst
  obtain ⟨hmore, hdrop, -⟩ := h.between hnil
  have hatomic := h.atomic
  rw [opened, if_pos hnil] at hatomic
  exact ⟨hnil, hmore, h.wired, hatomic, hdrop⟩

/-- A request begins, or there is no pipe for it. -/
theorem Sound.begin
    (hcalm : n.channels.Calm n.pipes) (hmsg : m.Ordinary)
    (hr₀ : r₀ = { n.req with receivingReply := false, messageBegins := true })
    {r₁ : Req} {cs₁ : Channels} (hopen : r₀.openRequest n.channels = .ok (b, r₁, cs₁))
    (hrest : (if b then r₁.sendPart cs₁ m else .ok (.refused .eagain m, r₁, cs₁)) =
      .ok (res, r, cs)) :
    res = .refused .eagain m ∧ Sound { n with
        req := r, channels := cs, failed := true, answer := ⟨none, none, []⟩ } ∨
      res = .accepted ∧ Sound { n.sent m r with
        req := r, channels := cs, failed := false, answer := ⟨none, none, []⟩ } := by
  obtain ⟨hnil, hmore, hs⟩ := h.sending hfirst
  have hs₀ : r₀.toDealer.Sending n.pipes n.channels (n.requests.map Request.frames) [] := by
    rw [hr₀]
    exact hs
  rcases Req.openRequest_spec hs₀ (by rw [hr₀]; exact hmore) hcalm hopen with
    ⟨rfl, hsame, hmore', hs'⟩ | ⟨rfl, p, hsame, hs'⟩
  · cases hrest
    refine .inl ⟨rfl, hs'.wired, by rw [hsame, hr₀]; exact h.noProbe, ?_,
      fun _ => ⟨hmore', hs'.dropping, fun _ => by rw [hsame, hr₀]⟩, absurd hnil,
      fun _ => ⟨hnil, by rw [hsame, hr₀]⟩⟩
    have hatomic := hs'.atomic
    simp only [opened, if_pos hnil]
    exact hatomic
  obtain ⟨rfl, hlast, hsame', hs''⟩ := Req.sendPart_spec hs' hmsg hrest
  refine .inr ⟨rfl, h.sent hs'' ?_ hlast ?_ ?_ ?_⟩
  · have hnumber : number r = number r₁ := by
      rw [hsame']
      rfl
    rw [if_pos hnil, hnumber]
  · rw [hsame', hsame, hr₀]
  · rw [hsame', hsame, hr₀]
    cases m.hasMore <;> rfl
  · rw [hsame', hsame]
    cases m.hasMore <;> rfl

end

theorem Sound.send (hen : n.Enabled (.send m blocking)) (hsteady : n.Steady (.send m blocking))
    (hnext : n.next (.send m blocking) = .ok n') : n'.Sound := by
  obtain ⟨⟨res, r, cs⟩, hsend, heq⟩ := bind_ok hnext
  -- what becomes of the part
  have hcase : (res = .refused .efsm m ∧ r = n.req ∧ cs = n.channels) ∨
      (res = .refused .eagain m ∧ Sound { n with
        req := r, channels := cs, failed := true, answer := ⟨none, none, []⟩ }) ∨
      (res = .accepted ∧ Sound { n.sent m r with
        req := r, channels := cs, failed := false, answer := ⟨none, none, []⟩ }) := by
    unfold Req.xsend at hsend
    split at hsend
    · cases hsend
      exact .inl ⟨rfl, rfl, rfl⟩
    refine .inr ?_
    by_cases hfirst : n.req.messageBegins = true ∨ n.req.receivingReply = true
    · have hr₀ : (if n.req.receivingReply = true then
          { n.req with receivingReply := false, messageBegins := true } else n.req) =
          { n.req with receivingReply := false, messageBegins := true } := by
        split
        · rfl
        rename_i hno
        have hno : n.req.receivingReply = false := by simpa using hno
        have hyes := hfirst.resolve_right (by simp [hno])
        rw [← hno, ← hyes]
      simp only [hr₀] at hsend
      obtain ⟨⟨b, r₁, cs₁⟩, hopen, hrest⟩ := bind_ok hsend
      refine h.begin hfirst (hsteady.1 hfirst) hen rfl hopen ?_
      cases b
      · exact hrest
      · exact hrest
    · have hbegins : n.req.messageBegins = false := by
        by_contra hne
        exact hfirst (.inl (by simpa using hne))
      have hreply : n.req.receivingReply = false := by
        by_contra hne
        exact hfirst (.inr (by simpa using hne))
      simp only [hreply, hbegins, Bool.false_eq_true, if_false] at hsend
      obtain ⟨hne, p, hcarrying⟩ := h.carrying hsteady hbegins hreply
      obtain ⟨rfl, hlast, hsame, hs⟩ := Req.sendPart_spec hcarrying hen hsend
      refine .inr ⟨rfl, h.sent hs (by rw [if_neg hne]) hlast ?_ ?_ ?_⟩
      · rw [hsame]
      · rw [hsame, hreply]
        cases m.hasMore <;> rfl
      · rw [hsame, hbegins]
        cases m.hasMore <;> rfl
  cases heq
  rcases hcase with ⟨rfl, rfl, rfl⟩ | ⟨rfl, hsound⟩ | ⟨rfl, hsound⟩
  · exact { h with restart := nofun }
  · exact hsound.answered n.seen n.answers ⟨none, none, []⟩ (r.replyPipe.or n.target)
  · exact hsound.answered (n.sent m r).seen (n.sent m r).answers ⟨none, none, []⟩
      (r.replyPipe.or (n.sent m r).target)

theorem Sound.step (hstep : n.Step a n') (hsteady : n.Steady a) : n'.Sound := by
  obtain ⟨hen, hnext⟩ := hstep
  cases a with
  | attach => exact h.attach hen hnext
  | pipe => exact h.pipe hen hsteady hnext
  | send => exact h.send hen hsteady hnext
  | recv => exact h.recv hnext
  | hasIn => exact h.hasIn hnext
  | hasOut => exact h.hasOut hnext
  | setOption => exact h.setOption hen hnext

end

/-- **Requests have an envelope**, and a request that fails leaves nothing behind, in runs in which
the pipe of a request stays with it. -/
theorem requests_enveloped {random : UInt32} {immediate : Bool} {hwm₀ hwm₁ : PipeId → Int}
    {tr : List Act} (h : Exec (Guarded Step Steady) (initial random immediate hwm₀ hwm₁) tr n) :
    n.Enveloped :=
  (h.invariant Sound (fun _ _ _ hb ⟨hstep, hsteady⟩ => hb.step hstep hsteady)
    (sound_initial random immediate hwm₀ hwm₁)).enveloped

/-! ## Concrete runs -/

instance (n : ReqNet) (a : Act) : Decidable (n.Steady a) := by
  rcases a <;> dsimp only [Steady] <;> infer_instance

/-- There is no pipe for the first request. The peer of pipe `1` goes away while a request is sent
to pipe `0`, and the next request goes to pipe `0` as well. -/
theorem requests_enveloped_two_requests :
    ∃ tr n, Exec (Guarded Step Steady) (initial 5 false (fun _ => 9) fun _ => 9) tr n ∧
      n.requests = [⟨some 6, [part, single 1]⟩, ⟨some 7, [single 4]⟩] ∧
      (n.channels 0).sent = n.requests.map Request.frames ∧ n.Enveloped := by
  refine exists_exec_with guarded_of_attempt
    (fun n => n.requests = [⟨some 6, [part, single 1]⟩, ⟨some 7, [single 4]⟩] ∧
      (n.channels 0).sent = n.requests.map Request.frames)
    [.send (single 9) false, .attach 0, .attach 1, .setOption .correlate 1, .send part false,
      .pipe 1 (.terminate .second true), .pipe 1 (.deliver .first), .send (single 1) true,
      .pipe 0 (.write .second (Req.idFrame 6)), .pipe 0 (.write .second Req.bottom),
      .pipe 0 (.write .second (single 3)), .pipe 0 (.flush .second), .pipe 0 (.deliver .first),
      .hasIn, .recv, .send (single 4) true] (by decide +kernel) ?_
  rintro _ _ hexec ⟨hrequests, hsent⟩
  exact ⟨hrequests, hsent, requests_enveloped hexec⟩

/-- The peer of pipe `0` closes it in the middle of a request. The last part is refused, and the
socket still waits for it: the next request goes to pipe `1` without an envelope.

The same happens to a request of one part if the peer has closed the pipe before: the socket comes
upon the end when it drops old messages, after the envelope is written. -/
theorem envelope_missing :
    (∃ tr n, Exec Step (initial 5 false (fun _ => 9) fun _ => 9) tr n ∧ n.failed = true ∧
      n.req.receivingReply = false ∧ n.req.messageBegins = false) ∧
    ∃ tr n, Exec Step (initial 5 false (fun _ => 9) fun _ => 9) tr n ∧
      (n.channels 1).sent = [[single 2]] ∧ ¬ n.Enveloped := by
  refine ⟨exists_exec_of_replay step_of_attempt
    [.attach 0, .attach 1, .pipe 0 (.terminate .second true), .send (single 1) false]
    (by decide +kernel), ?_⟩
  refine exists_exec_with step_of_attempt (fun n => (n.channels 1).sent = [[single 2]])
    [.attach 0, .attach 1, .send part false, .pipe 0 (.terminate .second true),
      .pipe 0 (.deliver .first), .send (single 1) false, .send (single 2) false]
    (by decide +kernel) ?_
  intro _ n _ hsent
  refine ⟨hsent, fun henv => ?_⟩
  obtain ⟨routes, hmap, hroutes⟩ := henv.routed
  -- a request has two frames at least
  have hmem : [single 2] ∈ n.requests.map Request.frames := by
    rw [← hmap]
    have hrouted : [single 2] ∈ LbNet.routedTo 1 routes := by
      rw [← (hroutes 1).1, hsent]
      exact .head _
    obtain ⟨route, hroute, he⟩ := mem_map.mp hrouted
    exact he ▸ mem_map_of_mem (mem_filter.mp hroute).1
  obtain ⟨request, -, hframes⟩ := mem_map.mp hmem
  obtain ⟨id, parts⟩ := request
  cases id with
  | none =>
    have hhead : Req.bottom = single 2 := Option.some.inj (congrArg head? hframes)
    revert hhead
    decide
  | some =>
    have hlength := congrArg length hframes
    simp [Request.frames] at hlength

end ReqNet
end LibZmq
