import LibZmq.Socket.Base
import LibZmq.Socket.Xpub

/-!
# The manual mode of a publisher

In manual mode `xread_activated` reports a request to the user, who makes the change with
`ZMQ_SUBSCRIBE` or `ZMQ_UNSUBSCRIBE` for the pipe `_last_pipe`. The reports are in one queue
(`_pending_data`) and the pipes they come from in another (`_pending_pipes`). A message of the user
of a peer is put into the first queue only.

* `manual_attribution`: the two queues stay in step, and the user changes the subscriptions of the
  pipe that the last report came from, if a message of a peer is returned only when no request is
  waiting, and no pipe goes away in the wrong moment (`InStep`). Then neither `_last_pipe` nor
  `_pending_pipes` refers to a pipe that is gone, whose address a new pipe may have.
* `manual_misattribution`: after a message of one peer the requests of two others are mixed up.
-/

namespace LibZmq

open LibZmq.Core PipePair List Finset

/-- Where a report for the user comes from. -/
inductive Origin where
  /-- A subscription or a cancellation of pipe `p`. -/
  | request (p : PipeId)
  /-- A message that the peer of pipe `p` has sent. -/
  | user (p : PipeId)
  /-- A cancellation that was made when pipe `p` went away. -/
  | cancelled (p : PipeId)
deriving DecidableEq, Repr

namespace Origin

def pipe : Origin → PipeId
  | request p | user p | cancelled p => p

/-- What is in `_pending_pipes` for a report. -/
def entry : Origin → List (Option PipeId)
  | request p => [some p]
  | user _ => []
  | cancelled _ => [none]

end Origin

open Origin (entry)

namespace Xpub

/-- What the loop of `xread_activated` remembers of a part. -/
def noted (x : Xpub) (m : Msg) : Xpub :=
  { x with
    moreRecv := m.hasMore
    processSubscribe :=
      if !x.moreRecv then !x.onlyFirstSubscribe || ((x.request? m).toOption.join).isSome
      else x.processSubscribe }

/-- The parts `parts` have been read from pipe `p`: which of them are requests. -/
def origins (x : Xpub) (p : PipeId) : List Msg → List Origin
  | [] => []
  | m :: parts =>
      (if ((x.request? m).toOption.join).isSome then .request p else .user p) ::
        origins (x.noted m) p parts

/-- The peer of pipe `p` has requests that were not taken back. -/
def hasRequests (x : Xpub) (p : PipeId) : Bool :=
  match Mtrie.rmAll p false x.manualSubscriptions with
  | .ok (_, keys) => !keys.isEmpty
  | .error _ => false

/-! ## Reports -/

variable {x x' : Xpub} {cs cs' : Channels} {p : PipeId} {m : Msg} {parts : List Msg}
  {requests : List Request}

/-- The reports `l` have been added to the queues. -/
structure Adds (x x' : Xpub) (l : List Origin) : Prop where
  pending : x'.pending.length = x.pending.length + l.length
  pendingPipes : x'.pendingPipes = x.pendingPipes ++ l.flatMap Origin.entry
  lastPipe : x'.lastPipe = x.lastPipe
  subscriptions : x'.subscriptions = x.subscriptions
  manual : x'.manual = x.manual
  isPub : x'.isPub = x.isPub

theorem Adds.refl (x : Xpub) : Adds x x [] :=
  ⟨rfl, (append_nil _).symm, rfl, rfl, rfl, rfl⟩

theorem Adds.trans (h : Adds x x₁ l) (h' : Adds x₁ x' l') : Adds x x' (l ++ l') where
  pending := by rw [h'.pending, h.pending, length_append, Nat.add_assoc]
  pendingPipes := by rw [h'.pendingPipes, h.pendingPipes, flatMap_append, append_assoc]
  lastPipe := h'.lastPipe.trans h.lastPipe
  subscriptions := h'.subscriptions.trans h.subscriptions
  manual := h'.manual.trans h.manual
  isPub := h'.isPub.trans h.isPub

/-- The flags that decide what a part means. -/
structure SameFlags (x x' : Xpub) : Prop where
  moreRecv : x'.moreRecv = x.moreRecv
  processSubscribe : x'.processSubscribe = x.processSubscribe
  onlyFirstSubscribe : x'.onlyFirstSubscribe = x.onlyFirstSubscribe

theorem SameFlags.request? (h : SameFlags x x') (m : Msg) : x'.request? m = x.request? m := by
  rw [Xpub.request?, Xpub.request?, h.moreRecv, h.processSubscribe]

theorem SameFlags.noted (h : SameFlags x x') (m : Msg) : SameFlags (x.noted m) (x'.noted m) := by
  refine ⟨rfl, ?_, h.onlyFirstSubscribe⟩
  simp [Xpub.noted, h.request? m, h.moreRecv, h.onlyFirstSubscribe, h.processSubscribe]

theorem SameFlags.origins (h : SameFlags x x') (p : PipeId) (parts : List Msg) :
    x'.origins p parts = x.origins p parts := by
  induction parts generalizing x x' with
  | nil => rfl
  | cons m _ ih => rw [origins, origins, h.request? m, ih (h.noted m)]

theorem holdRequest_adds (h : x.holdRequest p r = .ok x') :
    Adds x x' [.request p] ∧ SameFlags x x' := by
  unfold holdRequest at h
  split at h <;>
  · obtain ⟨⟨t, _⟩, -, ⟨⟩⟩ := bind_ok h
    exact ⟨⟨by simp, by simp [entry], rfl, rfl, rfl, rfl⟩, rfl, rfl, rfl⟩

theorem processPart_adds (hmanual : x.manual = true) (h : x.processPart p m = .ok (x', request)) :
    Adds x x' (x.origins p [m]) ∧ SameFlags (x.noted m) x' := by
  obtain ⟨request', hreq, h⟩ := bind_ok h
  cases request' with
  | none =>
    cases h
    refine ⟨⟨by simp [origins], by simp [origins, hreq, Except.toOption, entry], rfl, rfl, rfl,
      rfl⟩, rfl, ?_, rfl⟩
    simp [noted, hreq, Except.toOption]
  | some =>
    simp only [hmanual] at h
    obtain ⟨x₁, hhold, ⟨⟩⟩ := bind_ok h
    obtain ⟨hadds, hflags⟩ := holdRequest_adds hhold
    have horigins : x.origins p [m] = [.request p] := by simp [origins, hreq, Except.toOption]
    rw [horigins]
    refine ⟨{ hadds with manual := hadds.manual.trans hmanual.symm }, hflags.moreRecv, ?_,
      hflags.onlyFirstSubscribe⟩
    rw [hflags.processSubscribe]
    simp [noted, hreq, Except.toOption]

/-- The loop of `xread_activated`: every part that is read makes a report. -/
theorem readLoop_adds (hmanual : x.manual = true)
    (h : readLoop n x cs p = .ok (x', cs', requests)) :
    ∃ parts, (cs' p).got = (cs p).got ++ parts ∧ Adds x x' (x.origins p parts) := by
  induction n generalizing x cs requests with
  | zero =>
    cases h
    exact ⟨[], (append_nil _).symm, .refl _⟩
  | succ n ih =>
    rcases readLoop_succ h with
      ⟨hread, rfl, rfl⟩ | ⟨m, cs₁, x₁, request, rest, hread, hpart, hrest, rfl⟩
    · exact ⟨[], Channels.got_read hread, .refl _⟩
    obtain ⟨hadds, hflags⟩ := processPart_adds hmanual hpart
    obtain ⟨parts, hgot, hadds'⟩ := ih (hadds.manual.trans hmanual) hrest
    refine ⟨m :: parts, ?_, ?_⟩
    · rw [hgot, Channels.got_read hread]
      simp
    · rw [hflags.origins] at hadds'
      exact hadds.trans hadds'

theorem got_sendWelcome (halive : ¬ (cs p).gone) (h : x.sendWelcome cs p = .ok cs') :
    (cs' p).got = (cs p).got := by
  unfold sendWelcome at h
  split at h
  · obtain ⟨⟨b, cs₁⟩, hwrite, h⟩ := bind_ok h
    have hc := Channels.write_called halive rfl hwrite
    have halive₁ : ¬ (cs₁ p).gone := fun hg => halive ((hc.gone_iff fun _ => by simp [news]).mp hg)
    simp only at h
    split at h
    · have hc' := Channels.flush_called halive₁ h
      rw [hc'.got_of_ne (by simp) (by simp), hc.got_of_ne (by simp) (by simp)]
    · cases h
  · cases h
    rfl

variable {subs : Finset (Bytes × PipeId)}

theorem xattachPipe_adds {all : Bool} (hmanual : x.manual = true)
    (hrep : x.subscriptions.Represents subs) (halive : ¬ (cs p).gone)
    (h : x.xattachPipe cs p all = .ok (x', cs', requests)) :
    ∃ parts, (cs' p).got = (cs p).got ++ parts ∧
      Adds { x with subscriptions := x'.subscriptions } x' (x.origins p parts) ∧
      x'.subscriptions.Represents (if all then insert ([], p) subs else subs) := by
  obtain ⟨d, -, h⟩ := bind_ok h
  obtain ⟨x₁, hx₁, h⟩ := bind_ok h
  obtain ⟨cs₁, hwelcome, h⟩ := bind_ok h
  obtain ⟨t, ht, rfl⟩ : ∃ t : Mtrie PipeId,
      t.Represents (if all then insert ([], p) subs else subs) ∧
        x₁ = { x with dist := d, subscriptions := t } := by
    cases all with
    | true =>
      obtain ⟨⟨t, _⟩, hadd, ⟨⟩⟩ := bind_ok hx₁
      obtain ⟨t', hadd', ht'⟩ := hrep.add [] p
      rw [liftTrie_ok hadd'] at hadd
      cases hadd
      exact ⟨_, ht', rfl⟩
    | false =>
      cases hx₁
      exact ⟨_, hrep, rfl⟩
  obtain ⟨parts, hgot, hadds⟩ := readLoop_adds (x := { x with dist := d, subscriptions := t })
    hmanual h
  have hflags : SameFlags x { x with dist := d, subscriptions := t } := ⟨rfl, rfl, rfl⟩
  rw [hflags.origins] at hadds
  refine ⟨parts, by rw [hgot, got_sendWelcome halive hwelcome],
    { hadds with subscriptions := rfl }, ?_⟩
  rw [hadds.subscriptions]
  exact ht

/-- In manual mode every cancellation has an entry in both queues. -/
theorem sendUnsubscription_manual (hmanual : x.manual = true) (hpub : x.isPub = false)
    (keys : List Bytes) :
    x.sendUnsubscription keys = { x with
        pending := x.pending ++ keys.map fun k => ⟨0 :: k, 0⟩
        pendingPipes := x.pendingPipes ++ replicate keys.length none
        lastPipe := if keys.length = 0 then x.lastPipe else none } := by
  cases keys with
  | nil => simp [sendUnsubscription]
  | cons => simp [sendUnsubscription, hpub, hmanual, replicate_succ]

theorem flatMap_entry_cancelled (p : PipeId) (k : Nat) :
    (replicate k (.cancelled p)).flatMap entry = replicate k none := by
  induction k with
  | zero => rfl
  | succ k ih => rw [replicate_succ, flatMap_cons, ih]; rfl

/-- A pipe goes away: a cancellation is reported for every request that it has not taken back. -/
theorem xpipeTerminated_adds (hmanual : x.manual = true) (hpub : x.isPub = false)
    (hrep : x.subscriptions.Represents subs) (h : x.xpipeTerminated p = .ok x') :
    ∃ k, (k ≠ 0 ↔ x.hasRequests p = true) ∧
      Adds { x with subscriptions := x'.subscriptions, lastPipe := x'.lastPipe } x'
        (replicate k (.cancelled p)) ∧
      x'.lastPipe = (if k = 0 then x.lastPipe else none) ∧
      x'.subscriptions.Represents (subs.filter fun e => e.2 ≠ p) := by
  obtain ⟨x₁, hdrop, h⟩ := bind_ok h
  obtain ⟨d, -, ⟨⟩⟩ := bind_ok h
  rw [dropSubscriptions, if_pos hmanual] at hdrop
  obtain ⟨⟨t, keys⟩, hkeys, hdrop⟩ := bind_ok hdrop
  have hhas : x.hasRequests p = !keys.isEmpty := by
    cases hrm : Mtrie.rmAll p false x.manualSubscriptions with
    | error =>
      rw [hrm] at hkeys
      cases hkeys
    | ok =>
      rw [hrm] at hkeys
      cases hkeys
      simp [hasRequests, hrm]
  simp only [sendUnsubscription_manual (x := { x with manualSubscriptions := t }) hmanual hpub]
    at hdrop
  obtain ⟨⟨t', keys'⟩, ht', ⟨⟩⟩ := bind_ok hdrop
  obtain ⟨t'', keys'', hrm, -, ht''⟩ := hrep.rmAll p false
  rw [liftTrie_ok hrm] at ht'
  cases ht'
  refine ⟨keys.length, ?_, ⟨?_, ?_, rfl, rfl, rfl, rfl⟩, rfl, ht''⟩
  · rw [hhas]
    cases keys <;> simp
  · simp
  · rw [flatMap_entry_cancelled]

theorem applyTo_spec (h : t.Represents subs) (p : PipeId) (r : Request) :
    ∃ t', applyTo t p r = .ok t' ∧ t'.Represents (r.apply p subs) := by
  rw [applyTo, Request.apply]
  cases r.subscribe with
  | true =>
    obtain ⟨t', hadd, ht'⟩ := h.add r.key p
    exact ⟨t', by rw [liftTrie_ok hadd]; rfl, ht'⟩
  | false =>
    obtain ⟨t', hrm, ht'⟩ := h.rm r.key p
    exact ⟨t', by rw [liftTrie_ok hrm]; rfl, ht'⟩

/-- The user changes the subscriptions of the pipe `_last_pipe`. -/
theorem setSubscription_spec (hmanual : x.manual = true) (hrep : x.subscriptions.Represents subs)
    (r : Request) :
    ∃ t : Mtrie PipeId, x.setSubscription r = .ok (some { x with subscriptions := t }) ∧
      t.Represents (x.lastPipe.elim subs fun p => r.apply p subs) := by
  rw [setSubscription, if_pos hmanual]
  split
  · rename_i hnone
    rw [hnone]
    exact ⟨x.subscriptions, by rw [← hnone], hrep⟩
  rename_i p hp
  obtain ⟨t, ht, hrep'⟩ := applyTo_spec hrep p r
  rw [hp]
  exact ⟨t, by rw [ht]; rfl, hrep'⟩

/-- The selection of pipes does not touch the reports. In last-value mode `_last_pipe` is
forgotten. -/
theorem selectPipes_adds (h : x.selectPipes m = .ok x') :
    Adds { x with lastPipe := x'.lastPipe } x' [] ∧
      (x'.lastPipe = none ∨ x'.lastPipe = x.lastPipe) ∧
      (x.sendLastPipe = false → x'.lastPipe = x.lastPipe) := by
  unfold selectPipes at h
  split at h
  · cases h
    exact ⟨.refl _, .inr rfl, fun _ => rfl⟩
  obtain ⟨pipes, -, h⟩ := bind_ok h
  obtain ⟨d, -, h⟩ := bind_ok h
  have hlast : ∀ b, (if b && x.sendLastPipe then none else x.lastPipe) = none ∨
      (if b && x.sendLastPipe then none else x.lastPipe) = x.lastPipe := by
    intro b
    split <;> simp
  have hsame : ∀ b, x.sendLastPipe = false →
      (if b && x.sendLastPipe then none else x.lastPipe) = x.lastPipe := by
    intro b hno
    rw [hno, Bool.and_false, if_neg Bool.false_ne_true]
  by_cases hinv : x.invertMatching = true
  · simp only [if_pos hinv] at h
    obtain ⟨-, -, ⟨⟩⟩ := bind_ok h
    exact ⟨⟨rfl, (append_nil _).symm, rfl, rfl, rfl, rfl⟩, hlast _, hsame _⟩
  · simp only [if_neg hinv] at h
    cases h
    exact ⟨⟨rfl, (append_nil _).symm, rfl, rfl, rfl, rfl⟩, hlast _, hsame _⟩

theorem xsend_adds (h : x.xsend cs m = .ok (ok, x', cs')) :
    Adds { x with lastPipe := x'.lastPipe } x' [] ∧
      (x'.lastPipe = none ∨ x'.lastPipe = x.lastPipe) ∧
      (x.sendLastPipe = false → x'.lastPipe = x.lastPipe) := by
  obtain ⟨x₁, hselect, h⟩ := bind_ok h
  have hadds := selectPipes_adds hselect
  split at h
  · obtain ⟨⟨d, -⟩, -, ⟨⟩⟩ := bind_ok h
    exact ⟨{ hadds.1 with lastPipe := rfl }, hadds.2⟩
  · cases h
    exact hadds

section receiving
variable {data : Pending} {rest : List Pending}

theorem xrecv_manual (hmanual : x.manual = true)
    (hdata : x.pending = data :: rest) (hpipes : x.pendingPipes = q :: pipes) :
    x.xrecv = (some data, { x with pending := rest, lastPipe := q, pendingPipes := pipes }) := by
  unfold xrecv
  simp [hdata, hmanual, hpipes]

theorem xrecv_empty (hdata : x.pending = data :: rest) (hpipes : x.pendingPipes = []) :
    x.xrecv = (some data, { x with pending := rest }) := by
  unfold xrecv
  simp only [hdata, hpipes]
  cases x.manual <;> rfl

end receiving
end Xpub

/-! ## Runs -/

/-- A publisher in manual mode, its pipes and its user. -/
structure ManualNet where
  xpub : Xpub
  pipes : Finset PipeId
  /-- The pipes that have ever been attached. -/
  known : Finset PipeId
  channels : Channels
  /-- Where the reports come from that wait for the user, oldest first. -/
  queue : List Origin
  /-- Where the report comes from that the user has got last. -/
  last : Option Origin

namespace ManualNet

inductive Act where
  | attach (p : PipeId) (subscribeToAll : Bool)
  | pipe (p : PipeId) (a : PipePair.Action)
  | xsend (m : Msg)
  | xrecv
  | setSubscription (r : Request)
  | setOption (o : Xpub.Opt) (value : Int)
  | setWelcomeMsg (data : Bytes)
  | setInvertMatching (on : Bool)
deriving DecidableEq, Repr

/-- The manual mode is set before any pipe is attached. -/
def initial (hwm₀ hwm₁ : PipeId → Int) : ManualNet :=
  { xpub := ((Xpub.new false).setOption .manual 1).getD (.new false)
    pipes := ∅
    known := ∅
    channels := fun p => .start (hwm₀ p) (hwm₁ p)
    queue := []
    last := none }

/-- The parts that have been read from pipe `p` in a step to `cs`. -/
def arrived (n : ManualNet) (cs : Channels) (p : PipeId) : List Origin :=
  n.xpub.origins p ((cs p).got.drop (n.channels p).got.length)

/-- The publisher is told of an event of pipe `p`. -/
def tell (p : PipeId) (n : ManualNet) (e : PipeEvent) : Except Failure ManualNet := do
  let (x, cs, _) ← n.xpub.handle n.channels p e
  if e = .pipeTerminated then
    .ok { n with
      xpub := x
      channels := cs
      pipes := n.pipes.erase p
      queue := n.queue ++
        List.replicate (x.pending.length - n.xpub.pending.length) (.cancelled p) }
  else .ok { n with xpub := x, channels := cs, queue := n.queue ++ n.arrived cs p }

def next (n : ManualNet) : Act → Except Failure ManualNet
  | .attach p all => do
      let (x, cs, _) ← n.xpub.xattachPipe n.channels p all
      .ok { n with
        xpub := x
        channels := cs
        pipes := insert p n.pipes
        known := insert p n.known
        queue := n.queue ++ n.arrived cs p }
  | .pipe p a => do
      let (ev, cs) ← n.channels.act p a
      ev.foldlM (tell p) { n with channels := cs }
  | .xsend m => do
      let (_, x, cs) ← n.xpub.xsend n.channels m
      .ok { n with
        xpub := x
        channels := cs
        last := if n.xpub.sendLastPipe then none else n.last }
  | .xrecv => .ok { n with
      xpub := n.xpub.xrecv.2
      queue := n.queue.tail
      last := n.queue.head?.or n.last }
  | .setSubscription r => do
      let x ← n.xpub.setSubscription r
      .ok { n with xpub := x.getD n.xpub }
  | .setOption o value => .ok { n with xpub := (n.xpub.setOption o value).getD n.xpub }
  | .setWelcomeMsg data => .ok { n with xpub := n.xpub.setWelcomeMsg data }
  | .setInvertMatching on => .ok { n with xpub := { n.xpub with invertMatching := on } }

/-- A pipe is attached once, and lives until the publisher is told that it is terminated. Only
the publisher reads and writes its end, and nobody replaces its queue. The manual mode is not
left. -/
def Enabled (n : ManualNet) : Act → Prop
  | .attach p _ => p ∉ n.known ∧ ¬ (n.channels p).gone
  | .pipe p a => (n.channels p).pair.Enabled a ∧
      (a.side = .first → p ∈ n.pipes ∧ a.reads = false ∧ a.writes = false) ∧
      a ≠ .hiccup .second ∧
      (a = .deliver .first → (n.channels p).pair.hiccupNext .first = false)
  | .xsend m => m.isDelimiter = false ∧ m.isCredential = false
  | .setOption o value => o = .manual ∨ o = .manualLastValue → value ≠ 0
  | .xrecv | .setSubscription _ | .setWelcomeMsg _ | .setInvertMatching _ => True

def Step (n : ManualNet) (a : Act) (n' : ManualNet) : Prop := n.Enabled a ∧ n.next a = .ok n'

/-- A message of a peer is returned only when no request is waiting, and when `_last_pipe` is not
another pipe. -/
def MayReturn (n : ManualNet) : Option Origin → Prop
  | some (.user p) =>
      n.xpub.pendingPipes = [] ∧ (n.xpub.lastPipe = none ∨ n.xpub.lastPipe = some p)
  | some (.request _) | some (.cancelled _) | none => True

/-- Pipe `p` may go away: it is not in `_pending_pipes`, and if it has requests, no other pipe is
`_last_pipe`, while otherwise `_last_pipe`, which is kept then, is not `p`. -/
def MayLeave (n : ManualNet) (p : PipeId) : Prop :=
  some p ∉ n.xpub.pendingPipes ∧
    if n.xpub.hasRequests p then ∀ q ∈ n.pipes, n.xpub.lastPipe = some q → q = p
    else n.xpub.lastPipe ≠ some p

/-- Only such reports are returned, and only such pipes go away. -/
def InStep (n : ManualNet) : Act → Prop
  | .xrecv => n.MayReturn n.queue.head?
  | .pipe p a => a = .deliver .first → ((n.channels p).pair.mail .first).head? = some .pipeTermAck →
      n.MayLeave p
  | .attach _ _ | .xsend _ | .setSubscription _ | .setOption _ _ | .setWelcomeMsg _
  | .setInvertMatching _ => True

/-- Requests are attributed to their senders. -/
structure Attributes (n : ManualNet) : Prop where
  /-- No address is kept of a pipe that is gone. -/
  attached : ∀ p, n.xpub.lastPipe = some p ∨ some p ∈ n.xpub.pendingPipes → p ∈ n.pipes
  /-- After a request of a pipe that is attached, `_last_pipe` is this pipe. -/
  lastPipe : ∀ p, n.last = some (.request p) → p ∈ n.pipes → n.xpub.lastPipe = some p
  /-- The user changes the subscriptions of this pipe, and after any report those of no other pipe
  than the one it came from. -/
  changes : ∃ subs, n.xpub.subscriptions.Represents subs ∧ ∀ r, ∃ x' subs',
    n.xpub.setSubscription r = .ok (some x') ∧ x'.subscriptions.Represents subs' ∧
      (∀ p, n.last = some (.request p) → p ∈ n.pipes → subs' = r.apply p subs) ∧
      ∀ o, n.last = some o → ∀ key q, q ≠ o.pipe → ((key, q) ∈ subs' ↔ (key, q) ∈ subs)

/-! ## The invariant -/

/-- The queues are in step. -/
structure Sound (n : ManualNet) : Prop where
  manual : n.xpub.manual = true
  isPub : n.xpub.isPub = false
  pending : n.xpub.pending.length = n.queue.length
  pendingPipes : n.xpub.pendingPipes = n.queue.flatMap Origin.entry
  represents : ∃ subs, n.xpub.subscriptions.Represents subs
  attached : n.pipes ⊆ n.known
  known : ∀ o, o ∈ n.queue ∨ n.last = some o → o.pipe ∈ n.known
  request : ∀ p, n.last = some (.request p) → p ∈ n.pipes → n.xpub.lastPipe = some p
  last : ∀ o, n.last = some o → n.xpub.lastPipe = none ∨ n.xpub.lastPipe = some o.pipe
  alive : ∀ p, n.xpub.lastPipe = some p ∨ some p ∈ n.xpub.pendingPipes → p ∈ n.pipes

variable {n n' : ManualNet} {p : PipeId}

theorem sound_initial (hwm₀ hwm₁ : PipeId → Int) : (initial hwm₀ hwm₁).Sound where
  manual := rfl
  isPub := rfl
  pending := rfl
  pendingPipes := rfl
  represents := ⟨∅, Mtrie.represents_new⟩
  attached := subset_rfl
  known := by simp [initial]
  request := nofun
  last := nofun
  alive := by simp [initial, Xpub.setOption, Xpub.new]

theorem pipe_of_mem_entry {q : PipeId} {o : Origin} (h : some q ∈ o.entry) : q = o.pipe := by
  cases o with
  | request => simpa [entry, Origin.pipe] using h
  | user | cancelled => simp [entry] at h

theorem pipe_of_mem_origins {x : Xpub} {parts : List Msg} (ho : o ∈ x.origins p parts) :
    o.pipe = p := by
  induction parts generalizing x with
  | nil => cases ho
  | cons m _ ih =>
    rcases mem_cons.mp ho with rfl | ho
    · split <;> rfl
    · exact ih ho

section
variable (h : n.Sound)
include h

/-- Reports of pipe `p` are added to the queue. -/
theorem Sound.adds (hadds : Xpub.Adds { n.xpub with subscriptions := x.subscriptions } x l)
    (hrep : ∃ subs, x.subscriptions.Represents subs) (hp : p ∈ n.pipes) (hl : ∀ o ∈ l, o.pipe = p) :
    Sound { n with xpub := x, channels := cs, queue := n.queue ++ l } where
  manual := hadds.manual.trans h.manual
  isPub := hadds.isPub.trans h.isPub
  pending := by
    rw [length_append, ← h.pending]
    exact hadds.pending
  pendingPipes := by
    rw [flatMap_append, ← h.pendingPipes]
    exact hadds.pendingPipes
  represents := hrep
  attached := h.attached
  known o ho := by
    rcases ho with ho | ho
    · rcases mem_append.mp ho with ho | ho
      · exact h.known o (.inl ho)
      · rw [hl o ho]
        exact h.attached hp
    · exact h.known o (.inr ho)
  request q hlast hq := hadds.lastPipe.trans (h.request q hlast hq)
  last o ho := by
    rw [hadds.lastPipe]
    exact h.last o ho
  alive q hq := by
    rcases hq with hq | hq
    · exact h.alive q (.inl (hadds.lastPipe.symm.trans hq))
    rcases mem_append.mp (hadds.pendingPipes ▸ hq) with hq | hq
    · exact h.alive q (.inr hq)
    · obtain ⟨o, ho, hentry⟩ := mem_flatMap.mp hq
      rw [pipe_of_mem_entry hentry, hl o ho]
      exact hp

/-- A pipe is attached for the first time. -/
theorem Sound.insert (hp : p ∉ n.known) :
    Sound { n with pipes := insert p n.pipes, known := insert p n.known } where
  __ := h
  attached := insert_subset_insert p h.attached
  known o ho := mem_insert_of_mem (h.known o ho)
  request q hlast hq := by
    refine h.request q hlast ((mem_insert.mp hq).resolve_left ?_)
    rintro rfl
    exact hp (h.known _ (.inr hlast))
  alive q hq := mem_insert_of_mem (h.alive q hq)

theorem Sound.attach {all : Bool} (hen : n.Enabled (.attach p all))
    (hnext : n.next (.attach p all) = .ok n') : n'.Sound := by
  obtain ⟨⟨x, cs, requests⟩, hattach, ⟨⟩⟩ := bind_ok hnext
  obtain ⟨subs, hsubs⟩ := h.represents
  obtain ⟨parts, hgot, hadds, hrep⟩ := Xpub.xattachPipe_adds h.manual hsubs hen.2 hattach
  have harrived : n.arrived cs p = n.xpub.origins p parts := by
    rw [arrived, hgot, drop_left]
  rw [harrived]
  exact (h.insert hen.1).adds hadds ⟨_, hrep⟩ (mem_insert_self p _)
    fun o ho => pipe_of_mem_origins ho

theorem Sound.tell {e : PipeEvent} (hp : p ∈ n.pipes) (hterm : e ≠ .pipeTerminated)
    (hok : tell p n e = .ok n') : n'.Sound := by
  obtain ⟨⟨x, cs, requests⟩, hhandle, hok⟩ := bind_ok hok
  simp only [if_neg hterm] at hok
  cases hok
  have hcase : ∃ parts, (cs p).got = (n.channels p).got ++ parts ∧
      Xpub.Adds n.xpub x (n.xpub.origins p parts) := by
    cases e with
    | pipeTerminated => exact absurd rfl hterm
    | readActivated => exact Xpub.readLoop_adds h.manual hhandle
    | writeActivated =>
      obtain ⟨x₁, hx₁, ⟨⟩⟩ := bind_ok hhandle
      obtain ⟨d, -, ⟨⟩⟩ := bind_ok hx₁
      exact ⟨[], (append_nil _).symm, rfl, (append_nil _).symm, rfl, rfl, rfl, rfl⟩
    | hiccuped | statsPublish =>
      cases hhandle
      exact ⟨[], (append_nil _).symm, .refl _⟩
  obtain ⟨parts, hgot, hadds⟩ := hcase
  have harrived : n.arrived cs p = n.xpub.origins p parts := by
    rw [arrived, hgot, drop_left]
  rw [harrived]
  refine h.adds { hadds with subscriptions := rfl }
    ?_ hp fun o ho => pipe_of_mem_origins ho
  rw [hadds.subscriptions]
  exact h.represents

theorem Sound.terminated (hp : p ∈ n.pipes) (hstep : n.MayLeave p)
    (hok : ManualNet.tell p n .pipeTerminated = .ok n') : n'.Sound := by
  obtain ⟨⟨x, cs, requests⟩, hhandle, ⟨⟩⟩ := bind_ok hok
  obtain ⟨x₁, hterm, ⟨⟩⟩ := bind_ok hhandle
  obtain ⟨subs, hsubs⟩ := h.represents
  obtain ⟨k, hk, hadds, hlast, hrep⟩ := Xpub.xpipeTerminated_adds h.manual h.isPub hsubs hterm
  have hlen : x.pending.length - n.xpub.pending.length = k := by
    have hpend := hadds.pending
    simp only [length_replicate] at hpend
    omega
  obtain ⟨hpending, hstep⟩ := hstep
  rw [hlen]
  exact
    { manual := hadds.manual.trans h.manual
      isPub := hadds.isPub.trans h.isPub
      pending := by
        rw [length_append, ← h.pending]
        exact hadds.pending
      pendingPipes := by
        rw [flatMap_append, ← h.pendingPipes]
        exact hadds.pendingPipes
      represents := ⟨_, hrep⟩
      attached := (erase_subset p n.pipes).trans h.attached
      known := fun o ho => by
        rcases ho with ho | ho
        · rcases mem_append.mp ho with ho | ho
          · exact h.known o (.inl ho)
          · rw [eq_of_mem_replicate ho]
            exact h.attached hp
        · exact h.known o (.inr ho)
      request := fun q hq hmem => by
        obtain ⟨hne, hmem⟩ := mem_erase.mp hmem
        have hlast' := h.request q hq hmem
        rw [hlast, if_pos, hlast']
        by_contra hk'
        rw [if_pos (hk.mp hk')] at hstep
        exact hne (hstep q hmem hlast')
      last := fun o ho => by
        rw [hlast]
        split
        · exact h.last o ho
        · exact .inl rfl
      alive := fun q hq => by
        rcases hq with hq | hq
        · -- `_last_pipe` was not changed, so that `p` had no requests
          rw [hlast, Option.ite_none_right_eq_some] at hq
          rw [if_neg fun hreq => hk.mpr hreq hq.1] at hstep
          exact mem_erase.mpr ⟨fun h => hstep (h ▸ hq.2), h.alive q (.inl hq.2)⟩
        · have hold : some q ∈ n.xpub.pendingPipes := by
            rw [hadds.pendingPipes, Xpub.flatMap_entry_cancelled] at hq
            simpa [mem_replicate] using hq
          exact mem_erase.mpr ⟨fun h => hpending (h ▸ hold), h.alive q (.inr hold)⟩ }

theorem Sound.pipe (hen : n.Enabled (.pipe p a))
    (hstep : n.InStep (.pipe p a)) (hnext : n.next (.pipe p a) = .ok n') : n'.Sound := by
  obtain ⟨⟨ev, cs⟩, hact, htell⟩ := bind_ok hnext
  obtain ⟨r, -, hev⟩ := Channels.act_called hen.1 hact
  have hcs : Sound { n with channels := cs } :=
    { h with }
  split at hev
  · rename_i hside
    have hp := (hen.2.1 hside).1
    rcases news_cases (n.channels p).pair .first a with hnil | ⟨e, he⟩
    · rw [hev, hnil] at htell
      cases htell
      exact hcs
    rw [hev, he] at htell
    simp only [foldlM_singleton] at htell
    by_cases hterm : e = .pipeTerminated
    · subst hterm
      obtain ⟨y, rfl, hhead⟩ := news_eq_pipeTerminated he
      obtain rfl : y = .first := hside
      exact hcs.terminated hp (hstep rfl hhead) htell
    · exact hcs.tell hp hterm htell
  · rw [hev] at htell
    cases htell
    exact hcs

theorem Sound.xrecv (hstep : n.InStep .xrecv) (hnext : n.next .xrecv = .ok n') : n'.Sound := by
  cases hnext
  have hlen := h.pending
  have hpipes := h.pendingPipes
  cases hqueue : n.queue with
  | nil =>
    rw [hqueue] at hlen
    have hnil : n.xpub.pending = [] := length_eq_zero_iff.mp hlen
    have hsame : n.xpub.xrecv.2 = n.xpub := by rw [Xpub.xrecv, hnil]
    rw [hsame]
    refine { h with pending := ?_, pendingPipes := ?_, known := ?_ }
    · rw [hnil]
      rfl
    · rw [hpipes, hqueue]
      rfl
    · intro o ho
      exact h.known o (.inr (ho.resolve_left nofun))
  | cons o queue =>
    rw [hqueue] at hlen hpipes
    obtain ⟨data, rest, hdata⟩ := exists_cons_of_length_eq_add_one hlen
    rw [hdata] at hlen
    have hrest : rest.length = queue.length := by simpa using hlen
    have hknown : ∀ o', o' ∈ queue ∨ some o = some o' → o'.pipe ∈ n.known := by
      intro o' ho'
      refine h.known o' (.inl ?_)
      rw [hqueue]
      rcases ho' with ho' | ho'
      · exact mem_cons_of_mem o ho'
      · cases ho'
        exact mem_cons_self
    cases o with
    | request p =>
      have hpipes' : n.xpub.pendingPipes = some p :: queue.flatMap entry := hpipes
      rw [Xpub.xrecv_manual h.manual hdata hpipes']
      refine ⟨h.manual, h.isPub, hrest, rfl, h.represents, h.attached, hknown, ?_, ?_, ?_⟩
      · rintro q hq -
        cases hq
        rfl
      · rintro _ ho
        cases ho
        exact .inr rfl
      · rintro q (hq | hq)
        · exact h.alive q (.inr (by simp [hpipes', ← hq]))
        · exact h.alive q (.inr (hpipes' ▸ mem_cons_of_mem _ hq))
    | cancelled =>
      have hpipes' : n.xpub.pendingPipes = none :: queue.flatMap entry := hpipes
      rw [Xpub.xrecv_manual h.manual hdata hpipes']
      refine ⟨h.manual, h.isPub, hrest, rfl, h.represents, h.attached, hknown, nofun,
        fun _ _ => .inl rfl, fun q hq => h.alive q (.inr ?_)⟩
      exact hpipes' ▸ mem_cons_of_mem _ (hq.resolve_left nofun)
    | user =>
      -- a user message has no entry, and must find `_pending_pipes` empty
      rw [InStep, hqueue] at hstep
      obtain ⟨hnone, hlast⟩ := hstep
      rw [Xpub.xrecv_empty hdata hnone]
      refine ⟨h.manual, h.isPub, hrest, ?_, h.represents, h.attached, hknown, nofun, ?_, h.alive⟩
      · rw [h.pendingPipes, hqueue]
        rfl
      · rintro _ ho
        cases ho
        exact hlast

theorem Sound.keeps {last : Option Origin}
    (hadds : Xpub.Adds
      { n.xpub with subscriptions := x.subscriptions, lastPipe := x.lastPipe } x [])
    (hpipe : x.lastPipe = none ∨ x.lastPipe = n.xpub.lastPipe)
    (hrep : ∃ subs, x.subscriptions.Represents subs)
    (hlast : ∀ o, last = some o → n.last = some o ∧ x.lastPipe = n.xpub.lastPipe) :
    Sound { n with xpub := x, channels := cs, last := last } where
  manual := hadds.manual.trans h.manual
  isPub := hadds.isPub.trans h.isPub
  pending := hadds.pending.trans h.pending
  pendingPipes := by
    rw [← h.pendingPipes, hadds.pendingPipes]
    exact append_nil _
  represents := hrep
  attached := h.attached
  known o ho := h.known o (ho.imp_right fun ho => (hlast o ho).1)
  request q hq hmem := by
    obtain ⟨hq, hsame⟩ := hlast _ hq
    exact hsame.trans (h.request q hq hmem)
  last o ho := by
    obtain ⟨ho, hsame⟩ := hlast o ho
    rw [hsame]
    exact h.last o ho
  alive q hq := by
    refine h.alive q (hq.imp (fun hq => ?_) fun hq => ?_)
    · rcases hpipe with hnone | hsame
      · cases hnone.symm.trans hq
      · exact hsame.symm.trans hq
    · rwa [hadds.pendingPipes, flatMap_nil, append_nil] at hq

theorem Sound.xsend (hnext : n.next (.xsend m) = .ok n') : n'.Sound := by
  obtain ⟨⟨ok, x, cs⟩, hsend, ⟨⟩⟩ := bind_ok hnext
  obtain ⟨hadds, hlast, hsame⟩ := Xpub.xsend_adds hsend
  refine h.keeps { hadds with lastPipe := rfl, subscriptions := rfl } hlast ?_
    fun o ho => ?_
  · rw [hadds.subscriptions]
    exact h.represents
  · split at ho
    · cases ho
    · rename_i hmode
      exact ⟨ho, hsame (by simpa using hmode)⟩

theorem Sound.setOption {value : Int} (hen : n.Enabled (.setOption o value))
    (hnext : n.next (.setOption o value) = .ok n') : n'.Sound := by
  cases hnext
  unfold Xpub.setOption
  split
  · exact h
  have hmode : o = .manual ∨ o = .manualLastValue → decide (value ≠ 0) = n.xpub.manual := by
    intro ho
    rw [h.manual]
    exact decide_eq_true (hen ho)
  cases o with
  | manual =>
    exact h.keeps ⟨rfl, (append_nil _).symm, rfl, rfl, hmode (.inl rfl), rfl⟩ (.inr rfl)
      h.represents fun _ ho => ⟨ho, rfl⟩
  | manualLastValue =>
    exact h.keeps ⟨rfl, (append_nil _).symm, rfl, rfl, hmode (.inr rfl), rfl⟩ (.inr rfl)
      h.represents fun _ ho => ⟨ho, rfl⟩
  | _ =>
    exact h.keeps ⟨rfl, (append_nil _).symm, rfl, rfl, rfl, rfl⟩ (.inr rfl) h.represents
      fun _ ho => ⟨ho, rfl⟩

theorem Sound.setSubscription (hnext : n.next (.setSubscription r) = .ok n') : n'.Sound := by
  obtain ⟨x, hset, ⟨⟩⟩ := bind_ok hnext
  obtain ⟨subs, hsubs⟩ := h.represents
  obtain ⟨t, ht, hrep⟩ := Xpub.setSubscription_spec h.manual hsubs r
  rw [ht] at hset
  cases hset
  exact h.keeps ⟨rfl, (append_nil _).symm, rfl, rfl, rfl, rfl⟩ (.inr rfl) ⟨_, hrep⟩
    fun _ ho => ⟨ho, rfl⟩

theorem Sound.step (hstep : n.InStep a) (hs : Step n a n') : n'.Sound := by
  obtain ⟨hen, hnext⟩ := hs
  cases a with
  | attach => exact h.attach hen hnext
  | pipe => exact h.pipe hen hstep hnext
  | xsend => exact h.xsend hnext
  | xrecv => exact h.xrecv hstep hnext
  | setSubscription => exact h.setSubscription hnext
  | setOption => exact h.setOption hen hnext
  | setWelcomeMsg | setInvertMatching =>
    cases hnext
    exact h.keeps ⟨rfl, (append_nil _).symm, rfl, rfl, rfl, rfl⟩ (.inr rfl) h.represents
      fun _ ho => ⟨ho, rfl⟩

end

/-! ## Attribution -/

/-- A request for pipe `p` concerns no other pipe. -/
theorem mem_apply_of_ne {r : Request} {key : Bytes}
    (hq : q ≠ p) : (key, q) ∈ r.apply p subs ↔ (key, q) ∈ subs := by
  unfold Request.apply
  split <;> simp [hq]

theorem Sound.attributes (h : n.Sound) : n.Attributes where
  attached := h.alive
  lastPipe := h.request
  changes := by
    obtain ⟨subs, hsubs⟩ := h.represents
    refine ⟨subs, hsubs, fun r => ?_⟩
    obtain ⟨t, ht, hrep⟩ := Xpub.setSubscription_spec h.manual hsubs r
    refine ⟨_, _, ht, hrep, fun p hp hmem => ?_, fun o ho _ q hq => ?_⟩
    · rw [h.request p hp hmem]
      rfl
    · rcases h.last o ho with hnone | hsome
      · rw [hnone]
        rfl
      · rw [hsome]
        exact mem_apply_of_ne hq

/-- **In manual mode a request is attributed to its sender**: in runs in which the queues stay in
step, the user changes the subscriptions of the pipe that the last request came from. -/
theorem manual_attribution {hwm₀ hwm₁ : PipeId → Int} {tr : List Act}
    (h : Exec (Guarded Step InStep) (initial hwm₀ hwm₁) tr n) : n.Attributes := by
  refine (h.invariant Sound ?_ (sound_initial hwm₀ hwm₁)).attributes
  rintro b act c hb ⟨hs, hstep⟩
  exact hb.step hstep hs

/-! ## Concrete runs -/

instance (n : ManualNet) (a : Act) : Decidable (n.Enabled a) := by
  rcases a <;> dsimp only [Enabled] <;> infer_instance

instance (n : ManualNet) : (o : Option Origin) → Decidable (n.MayReturn o)
  | some (.user p) => inferInstanceAs (Decidable (n.xpub.pendingPipes = [] ∧
      (n.xpub.lastPipe = none ∨ n.xpub.lastPipe = some p)))
  | some (.request _) | some (.cancelled _) | none => .isTrue trivial

instance (n : ManualNet) (p : PipeId) : Decidable (n.MayLeave p) :=
  inferInstanceAs (Decidable (_ ∧ ite _ _ _))

instance (n : ManualNet) (a : Act) : Decidable (n.InStep a) := by
  rcases a <;> dsimp only [InStep] <;> infer_instance

/-- The peer of pipe `p` sends a message with the data `data`. -/
def peerSends (p : PipeId) (data : Bytes) : List Act :=
  [.pipe p (.write .second { Msg.init with data := data }), .pipe p (.flush .second)]

/-- The two ends of pipe `p` agree to terminate. -/
def goesAway (p : PipeId) : List Act :=
  [.pipe p (.setNodelay .second), .pipe p (.terminate .first false), .pipe p (.deliver .second),
    .pipe p (.deliver .first)]

/-- Two peers subscribe, the user makes the changes, and then gets a message of the second one,
which goes away. -/
theorem manual_attribution_two_peers :
    ∃ tr n, Exec (Guarded Step InStep) (initial (fun _ => 9) fun _ => 9) tr n ∧
      n.last = some (.cancelled 1) ∧ n.xpub.lastPipe = none ∧ n.pipes = {0} ∧ n.Attributes := by
  refine exists_exec_with guarded_of_attempt
    (fun n => n.last = some (.cancelled 1) ∧ n.xpub.lastPipe = none ∧ n.pipes = {0})
    (peerSends 0 [1, 65] ++ [.attach 0 false] ++ peerSends 1 [1, 66] ++ [.attach 1 false, .xrecv,
      .setSubscription ⟨true, [65]⟩, .xrecv, .setSubscription ⟨true, [66]⟩] ++ peerSends 1 [7] ++
      [.pipe 1 (.deliver .first), .xrecv] ++ goesAway 1 ++ [.xrecv]) (by decide +kernel) ?_
  rintro _ _ hexec ⟨hlast, hpipe, hpipes⟩
  exact ⟨hlast, hpipe, hpipes, manual_attribution hexec⟩

/-- A message of pipe `0` and requests of the pipes `1` and `2` are waiting. When the user gets the
request of pipe `1`, `_last_pipe` is pipe `2`.

If pipe `1` goes away after the user has got a request of pipe `0`, `_last_pipe` is no pipe. If the
user gets a message of pipe `1` then, `_last_pipe` is still pipe `0`. -/
theorem manual_misattribution :
    (∃ tr n, Exec Step (initial (fun _ => 9) fun _ => 9) tr n ∧ n.last = some (.request 1) ∧
      1 ∈ n.pipes ∧ n.xpub.lastPipe = some 2 ∧ ¬ n.Attributes) ∧
    (∃ tr n, Exec Step (initial (fun _ => 9) fun _ => 9) tr n ∧ n.last = some (.request 0) ∧
      0 ∈ n.pipes ∧ n.xpub.lastPipe = none ∧ ¬ n.Attributes) ∧
    ∃ tr n, Exec Step (initial (fun _ => 9) fun _ => 9) tr n ∧ n.last = some (.user 1) ∧
      0 ∈ n.pipes ∧ n.xpub.lastPipe = some 0 := by
  refine ⟨?_, ?_, ?_⟩
  · refine exists_exec_with step_of_attempt
      (fun n => n.last = some (.request 1) ∧ 1 ∈ n.pipes ∧ n.xpub.lastPipe = some 2)
      (peerSends 0 [7] ++ [.attach 0 false] ++ peerSends 1 [1, 65] ++ [.attach 1 false] ++
        peerSends 2 [1, 66] ++ [.attach 2 false, .xrecv, .xrecv]) (by decide +kernel) ?_
    rintro _ n _ ⟨hlast, hmem, hpipe⟩
    refine ⟨hlast, hmem, hpipe, fun hattr => ?_⟩
    cases hpipe.symm.trans (hattr.lastPipe 1 hlast hmem)
  · refine exists_exec_with step_of_attempt
      (fun n => n.last = some (.request 0) ∧ 0 ∈ n.pipes ∧ n.xpub.lastPipe = none)
      (peerSends 0 [1, 65] ++ [.attach 0 false] ++ peerSends 1 [1, 66] ++
        [.attach 1 false, .xrecv] ++ goesAway 1) (by decide +kernel) ?_
    rintro _ n _ ⟨hlast, hmem, hpipe⟩
    refine ⟨hlast, hmem, hpipe, fun hattr => ?_⟩
    cases hpipe.symm.trans (hattr.lastPipe 0 hlast hmem)
  · exact exists_exec_of_replay step_of_attempt
      (peerSends 0 [1, 65] ++ [.attach 0 false, .xrecv] ++ peerSends 1 [7] ++
        [.attach 1 false, .xrecv]) (by decide +kernel)

end ManualNet
end LibZmq
