import LibZmq.Pipe.Ownership

/-!
# Steps of a well-formed pair

`Sound` collects the invariants of the previous modules. Every call and every
delivery on a sound pair returns, with one of the listed outcomes, and leaves a
sound pair.
-/

namespace LibZmq

namespace PipePair

open LibZmq.Core UPipe PipeState Function List

variable {s s' : PipePair} {x : Side} {q : QueueId}

/-- The invariant of a pipe pair. -/
structure Sound (s : PipePair) : Prop where
  handshake : Handshake s
  ownership : Ownership s
  contents : Contents s
  sink : ∀ x, (s.pipe x).sink = true

/-- The calls that send a command in any state are made only before the end has
acknowledged the termination. -/
def Prudent (s : PipePair) : Action → Prop
  | .updateHwms x _ _ | .sendStatsToPeer x => (s.pipe x).state.acked = false
  | _ => True

/-- The fields that are set once and for all. -/
theorem Outcome.constants (ho : Outcome s a r s') (z : Side) :
    (s'.pipe z).sink = (s.pipe z).sink ∧ (s'.pipe z).conflate = (s.pipe z).conflate := by
  have hx : ∀ {x : Side} {p : Pipe}, p.sink = (s.pipe x).sink ∧ p.conflate = (s.pipe x).conflate →
      (update s.pipe x p z).sink = (s.pipe z).sink ∧
        (update s.pipe x p z).conflate = (s.pipe z).conflate := by
    intro x p _
    by_cases hz : z = x
    · subst hz
      rwa [update_self]
    · rw [update_of_ne hz]
      exact ⟨rfl, rfl⟩
  -- in every case one end is replaced at most, by a copy with other fields changed
  cases ho with
  | take | publish | close | closeAgain =>
    rw [postIf_pipe]
    first | exact ⟨rfl, rfl⟩ | exact hx ⟨rfl, rfl⟩
  | _ => first | exact ⟨rfl, rfl⟩ | exact hx ⟨rfl, rfl⟩

theorem Sound.outcome (h : Sound s) (halive : s.deallocated a.side = 0) (ho : Outcome s a r s') :
    Sound s' := by
  have hh := h.handshake.outcome halive ho
  have hown := h.ownership.outcome h.handshake halive ho
  exact ⟨hh, hown, h.contents.outcome h.ownership h.handshake hown hh ho,
    fun z => (ho.constants z).1.trans (h.sink z)⟩

/-! ## A new pair -/

section start
variable (hwm₀ hwm₁ : Int) (conflate₀ conflate₁ : Bool)

theorem handshake_start : Handshake (start hwm₀ hwm₁ conflate₀ conflate₁) := by
  have hst : ∀ x, ((start hwm₀ hwm₁ conflate₀ conflate₁).pipe x).state = .active := by
    intro x
    cases x <;> rfl
  intro x
  rw [hst, hst]
  exact ⟨rfl, rfl, Pairwise.nil, by simp [start, setEventSink, pipepair], fun _ => rfl,
    (absurd rfl)⟩

theorem ownership_start : Ownership (start hwm₀ hwm₁ conflate₀ conflate₁) := by
  have hfirst : (start hwm₀ hwm₁ conflate₀ conflate₁).inbound .first = [0] := rfl
  have hsecond : (start hwm₀ hwm₁ conflate₀ conflate₁).inbound .second = [1] := rfl
  refine ⟨?_, ?_, ⟨?_, ?_, ?_, ?_, ?_⟩⟩
  · intro x
    cases x <;> exact iff_of_false (fun e => nomatch e) (fun e => nomatch e)
  · intro x q hq
    cases x <;> cases hq <;> rfl
  · intro x
    cases x <;> exact nodup_singleton _
  · intro x z q _ _ _
    cases x <;> cases z <;> simp_all
  · intro x q hq
    cases x
    · rw [hfirst, mem_singleton] at hq
      exact ⟨hq ▸ Nat.zero_lt_two, rfl⟩
    · rw [hsecond, mem_singleton] at hq
      exact ⟨hq ▸ Nat.one_lt_two, rfl⟩
  · intro q hq hnone
    -- the two queues of the pair are both in use
    have h0 := hnone .first
    have h1 := hnone .second
    rw [hfirst, mem_singleton] at h0
    rw [hsecond, mem_singleton] at h1
    have hlt : q < 2 := hq
    omega
  · intro q _
    rfl

theorem contents_start : Contents (start hwm₀ hwm₁ conflate₀ conflate₁) := by
  refine ⟨fun x q hq => absurd hq not_mem_nil, fun x q _ m hm => ?_⟩
  rw [show (start hwm₀ hwm₁ conflate₀ conflate₁).heap q =
    new (if q = 0 then conflate₀ else conflate₁) from rfl, unfinished_new] at hm
  cases hm

theorem sound_start : Sound (start hwm₀ hwm₁ conflate₀ conflate₁) where
  handshake := handshake_start _ _ _ _
  ownership := ownership_start _ _ _ _
  contents := contents_start _ _ _ _
  sink x := by cases x <;> rfl

end start

/-! ## Pointers that are valid -/

namespace Sound

theorem queue_of_mem (h : Sound s) (hq : q ∈ s.inbound x) : s.queue q = .ok (s.heap q) := by
  simp [queue, h.ownership.allocated.live hq]

theorem queue_out (h : Sound s) (hq : (s.pipe x).outPipe = some q) : s.queue q = .ok (s.heap q) :=
  h.queue_of_mem (Ownership.mem_inbound_of_outPipe hq)

/-- The queue `x` reads from is the last one of its chain. -/
theorem inPipe_mem (h : Sound s) (hd : s.deallocated x = 0) : (s.pipe x).inPipe ∈ s.inbound x := by
  cases hq : (s.pipe x.peer).outPipe with
  | none => simp [inbound, hq, hd]
  | some q =>
    have hlast := h.ownership.last x q hq
    simp only [inbound, hq]
    rw [hlast]
    cases hp : (pending (s.mail x.peer)).getLast? with
    | none => simp
    | some => simpa using .inr (mem_of_getLast? hp)

theorem queue_in (h : Sound s) (hd : s.deallocated x = 0) :
    s.queue (s.pipe x).inPipe = .ok (s.inbox x) :=
  h.queue_of_mem (h.inPipe_mem hd)

theorem alive_of_reading (h : Sound s) (hr : (s.pipe x).state.reading = true) :
    s.deallocated x = 0 := by
  by_contra hd
  have := (h.handshake x).dead_state hd
  cases hst : (s.pipe x).state <;> simp_all [closing, reading]

end Sound

/-! ## Reading -/

theorem setPipe_post (s : PipePair) (x y : Side) (p : Pipe) (c : Command) :
    (s.setPipe x p).post y c = (s.post y c).setPipe x p := rfl

theorem setPipe_store (s : PipePair) (x : Side) (p : Pipe) (q : QueueId) (u : UPipe) :
    (s.setPipe x p).store q u = (s.store q u).setPipe x p := rfl

theorem setPipe_setPipe (s : PipePair) (x : Side) (p p' : Pipe) :
    (s.setPipe x p).setPipe x p' = s.setPipe x p' := by
  simp [setPipe]

theorem setPipe_self (s : PipePair) (x : Side) : s.setPipe x (s.pipe x) = s := by
  simp [setPipe]

theorem store_store (s : PipePair) (q : QueueId) (u v : UPipe) :
    (s.store q u).store q v = s.store q v := by
  simp [store]

attribute [local simp] checkRead checkWrite write flush terminate processPipeTerm acknowledge send
  notify emit stopOutbound setPipe_setPipe store_store

section
variable (hst : (s.pipe x).state ≠ .termAckSent) (hq : (s.pipe x).outPipe = some q)
  (hvalid : q < s.created ∧ s.deleted q = 0)
  (hmore : ∀ m ∈ (s.heap q).unfinished, m.hasMore = true) (hpeer : s.deallocated x.peer = 0)
include hq hvalid
include hmore in
theorem rollback_ok : s.rollback x = .ok (s.store q (s.heap q).unwriteAll.2) := by
  have hall : (s.heap q).unwriteAll.1.all Msg.hasMore = true := by
    rw [(s.heap q).unwriteAll_spec.1, all_reverse, all_eq_true]
    exact hmore
  simp [rollback, hq, queue, hvalid, bind, Except.bind, hall]
include hst hpeer

theorem flush_ok : s.flush x =
      .ok ((s.store q (s.heap q).flush.2).postIf (!(s.heap q).flush.1) x.peer .activateRead) := by
  cases hawake : (s.heap q).flush.1 <;>
    simp [hst, hq, queue, hvalid, hawake, postIf, hpeer]
include hmore in
theorem writeDelimiter_ok : s.writeDelimiter x =
      .ok ((s.store q (sealed (s.heap q))).postIf (sealWakes (s.heap q)) x.peer .activateRead) := by
  have hflush := flush_ok
    (s := s.store q ((s.heap q).unwriteAll.2.write .initDelimiter false)) hst hq hvalid hpeer
  simpa [writeDelimiter, hq, rollback_ok hq hvalid hmore, queue, hvalid, sealed, sealWakes]
    using hflush

end

namespace Sound

section
variable (h : Sound s) (hd : s.deallocated x = 0)
include h hd

/-- The reader has taken a delimiter from its queue. -/
theorem delimiter_outcome (hn : NoMessage x a r) (hmay : (s.pipe x).mayRead = true)
    (skipped : List Msg) (hskip : ∀ c ∈ skipped, c.isCredential = true) (hm : m.isDelimiter = true)
    (hc : Consumes (s.inbox x) (skipped ++ [m]) u) :
    ∃ s', (s.store (s.pipe x).inPipe u).processDelimiter x = .ok s' ∧ Outcome s a r s' := by
  have hreading := (Pipe.mayRead_iff.mp hmay).2
  have hpeer := h.handshake.peer_alive hd (acked_of_reading hreading)
  cases hst : (s.pipe x).state with
  | active =>
    refine ⟨_, ?_, .delimiter hn hmay hskip hm hc hst⟩
    simp [processDelimiter, hst]
  | waitingForDelimiter =>
    refine ⟨_, ?_, .lastDelimiter hn hmay hskip hm hc hst⟩
    simp [processDelimiter, hst, hpeer]
  | delimiterReceived | termAckSent | termReqSent1 | termReqSent2 =>
    rw [hst] at hreading
    cases hreading

theorem checkRead_outcome :
    ∃ b s', s.checkRead x = .ok (b, s') ∧ Outcome s (.checkRead x) (.flag b) s' := by
  cases hmay : (s.pipe x).mayRead with
  | false => exact ⟨false, s, by simp [hmay], .idle (.noMessage .checkRead hmay)⟩
  | true =>
    have hq := h.queue_in hd
    obtain ⟨hfst, -, hread, -, -, hasleep⟩ := (s.inbox x).checkRead_spec
    have hlook := (s.inbox x).checkRead_consumes
    cases hl : (s.inbox x).readable with
    -- the queue is empty: the end turns passive, and the queue knows that its reader sleeps
    | nil =>
      rw [hl] at hfst hasleep
      refine ⟨false, _, ?_, .sleep .checkRead hmay (by simp [hl]) (hl ▸ hlook) (by simp [hasleep])⟩
      simp [hmay, hq, hfst]
    | cons m l =>
      rw [hl] at hfst hread
      -- `probe` looks at the first message without taking it
      obtain ⟨v, hprobe, hv⟩ := probe_consumes hread Msg.isDelimiter
      have hlook' := hlook.trans hv
      cases hm : m.isDelimiter with
      | false =>
        refine ⟨true, _, ?_, .look hmay hl hm hlook'⟩
        simp [hmay, hq, hfst, hprobe, hm]
      | true =>
        -- a delimiter is taken out, and `check_read` answers that there is nothing
        have hv' : v.readable = m :: l := by rw [← hread, hv.readable, nil_append]
        obtain ⟨hget, htake⟩ := read_consumes hv'
        obtain ⟨s', hs', ho⟩ := h.delimiter_outcome hd .checkRead hmay [] (by simp) hm
           (hlook'.trans htake)
        refine ⟨false, s', ?_, ho⟩
        have hpair : v.read = (some m, v.read.2) := Prod.ext hget rfl
        simp only [checkRead, hmay, hq, ok_bind, hfst, hprobe, hm]
        rw [hpair]
        simp [hs']

theorem read_outcome : ∃ o s', s.read x = .ok (o, s') ∧ Outcome s (.read x) (.message o) s' := by
  cases hmay : (s.pipe x).mayRead with
  | false => exact ⟨none, s, by simp [read, hmay], .idle (.noMessage .read hmay)⟩
  | true =>
    have hq := h.queue_in hd
    have hpeer := h.handshake.peer_alive hd (acked_of_reading (Pipe.mayRead_iff.mp hmay).2)
    -- either a message that is no credential was found, or only credentials were there
    rcases (s.inbox x).readSkipping_spec with ⟨m, skipped, hget, hcred, hskip, hc⟩ |
      ⟨hget, hall, hc, hasleep⟩
    · have hpair : (s.inbox x).readSkipping = (some m, (s.inbox x).readSkipping.2) :=
        Prod.ext hget rfl
      cases hm : m.isDelimiter with
      | true =>
        obtain ⟨s', hs', ho⟩ := h.delimiter_outcome hd .read hmay skipped hskip hm hc
        refine ⟨none, s', ?_, ho⟩
        simp only [read, hmay, hq, ok_bind]
        rw [hpair]
        simp [hm, hs']
      | false =>
        refine ⟨some m, _, ?_, .take hmay hskip hcred hm hc⟩
        simp only [read, hmay, hq, ok_bind]
        rw [hpair]
        -- the peer is alive, so the report can be sent
        cases hdue : ((s.pipe x).countRead m).notifyDue <;> simp [hm, hdue, postIf, hpeer]
    · have hpair : (s.inbox x).readSkipping = (none, (s.inbox x).readSkipping.2) :=
        Prod.ext hget rfl
      refine ⟨none, _, ?_, .sleep .read hmay hall hc hasleep⟩
      simp only [read, hmay, hq, ok_bind]
      rw [hpair]
      simp

end

/-! ## Writing -/

theorem checkWrite_outcome (s : PipePair) (x : Side) :
    Outcome s (.checkWrite x) (.flag (s.checkWrite x).1) (s.checkWrite x).2 := by
  unfold checkWrite
  rcases (s.pipe x).checkWrite_cases with ⟨e, hcond⟩ | ⟨e, h1, h2, h3⟩ | ⟨e, h1, h2, h3⟩ <;> rw [e]
  · rw [setPipe_self]
    exact .idle (.refused .checkWrite hcond)
  · exact .full .checkWrite h1 h2 h3
  · rw [setPipe_self]
    exact .idle (.checkWrite h1 h2 h3)

section
variable (h : Sound s)
include h

theorem write_outcome (hd : s.deallocated x = 0) (hm : m.isDelimiter = false) :
    ∃ b s', s.write x m = .ok (b, s') ∧ Outcome s (.write x m) (.flag b) s' := by
  rcases (s.pipe x).checkWrite_cases with ⟨e, hcond⟩ | ⟨e, h1, h2, h3⟩ | ⟨e, h1, h2, h3⟩
  -- refused for the state, refused for the watermark, accepted
  · refine ⟨false, s, ?_, .idle (.refused (.write m) hcond)⟩
    simp [e, setPipe_self]
  · refine ⟨false, _, ?_, .full (.write m) h1 h2 h3⟩
    simp [e]
  · obtain ⟨q, hq⟩ := h.ownership.exists_outPipe hd (by rw [h2]; rfl)
    refine ⟨true, _, ?_, .put hm h1 h2 h3 hq⟩
    simp [e, setPipe_self, hq, h.queue_out hq]

theorem valid_out (hq : (s.pipe x).outPipe = some q) : q < s.created ∧ s.deleted q = 0 :=
  h.ownership.allocated.live (Ownership.mem_inbound_of_outPipe hq)

theorem rollback_outcome (x : Side) :
    ∃ s', s.rollback x = .ok s' ∧ Outcome s (.rollback x) .done s' := by
  cases hq : (s.pipe x).outPipe with
  | none => exact ⟨s, by simp [rollback, hq], .idle (.rollback hq)⟩
  | some q => exact ⟨_, rollback_ok hq (h.valid_out hq) (h.contents.unfinished x q hq), .unput hq⟩

section
variable (hd : s.deallocated x = 0)
include hd

theorem flush_outcome : ∃ s', s.flush x = .ok s' ∧ Outcome s (.flush x) .done s' := by
  by_cases hst : (s.pipe x).state = .termAckSent
  · exact ⟨s, by simp [hst], .idle (.flush (.inl hst))⟩
  cases hq : (s.pipe x).outPipe with
  | none => exact ⟨s, by simp [hq], .idle (.flush (.inr hq))⟩
  | some =>
    -- with a queue to write to, the peer is still there
    have hopen : released (s.pipe x).state (s.deallocated x) = false := by
      rw [Bool.eq_false_iff, Ne, ← h.ownership.outPipe_none x, hq]
      simp
    have hacked : (s.pipe x).state.acked = false := (Bool.or_eq_false_iff.mp hopen).1
    have hpeer := h.handshake.peer_alive hd hacked
    exact ⟨_, flush_ok hst hq (h.valid_out hq) hpeer, .publish hacked hq⟩

/-! ## Other calls -/

theorem hiccup_outcome : ∃ s', s.hiccup x = .ok s' ∧ Outcome s (.hiccup x) .done s' := by
  by_cases hst : (s.pipe x).state = .active
  · have hpeer := h.handshake.peer_alive hd (by rw [hst]; rfl)
    refine ⟨_, ?_, .hiccup hst⟩
    simp [hiccup, hst, hpeer]
  · exact ⟨s, by simp [hiccup, hst], .idle (.hiccup hst)⟩

/-- `terminate` on an end that nobody has asked to terminate. -/
theorem close_outcome (delay : Bool)
    (hst : (s.pipe x).state = .active ∨ (s.pipe x).state = .delimiterReceived) :
    ∃ s', s.terminate x delay = .ok s' ∧ Outcome s (.terminate x delay) .done s' := by
  have hacked : (s.pipe x).state.acked = false := by rcases hst with e | e <;> rw [e] <;> rfl
  have hpeer := h.handshake.peer_alive hd hacked
  obtain ⟨q, hq⟩ := h.ownership.exists_outPipe hd hacked
  refine ⟨_, ?_, .close hst hq⟩
  have hwrite := writeDelimiter_ok (s := (s.post x.peer .pipeTerm).setPipe x
      { s.pipe x with delay := delay, state := .termReqSent1, outActive := false })
    (by simp) (by simpa using hq) (h.valid_out hq) (h.contents.unfinished x q hq) hpeer
  refine Eq.trans ?_ hwrite
  rcases hst with e | e <;>
    simp [e, hpeer, setPipe_post]

/-- `terminate` on an end that waits for the delimiter: with `delay` it goes on waiting,
without it acknowledges at once. -/
theorem closeAgain_outcome (delay : Bool) (hst : (s.pipe x).state = .waitingForDelimiter) :
    ∃ s', s.terminate x delay = .ok s' ∧ Outcome s (.terminate x delay) .done s' := by
  have hacked : (s.pipe x).state.acked = false := by rw [hst]; rfl
  have hpeer := h.handshake.peer_alive hd hacked
  obtain ⟨q, hq⟩ := h.ownership.exists_outPipe hd hacked
  -- `rollback` finds only parts with the `more` flag, so its assertion holds
  cases delay with
  | true =>
    refine ⟨_, ?_, .closeAgain hst hq⟩
    have hwrite := writeDelimiter_ok
      (s := s.setPipe x { s.pipe x with delay := true, outActive := false })
      (by simp [hst]) (by simpa using hq) (h.valid_out hq) (h.contents.unfinished x q hq) hpeer
    refine Eq.trans ?_ hwrite
    simp [hst]
  | false =>
    refine ⟨_, ?_, .giveUp hst hq⟩
    have hroll := rollback_ok (x := x) (s := s.setPipe x { s.pipe x with delay := false })
      (by simpa using hq) (h.valid_out hq) (h.contents.unfinished x q hq)
    have hst' : ((s.setPipe x { s.pipe x with delay := false }).pipe x).state =
        .waitingForDelimiter := by simpa using hst
    unfold terminate
    simp only [hst', hroll]
    -- the acknowledgement clears `outPipe`, so no delimiter is written
    simp [hpeer, writeDelimiter, setPipe_post, setPipe_store]

theorem terminate_outcome (delay : Bool) :
    ∃ s', s.terminate x delay = .ok s' ∧ Outcome s (.terminate x delay) .done s' := by
  cases hst : (s.pipe x).state with
  | active => exact h.close_outcome hd delay (.inl hst)
  | delimiterReceived => exact h.close_outcome hd delay (.inr hst)
  | waitingForDelimiter => exact h.closeAgain_outcome hd delay hst
  | termAckSent | termReqSent1 | termReqSent2 =>
    exact ⟨_, by simp [hst], .ignored (by rw [hst]; rfl)⟩

end
end

/-! ## Deliveries -/

section deliver

section
variable (h : Sound s)
include h

theorem wake_outcome (hmail : s.mail x = .activateRead :: rest) :
    ∃ s', (s.popMail x).processActivateRead x = .ok s' ∧ Outcome s (.deliver x) .done s' := by
  have hsink := h.sink x
  by_cases hcond : (s.pipe x).inActive = false ∧ (s.pipe x).state.reading = true
  · obtain ⟨hin, hst⟩ := hcond
    refine ⟨_, ?_, .wake (e := update s.events x (s.events x ++ [.readActivated])) hmail⟩
    simp [processActivateRead, reading_eq, hin, hst, hsink, withEvents]
  -- the command comes too late, or the end is active already
  have hsame : ((s.pipe x).inActive || (s.pipe x).state.reading) = (s.pipe x).inActive := by
    cases hin : (s.pipe x).inActive <;> cases hst : (s.pipe x).state.reading <;> simp_all
  refine ⟨_, ?_, .wake (e := s.events) hmail⟩
  rw [hsame]
  simp only [processActivateRead, reading_eq]
  rw [if_neg (by simpa using hcond)]
  simp [withEvents, popMail]

theorem credit_outcome (hmail : s.mail x = .activateWrite n :: rest) :
    ∃ s', (s.popMail x).processActivateWrite x n = .ok s' ∧ Outcome s (.deliver x) .done s' := by
  have hsink := h.sink x
  by_cases hcond : (s.pipe x).outActive = false ∧ (s.pipe x).state = .active
  · obtain ⟨hout, hst⟩ := hcond
    refine ⟨_, ?_, .credit (e := update s.events x (s.events x ++ [.writeActivated])) hmail⟩
    simp [processActivateWrite, hout, hst, hsink, withEvents]
  have hsame : ((s.pipe x).outActive || (s.pipe x).state == .active) = (s.pipe x).outActive := by
    cases hout : (s.pipe x).outActive <;> cases hst : (s.pipe x).state <;> simp_all
  refine ⟨_, ?_, .credit (e := s.events) hmail⟩
  rw [hsame]
  simp only [processActivateWrite]
  rw [if_neg (by simpa using hcond)]
  simp [setPipe, withEvents]

/-- A `hiccup` command finds a queue to replace. -/
theorem outPipe_of_hiccup (hmail : s.mail x = .hiccup q :: rest) :
    ∃ q', (s.pipe x).outPipe = some q' := by
  rw [← Option.ne_none_iff_exists']
  intro hnone
  have := h.ownership.pending_of_none h.handshake hnone
  rw [hmail] at this
  cases this

theorem swap_outcome (hmail : s.mail x = .hiccup q' :: rest) :
    ∃ s', (s.popMail x).processHiccup x q' = .ok s' ∧ Outcome s (.deliver x) .done s' := by
  have hsink := h.sink x
  obtain ⟨q, hq⟩ := h.outPipe_of_hiccup hmail
  have hvalid := h.valid_out hq
  obtain ⟨hmsgs, hdrain⟩ := (s.heap q).flush.2.drain_consumes
  have hnormal := hdrain.isNormal.trans (s.heap q).isNormal_flush
  by_cases hst : (s.pipe x).state = .active
  · refine ⟨_, ?_, .swap (e := update s.events x (s.events x ++ [.hiccuped])) hmail hq hnormal⟩
    simp [processHiccup, hq, queue, hvalid, hmsgs, hst, hsink, withEvents]
  · refine ⟨_, ?_, .swap (e := s.events) hmail hq hnormal⟩
    simp [processHiccup, hq, queue, hvalid, hmsgs, hst]
    rfl

theorem term_outcome (hd : s.deallocated x = 0) (hmail : s.mail x = .pipeTerm :: rest) :
    ∃ s', (s.popMail x).processPipeTerm x = .ok s' ∧ Outcome s (.deliver x) .done s' := by
  have hlink := h.handshake x
  rw [hmail] at hlink
  have hheard := hlink.not_heard_of_term
  have hpeer := h.handshake.peer_alive hd (acked_of_not_heard hheard)
  cases hst : (s.pipe x).state with
  | active =>
    cases hdelay : (s.pipe x).delay with
    | true =>
      refine ⟨_, ?_, .wait hmail hst hdelay⟩
      simp [hst, hdelay]
    | false =>
      refine ⟨_, ?_, .answer hmail (.inl ⟨.inl ⟨hst, hdelay⟩, rfl⟩)⟩
      simp [hst, hdelay, hpeer]
  | delimiterReceived =>
    refine ⟨_, ?_, .answer hmail (.inl ⟨.inr hst, rfl⟩)⟩
    simp [hst, hpeer]
  | termReqSent1 =>
    refine ⟨_, ?_, .answer hmail (.inr ⟨hst, rfl⟩)⟩
    simp [hst, hpeer]
  | waitingForDelimiter | termAckSent | termReqSent2 =>
    rw [hst] at hheard
    cases hheard

section
variable (hd : s.deallocated x = 0) (hmail : s.mail x = .pipeTermAck :: rest)
include hd hmail

/-- `pipe_term_ack` finds its receiver in one of the states that can take it. -/
theorem closing_of_ack : (s.pipe x).state.closing = true := by
  have hin := h.handshake x
  have hout := h.handshake.out x
  rw [hmail] at hin
  obtain ⟨hrel, -⟩ := hin.of_ack
  rcases Bool.or_eq_true_iff.mp hrel with hacked | hdead
  · -- the peer has heard the `pipe_term` that `x` has sent
    apply closing_of_asked
    by_contra hne
    have := hout.not_heard (Bool.eq_false_iff.mpr hne)
    rw [heard_of_acked hacked] at this
    cases this
  · -- the peer has got the ack that `x` has sent
    have := hout.sender_released (by simpa using hdead)
    apply closing_of_acked
    simpa [released, hd] using this

theorem ack_outcome :
    ∃ s', (s.popMail x).processPipeTermAck x = .ok s' ∧ Outcome s (.deliver x) .done s' := by
  have hsink := h.sink x
  have hclosing := h.closing_of_ack hd hmail
  have hvalid := h.ownership.allocated.live (h.inPipe_mem hd)
  -- `deallocate` drains a queue that is not conflating
  let u := if (s.pipe x).conflate then s.inbox x else (s.inbox x).drain.2
  have hnormal : u.isNormal = (s.inbox x).isNormal := by
    unfold u
    split
    · rfl
    · exact (s.inbox x).drain_consumes.2.isNormal
  cases hst : (s.pipe x).state with
  | termReqSent1 =>
    have hpeer := h.handshake.peer_alive hd (by rw [hst]; rfl)
    refine ⟨_, ?_, .answerLast
      (e := update s.events x (s.events x ++ [.pipeTerminated])) hmail hst hnormal⟩
    simp [processPipeTermAck, hsink, hst, hpeer, deallocate, queue, hvalid]
    rfl
  | termAckSent | termReqSent2 =>
    refine ⟨_, ?_, .finish
      (e := update s.events x (s.events x ++ [.pipeTerminated])) hmail (by rw [hst]; rfl)
      hnormal⟩
    simp [processPipeTermAck, hsink, hst, deallocate, queue, hvalid]
    rfl
  | active | delimiterReceived | waitingForDelimiter =>
    rw [hst] at hclosing
    cases hclosing

end

end
end deliver

theorem deliver_outcome (h : Sound s) (hmail : s.mail x ≠ []) :
    ∃ s', s.deliver x = .ok s' ∧ Outcome s (.deliver x) .done s' := by
  obtain ⟨c, rest, hc⟩ := exists_cons_of_ne_nil hmail
  have hlink := h.handshake x
  rw [hc] at hlink
  have hd := hlink.alive_of_mem mem_cons_self
  have hdeliver : s.deliver x = (s.popMail x).processCommand x c := by simp [deliver, hc, hd]
  rw [hdeliver]
  cases c with
  | activateRead => exact h.wake_outcome hc
  | activateWrite => exact h.credit_outcome hc
  | hiccup => exact h.swap_outcome hc
  | pipeTerm => exact h.term_outcome hd hc
  | pipeTermAck => exact h.ack_outcome hd hc
  | pipeHwm => exact ⟨_, rfl, .remark hc⟩
  | pipePeerStats => exact ⟨_, rfl, .peerStats hc⟩

theorem alive_of_enabled (h : Sound s) (he : s.Enabled a) : s.deallocated a.side = 0 := by
  cases a with
  | write => exact he.1
  | deliver x =>
    obtain ⟨c, rest, hc⟩ := exists_cons_of_ne_nil he
    exact (h.handshake x).alive_of_mem (hc ▸ mem_cons_self)
  | _ => exact he

/-- Every step of a sound pair returns, with one of the outcomes. -/
theorem step_outcome (h : Sound s) (he : s.Enabled a) (hp : s.Prudent a) :
    ∃ r s', s.step a = .ok (r, s') ∧ Outcome s a r s' := by
  have hd := h.alive_of_enabled he
  cases a with
  | checkRead =>
    obtain ⟨b, s', hs', ho⟩ := h.checkRead_outcome hd
    exact ⟨_, _, congrArg (Except.map _) hs', ho⟩
  | read =>
    obtain ⟨o, s', hs', ho⟩ := h.read_outcome hd
    exact ⟨_, _, congrArg (Except.map _) hs', ho⟩
  | checkWrite x => exact ⟨_, _, rfl, checkWrite_outcome s x⟩
  | write =>
    obtain ⟨b, s', hs', ho⟩ := h.write_outcome hd he.2
    exact ⟨_, _, congrArg (Except.map _) hs', ho⟩
  | rollback x =>
    obtain ⟨s', hs', ho⟩ := h.rollback_outcome x
    exact ⟨_, _, congrArg (Except.map _) hs', ho⟩
  | flush =>
    obtain ⟨s', hs', ho⟩ := h.flush_outcome hd
    exact ⟨_, _, congrArg (Except.map _) hs', ho⟩
  | setNodelay => exact ⟨_, _, rfl, .setNodelay⟩
  | hiccup =>
    obtain ⟨s', hs', ho⟩ := h.hiccup_outcome hd
    exact ⟨_, _, congrArg (Except.map _) hs', ho⟩
  | terminate x delay =>
    obtain ⟨s', hs', ho⟩ := h.terminate_outcome hd delay
    exact ⟨_, _, congrArg (Except.map _) hs', ho⟩
  | updateHwms x =>
    refine ⟨.done, _, ?_, .marks hp⟩
    have hpeer : s.deallocated x.peer = 0 := h.handshake.peer_alive hd hp
    simp [step, updateHwms, hpeer, Except.map]
  | sendStatsToPeer x =>
    refine ⟨.done, _, ?_, .stats hp⟩
    have hpeer : s.deallocated x.peer = 0 := h.handshake.peer_alive hd hp
    simp [step, sendStatsToPeer, hpeer, Except.map]
  | deliver =>
    obtain ⟨s', hs', ho⟩ := h.deliver_outcome he
    exact ⟨_, _, congrArg (Except.map _) hs', ho⟩

theorem outcome_of_step (h : Sound s) (hs : Step s (a, r) s') (hp : s.Prudent a) :
    Outcome s a r s' := by
  obtain ⟨r', s'', hs'', ho⟩ := h.step_outcome hs.1 hp
  have heq := hs.2.symm.trans hs''
  cases heq
  exact ho

theorem step (h : Sound s) (hs : Step s (a, r) s') (hp : s.Prudent a) : Sound s' :=
  h.outcome (h.alive_of_enabled hs.1) (h.outcome_of_step hs hp)

end Sound
end PipePair
end LibZmq
