import LibZmq.Pipe.Progress

/-!
# The two directions of traffic

How the queue a writer writes to and the queue its peer reads from are related,
for the results about messages. Either they are the same queue, or new queues are
on the way to the writer and the reader's one is still empty.

`NoConflate` singles out the pairs with ordinary queues only.
-/

namespace LibZmq

namespace PipePair

open LibZmq.Core UPipe LibZmq.PipePair.Action Function List

variable {s s' : PipePair} {a : Action} {r : Reply} {x : Side} {rest : List Command}
  {P : Msg → Prop} {u v : UPipe} {u : UPipe}

/-! ## Which queues are the same -/

namespace Sound

theorem inPipe_ne_outPipe (h : Sound s) (hd : s.deallocated x = 0)
    (hq : (s.pipe x).outPipe = some q) : q ≠ (s.pipe x).inPipe := by
  intro e
  exact h.ownership.allocated.disjoint (Side.ne_peer x) (h.inPipe_mem hd)
    (e ▸ Ownership.mem_inbound_of_outPipe hq)

theorem inPipe_ne_inPipe (h : Sound s) (hd : s.deallocated x = 0) (hp : s.deallocated x.peer = 0) :
    (s.pipe x.peer).inPipe ≠ (s.pipe x).inPipe := by
  intro e
  exact h.ownership.allocated.disjoint (Side.ne_peer x) (h.inPipe_mem hd) (e ▸ h.inPipe_mem hp)

/-- The queue of the writer `x` and that of the reader on the other side. -/
theorem attached_or_fresh (h : Sound s) (hq : (s.pipe x).outPipe = some q) :
    (s.pipe x.peer).inPipe = q ∧ pending (s.mail x) = [] ∨
      (s.pipe x.peer).inPipe ∈ pending (s.mail x) ∧ Fresh (s.inbox x.peer) := by
  have hlast := h.ownership.last x.peer q (by simpa using hq)
  rw [Side.peer_peer] at hlast
  cases hp : (pending (s.mail x)).getLast? with
  | none =>
    rw [hp] at hlast
    exact .inl ⟨hlast, getLast?_eq_none_iff.mp hp⟩
  | some =>
    rw [hp] at hlast
    have hmem : (s.pipe x.peer).inPipe ∈ pending (s.mail x) := hlast ▸ mem_of_getLast? hp
    exact .inr ⟨hmem, h.contents.fresh x _ hmem⟩

end Sound

/-! ## Ordinary queues -/

/-- No queue of the pair conflates. -/
structure NoConflate (s : PipePair) : Prop where
  heap : ∀ q, (s.heap q).isNormal = true
  pipe : ∀ x, (s.pipe x).conflate = false

theorem heap_start (hwm₀ hwm₁ : Int) (q : QueueId) :
    (start hwm₀ hwm₁ false false).heap q = new false := by
  change new (if q = 0 then false else false) = _
  rw [ite_self]

theorem noConflate_start (hwm₀ hwm₁ : Int) : NoConflate (start hwm₀ hwm₁ false false) where
  heap q := by rw [heap_start]; rfl
  pipe x := by cases x <;> rfl

theorem NoConflate.outcome (h : NoConflate s) (ho : Outcome s a r s') : NoConflate s' := by
  have hstore : ∀ {q₀ : QueueId} {u : UPipe}, u.isNormal = true →
      ∀ q, (update s.heap q₀ u q).isNormal = true := by
    intro q₀ u hu q
    by_cases e : q = q₀
    · rw [e, update_self]
      exact hu
    · rw [update_of_ne e]
      exact h.heap q
  have hsealed : ∀ q, (sealed (s.heap q)).isNormal = true := by
    intro q
    rw [sealed, isNormal_flush, isNormal_write, (s.heap q).unwriteAll_spec.2.1]
    exact h.heap q
  refine ⟨?_, fun z => (ho.constants z).2.trans (h.pipe z)⟩
  cases ho with
  | idle | full | setNodelay | ignored | marks | stats | wake | credit | wait | answer | remark
  | peerStats => exact h.heap
  | look _ _ _ hc | sleep _ _ _ hc | delimiter _ _ _ _ hc | lastDelimiter _ _ _ _ hc =>
    exact hstore (hc.isNormal.trans (h.heap _))
  | take _ _ _ _ hc =>
    rw [postIf_heap]
    exact hstore (hc.isNormal.trans (h.heap _))
  | put => exact hstore ((isNormal_write _ _ _).trans (h.heap _))
  | @unput x q | @giveUp x q => exact hstore ((s.heap q).unwriteAll_spec.2.1.trans (h.heap _))
  | publish =>
    rw [postIf_heap]
    exact hstore ((isNormal_flush _).trans (h.heap _))
  | @hiccup x => exact hstore (by simp [h.pipe x])
  | close | closeAgain =>
    rw [postIf_heap]
    exact hstore (hsealed _)
  | swap _ _ hu | answerLast _ _ hu | finish _ _ hu => exact hstore (hu.trans (h.heap _))

/-- What a reader finds after its peer has written the delimiter. -/
theorem sealed_spec (hn : u.isNormal = true) :
    (sealed u).readable = u.readable ++ u.ready ++ [Msg.initDelimiter] ∧ (sealed u).ready = [] ∧
      sealWakes u = u.asleep := by
  obtain ⟨-, hnorm, hread, hready, hunf, hasl⟩ := u.unwriteAll_spec
  rw [hn] at hnorm
  have hnw := (isNormal_write u.unwriteAll.2 .initDelimiter false).trans hnorm
  obtain ⟨h1, -, h3, h4, -, -⟩ := flush_spec hnw
  have hw : (u.unwriteAll.2.write .initDelimiter false).ready = u.ready ++ [.initDelimiter] := by
    rw [ready_write hnorm, hready, hunf]
    simp
  refine ⟨?_, h4, ?_⟩
  · rw [sealed, h3, readable_write hnorm, hread, hw, append_assoc]
  · rw [sealWakes, h1, hw, asleep_write, hasl]
    simp

/-! ## The traffic from one writer

`Flow` describes a step from the point of view of one direction: what happened to
the queue that the writer `w` writes to and to the two counters, and what can be
seen of it from outside.
-/

/-- What a step means for the messages from one writer to its reader. -/
inductive Signal where
  | silent
  /-- The writer has got a part accepted. -/
  | wrote (m : Msg)
  /-- The writer has dropped its unfinished message. -/
  | dropped
  /-- The writer has dropped its unfinished message and has written the delimiter. -/
  | closed
  /-- The reader has got a part. -/
  | took (m : Msg)
  /-- The reader has replaced its queue. -/
  | hiccuped
  /-- The writer has plugged in a new queue. -/
  | swapped
deriving DecidableEq

/-- The next command for `x` is a `hiccup`. -/
def hiccupNext (s : PipePair) (x : Side) : Bool :=
  ((s.mail x).head?.bind Command.hiccupQueue).isSome

/-- The signal of a step, from the call, its reply and the state before. -/
def signal (s : PipePair) (w : Side) : Action × Reply → Signal
  | (.write x m, .flag true) => if x = w then .wrote m else .silent
  | (.rollback x, _) => if x = w then .dropped else .silent
  | (.terminate x _, _) =>
      if x = w ∧ (s.pipe x).state.closing = false then .closed else .silent
  | (.read x, .message (some m)) => if x = w.peer then .took m else .silent
  | (.hiccup x, _) => if x = w.peer ∧ (s.pipe x).state = .active then .hiccuped else .silent
  | (.deliver x, _) =>
      if x = w ∧ s.hiccupNext x then .swapped else .silent
  | _ => .silent

section signal
variable {w : Side}

theorem signal_wrote (h : signal s w (a, r) = .wrote m) : a = .write w m ∧ r = .flag true := by
  unfold signal at h
  grind

theorem signal_took (h : signal s w (a, r) = .took m) :
    a = .read w.peer ∧ r = .message (some m) := by
  unfold signal at h
  grind

theorem signal_closed (h : signal s w (a, r) = .closed) : ∃ delay, a = .terminate w delay := by
  unfold signal at h
  grind

theorem signal_swapped (h : signal s w (a, r) = .swapped) :
    a = .deliver w ∧ s.hiccupNext w = true := by
  unfold signal at h
  grind

theorem signal_hiccuped (h : signal s w (a, r) = .hiccuped) :
    a = .hiccup w.peer ∧ (s.pipe w.peer).state = .active := by
  unfold signal at h
  grind

end signal

theorem hiccupNext_cons (h : s.mail x = c :: rest) : s.hiccupNext x = c.hiccupQueue.isSome := by
  simp [hiccupNext, h]

attribute [local simp] signal complete

theorem signal_deliver_peer (s : PipePair) (x : Side) :
    signal s x.peer (.deliver x, .done) = .silent := by
  simp

theorem signal_terminate_peer (s : PipePair) (x : Side) (delay : Bool) :
    signal s x.peer (.terminate x delay, .done) = .silent := by
  simp

/-- The delivery of anything but a `hiccup`. -/
theorem signal_deliver (hmail : s.mail x = c :: rest)
    (hc : c.hiccupQueue = none) (w : Side) : signal s w (.deliver x, .done) = .silent := by
  rcases x.eq_or_eq_peer w with rfl | rfl
  · simp [hiccupNext_cons hmail, hc]
  · exact signal_deliver_peer s x

theorem hiccupNext_of_pending_nil (h : pending (s.mail x) = []) : s.hiccupNext x = false := by
  cases hmail : s.mail x with
  | nil => simp [hiccupNext, hmail]
  | cons c =>
    rw [hiccupNext_cons hmail]
    rw [hmail, pending] at h
    cases hc : c.hiccupQueue with
    | none => rfl
    | some => simp [hc] at h

/-- The queues hold the same messages; more of them may be flushed. -/
structure SameMessages (u v : UPipe) : Prop where
  complete : v.complete = u.complete
  published : v.readable = u.readable ∧ v.ready = u.ready ∨ v.readable = u.complete ∧ v.ready = []
  unfinished : v.unfinished = u.unfinished

/-- The counters of the writer `w` and of its reader are the same. -/
structure SameCounts (s s' : PipePair) (w : Side) : Prop where
  written : (s'.pipe w).msgsWritten = (s.pipe w).msgsWritten
  read : (s'.pipe w.peer).msgsRead = (s.pipe w.peer).msgsRead

/-- A step, seen from the writer `w` and its reader. -/
inductive Flow (s s' : PipePair) (w : Side) : Signal → Prop where
  /-- The writer has no queue any more. -/
  | gone {g} : (s'.pipe w).outPipe = none → g = .silent ∨ g = .dropped ∨ g = .closed → Flow s s' w g
  | still {q} : (s.pipe w).outPipe = some q → (s'.pipe w).outPipe = some q →
      SameMessages (s.heap q) (s'.heap q) → pending (s'.mail w) = pending (s.mail w) →
      SameCounts s s' w → Flow s s' w .silent
  /-- The reader has got `m`. -/
  | take {q skipped m} : (s.pipe w).outPipe = some q → (s'.pipe w).outPipe = some q →
      pending (s.mail w) = [] → pending (s'.mail w) = [] →
      (∀ c ∈ skipped, c.isCredential = true) → m.isCredential = false → m.isDelimiter = false →
      Consumes (s.heap q) (skipped ++ [m]) (s'.heap q) →
      (s'.pipe w).msgsWritten = (s.pipe w).msgsWritten →
      s'.pipe w.peer = (s.pipe w.peer).countRead m → Flow s s' w (.took m)
  /-- The reader has thrown credentials or a delimiter away. -/
  | skip {q l} : (s.pipe w).outPipe = some q → (s'.pipe w).outPipe = some q →
      pending (s.mail w) = [] → pending (s'.mail w) = [] →
      (∀ c ∈ l, c.isCredential = true ∨ c.isDelimiter = true) →
      Consumes (s.heap q) l (s'.heap q) → SameCounts s s' w → Flow s s' w .silent
  | put {q m} : (s.pipe w).outPipe = some q → m.isDelimiter = false →
      (s.pipe w).state = .active → s'.heap q = (s.heap q).write m m.hasMore →
      pending (s'.mail w) = pending (s.mail w) →
      s'.pipe w = (s.pipe w).countWritten m → s'.pipe w.peer = s.pipe w.peer →
      Flow s s' w (.wrote m)
  | drop {q} : (s.pipe w).outPipe = some q → (s'.pipe w).outPipe = some q →
      (s'.heap q).readable = (s.heap q).readable → (s'.heap q).ready = (s.heap q).ready →
      (s'.heap q).unfinished = [] → pending (s'.mail w) = pending (s.mail w) →
      SameCounts s s' w → Flow s s' w .dropped
  | close {q} : (s.pipe w).outPipe = some q → (s'.pipe w).outPipe = some q →
      (s'.heap q).readable = (s.heap q).complete ++ [.initDelimiter] →
      (s'.heap q).ready = [] → (s'.heap q).unfinished = [] →
      pending (s'.mail w) = pending (s.mail w) →
      SameCounts s s' w → Flow s s' w .closed
  /-- The reader has started a new queue. -/
  | detach {q q'} : (s.pipe w).outPipe = some q → (s'.pipe w).outPipe = some q →
      s'.heap q = s.heap q → pending (s'.mail w) = pending (s.mail w) ++ [q'] →
      SameCounts s s' w → Flow s s' w .hiccuped
  /-- The writer has got the new queue. -/
  | swap {q q'} : (s.pipe w).outPipe = some q → (s'.pipe w).outPipe = some q' →
      Fresh (s'.heap q') → pending (s.mail w) = q' :: pending (s'.mail w) →
      (s'.pipe w).msgsWritten = ((s.pipe w).discountWritten (s.heap q).complete).msgsWritten →
      s'.pipe w.peer = s.pipe w.peer → Flow s s' w .swapped

namespace Flow

variable {w : Side}

/-- Nothing has happened to the messages of `w`. -/
theorem of_same (hout : (s'.pipe w).outPipe = (s.pipe w).outPipe)
    (hheap : ∀ q, (s.pipe w).outPipe = some q → SameMessages (s.heap q) (s'.heap q))
    (hpend : pending (s'.mail w) = pending (s.mail w)) (hcounts : SameCounts s s' w) :
    Flow s s' w .silent := by
  cases hq : (s.pipe w).outPipe with
  | none => exact .gone (hout.trans hq) (.inl rfl)
  | some q => exact .still hq (hout.trans hq) (hheap q hq) hpend hcounts

end Flow

theorem SameMessages.refl (u : UPipe) : SameMessages u u := ⟨rfl, .inl ⟨rfl, rfl⟩, rfl⟩

theorem SameMessages.of_eq (h : v = u) : SameMessages u v := h ▸ .refl u

theorem complete_consumes (h : Consumes u l v) : u.complete = l ++ v.complete := by
  rw [complete, complete, h.readable, h.ready, append_assoc]

/-- A message without the `more` flag completes what was begun. -/
theorem complete_write (hn : u.isNormal = true) (m : Msg) (more : Bool) :
    (u.write m more).complete = u.complete ++ if more then [] else u.unfinished ++ [m] := by
  rw [complete, complete, readable_write hn, ready_write hn]
  cases more <;> simp

namespace Sound

theorem exists_writer (h : Sound s) (hd : s.deallocated x = 0)
    (hst : (s.pipe x).state.reading = true) : ∃ q, (s.pipe x.peer).outPipe = some q :=
  h.ownership.exists_outPipe_peer h.handshake hd (PipeState.asked_of_reading hst)
    (PipeState.acked_of_reading hst)

/-- What a reader does to its queue, seen from the writer: it takes the messages from the
writer's queue, or it takes nothing from a new one. -/
theorem reads_from_writer (h : Sound s) (hq : (s.pipe x.peer).outPipe = some q)
    (hc : Consumes (s.inbox x) l u) :
    (pending (s.mail x.peer) = [] ∧ Consumes (s.heap q) l (update s.heap (s.pipe x).inPipe u q)) ∨
      (l = [] ∧ update s.heap (s.pipe x).inPipe u q = s.heap q) := by
  have hatt := h.attached_or_fresh hq
  rw [Side.peer_peer] at hatt
  rcases hatt with ⟨rfl, hpend⟩ | ⟨hmem, hfresh⟩
  · left
    rw [update_self]
    exact ⟨hpend, hc⟩
  right
  have hread := hc.readable
  rw [hfresh.readable, eq_comm, append_eq_nil_iff] at hread
  refine ⟨hread.1, ?_⟩
  rw [update_of_ne]
  exact (h.ownership.outPipe_ne h.handshake hq hmem).symm

/-- Reading does not touch the queue an end writes to. -/
theorem sameMessages_of_read (h : Sound s) (hd : s.deallocated x = 0) (u : UPipe) (q : QueueId)
    (hq : (s.pipe x).outPipe = some q) :
    SameMessages (s.heap q) (update s.heap (s.pipe x).inPipe u q) :=
  .of_eq (update_of_ne (h.inPipe_ne_outPipe hd hq) _ _)

/-- Writing does not touch the queue of the other writer. -/
theorem heap_of_write (h : Sound s) (u : UPipe) (hq : (s.pipe x).outPipe = some q) (q' : QueueId)
    (hq' : (s.pipe x.peer).outPipe = some q') : update s.heap q u q' = s.heap q' := by
  apply update_of_ne
  rintro rfl
  exact Side.peer_ne x (h.ownership.writer_unique hq hq')

/-- An end that gets the last acknowledgement has no writer any more. -/
theorem no_writer_of_ack (h : Sound s)
    (hmail : s.mail x = .pipeTermAck :: rest) : (s.pipe x.peer).outPipe = none := by
  have hin := h.handshake x
  rw [hmail] at hin
  exact (h.ownership.outPipe_none x.peer).mpr hin.of_ack.1

end Sound

/-- The step seen from the writer's side: `x` acts on the messages it writes. -/
theorem Outcome.flow_writer (ho : Outcome s a r s') (h : Sound s) (hn : NoConflate s)
    (hd : s.deallocated a.side = 0) : Flow s s' a.side (signal s a.side (a, r)) := by
  cases ho with
  | idle hidle =>
    have hsame : Flow s s a.side .silent := .of_same rfl (fun _ _ => .refl _) rfl ⟨rfl, rfl⟩
    cases hidle with
    | noMessage hno | refused hno => cases hno <;> exact hsame
    | checkWrite | flush => exact hsame
    | hiccup => simpa using hsame
    | rollback hq => exact .gone hq (by simp)
  | look => exact .of_same rfl (h.sameMessages_of_read hd _) rfl ⟨rfl, rfl⟩
  | @sleep x _ _ u hno | @delimiter x _ _ _ _ u hno =>
    cases hno <;> exact .of_same (by simp) (h.sameMessages_of_read hd u) rfl ⟨by simp, by simp⟩
  | @take x skipped m u =>
    rw [Action.side, show signal s x (.read x, .message (some m)) = .silent by simp]
    refine .of_same (by simp) ?_ (pending_postIf _ _ _ rfl x) ⟨by simp, by simp⟩
    simpa using h.sameMessages_of_read hd u
  | lastDelimiter hno => cases hno <;> exact .gone (by simp) (by simp)
  | full hno =>
    cases hno <;> exact .of_same (by simp) (fun _ _ => .refl _) rfl ⟨by simp, by simp⟩
  | @put x m q hm _ hst _ hq =>
    rw [Action.side, show signal s x (.write x m, .flag true) = .wrote m by simp]
    exact .put hq hm hst (by simp) rfl (by simp) (by simp)
  | @unput x q hq =>
    obtain ⟨-, -, hread, hready, hunf, -⟩ := (s.heap q).unwriteAll_spec
    rw [Action.side, show signal s x (.rollback x, .done) = .dropped by simp]
    exact .drop hq hq (by simpa using hread) (by simpa using hready) (by simpa using hunf) rfl
      ⟨rfl, rfl⟩
  | @publish x q _ hq =>
    -- complete messages become readable, and stay in order
    obtain ⟨-, -, hread, hready, hunf, -⟩ := flush_spec (hn.heap q)
    refine .of_same (by simp) ?_ (pending_postIf _ _ _ rfl x) ⟨by simp, by simp⟩
    intro q' hq'
    obtain rfl : q = q' := by simpa [hq] using hq'
    simp only [postIf_heap, store_heap, update_self]
    refine ⟨?_, .inr ⟨hread, hready⟩, hunf⟩
    rw [complete, hread, hready, append_nil, complete]
  | setNodelay => exact .of_same (by simp) (fun _ _ => .refl _) rfl ⟨by simp, by simp⟩
  | @hiccup x =>
    rw [Action.side, show signal s x (.hiccup x, .done) = .silent by simp]
    refine .of_same (by simp) ?_ (by simp) ⟨by simp, by simp⟩
    intro q hq
    have hlt := (h.valid_out hq).1
    exact .of_eq (by simp [Nat.ne_of_lt hlt])
  | @ignored x delay hst =>
    rw [Action.side, show signal s x (.terminate x delay, .done) = .silent by simp [hst]]
    exact .of_same (by simp) (fun _ _ => .refl _) rfl ⟨by simp, by simp⟩
  | @close x delay q hst hq =>
    obtain ⟨hread, hready, -⟩ := sealed_spec (hn.heap q)
    have hclosing : (s.pipe x).state.closing = false := by rcases hst with e | e <;> rw [e] <;> rfl
    rw [Action.side, show signal s x (.terminate x delay, .done) = .closed by
      simp [hclosing]]
    exact .close hq (by simpa using hq) (by simp [hread]) (by simpa using hready)
      (by simp [unfinished_sealed]) (by simp [postIf_mail]) ⟨by simp, by simp⟩
  | @closeAgain x q hst hq =>
    obtain ⟨hread, hready, -⟩ := sealed_spec (hn.heap q)
    rw [Action.side, show signal s x (.terminate x true, .done) = .closed by
      simp [hst, PipeState.closing]]
    exact .close hq (by simpa using hq) (by simp [hread]) (by simpa using hready)
      (by simp [unfinished_sealed]) (by simp [postIf_mail]) ⟨by simp, by simp⟩
  | giveUp hst => exact .gone (by simp) (by simp [hst, PipeState.closing])
  | marks => exact .of_same (by simp) (fun _ _ => .refl _) (by simp) ⟨by simp, by simp⟩
  | stats => exact .of_same rfl (fun _ _ => .refl _) (by simp) ⟨rfl, rfl⟩
  | @wake x rest e hmail | @credit x n rest e hmail | @wait x rest hmail
  | @remark x i o rest hmail =>
    rw [signal_deliver hmail rfl]
    exact .of_same (by simp) (fun _ _ => .refl _) (pending_pop hmail rfl x) ⟨by simp, by simp⟩
  | @swap x q q' rest u e hmail hq =>
    -- a queue on its way to the writer is not the one it has
    have hmem : q' ∈ pending (s.mail x) := by rw [hmail]; exact mem_cons_self
    have hne : q' ≠ q := h.ownership.outPipe_ne h.handshake hq hmem
    rw [Action.side, show signal s x (.deliver x, .done) = .swapped by
      simp [hiccupNext_cons hmail, Command.hiccupQueue]]
    refine .swap hq (show _ = some q' by simp) ?_ (by simp [hmail]) ?_ (by simp)
    · simpa [hne] using h.contents.fresh x q' hmem
    · simp [(flush_spec (hn.heap q)).2.2.1]
  | @answer x rest st hmail | @answerLast x rest u e hmail =>
    rw [signal_deliver hmail rfl]
    exact .gone (by simp) (.inl rfl)
  | @finish x rest u e hmail hst =>
    rw [signal_deliver hmail rfl]
    exact .gone ((h.ownership.outPipe_none x).mpr (by simp [released, hst])) (.inl rfl)
  | @peerStats x n rest e hmail =>
    rw [signal_deliver hmail rfl]
    exact .of_same rfl (fun _ _ => .refl _) (pending_pop hmail rfl x) ⟨rfl, rfl⟩

namespace Flow

/-- The reader has looked at its queue and has perhaps thrown something away. -/
theorem of_reads (h : Sound s) (hc : Consumes (s.inbox x) l u)
    (hl : ∀ c ∈ l, c.isCredential = true ∨ c.isDelimiter = true)
    (hheap : s'.heap = update s.heap (s.pipe x).inPipe u) (hpeer : s'.pipe x.peer = s.pipe x.peer)
    (hpend : pending (s'.mail x.peer) = pending (s.mail x.peer))
    (hread : (s'.pipe x).msgsRead = (s.pipe x).msgsRead) : Flow s s' x.peer .silent := by
  have hcounts : SameCounts s s' x.peer := ⟨by rw [hpeer], by rwa [Side.peer_peer]⟩
  cases hq : (s.pipe x.peer).outPipe with
  | none => exact .gone (by rw [hpeer, hq]) (.inl rfl)
  | some q =>
    have hq' : (s'.pipe x.peer).outPipe = some q := by rw [hpeer, hq]
    rcases h.reads_from_writer hq hc with ⟨hnone, htake⟩ | ⟨rfl, hsame⟩
    · exact .skip hq hq' hnone (hpend.trans hnone) hl (hheap ▸ htake) hcounts
    · exact .still hq hq' (.of_eq (hheap ▸ hsame)) hpend hcounts

theorem of_writes (hpeer : s'.pipe x.peer = s.pipe x.peer)
    (hheap : ∀ q, (s.pipe x.peer).outPipe = some q → s'.heap q = s.heap q)
    (hpend : pending (s'.mail x.peer) = pending (s.mail x.peer))
    (hread : (s'.pipe x).msgsRead = (s.pipe x).msgsRead) : Flow s s' x.peer .silent :=
  .of_same (by rw [hpeer]) (fun q hq => .of_eq (hheap q hq)) hpend
    ⟨by rw [hpeer], by rwa [Side.peer_peer]⟩

end Flow

theorem skipped_or_delimiter {d : Msg}
    (hs : ∀ c ∈ skipped, c.isCredential = true) (hd : d.isDelimiter = true) :
    ∀ c ∈ skipped ++ [d], c.isCredential = true ∨ c.isDelimiter = true := by
  intro c hc
  rcases mem_append.mp hc with hc | hc
  · exact .inl (hs c hc)
  · exact .inr (mem_singleton.mp hc ▸ hd)

section
variable (ho : Outcome s a r s') (h : Sound s) (hd : s.deallocated a.side = 0)
include ho h hd

/-- The step seen from the reader's side: `x` acts on the messages of its peer. -/
theorem Outcome.flow_reader : Flow s s' a.side.peer (signal s a.side.peer (a, r)) := by
  cases ho with
  | idle hidle =>
    have hsame : Flow s s a.side.peer .silent := .of_same rfl (fun _ _ => .refl _) rfl ⟨rfl, rfl⟩
    cases hidle with
    | noMessage hno | refused hno => cases hno <;> exact hsame
    | checkWrite | flush => exact hsame
    | @hiccup x hst => simpa [hst] using hsame
    | rollback => simpa using hsame
  | look hmay _ hm hc => exact .of_reads h hc (by simp) rfl rfl rfl rfl
  | sleep hno _ hcred hc =>
    cases hno <;>
      exact .of_reads h hc (fun c hmem => .inl (hcred c hmem)) rfl (by simp) rfl (by simp)
  | @take x skipped m u hmay hs hm hd' hc =>
    -- something was read, so the queue is the writer's one
    obtain ⟨q, hq⟩ := h.exists_writer hd (Pipe.mayRead_iff.mp hmay).2
    obtain ⟨hpend, htake⟩ := (h.reads_from_writer hq hc).resolve_right (by simp)
    rw [Action.side, show signal s x.peer (.read x, .message (some m)) = .took m by simp]
    refine .take hq (by simpa using hq) hpend ?_ hs hm hd' (by simpa using htake) (by simp)
      (by simp)
    exact (pending_postIf _ _ _ rfl _).trans hpend
  | delimiter hno _ hs hd' hc =>
    cases hno <;> exact .of_reads h hc (skipped_or_delimiter hs hd') rfl (by simp) rfl (by simp)
  | lastDelimiter hno _ hs hd' hc =>
    cases hno <;>
      exact .of_reads h hc (skipped_or_delimiter hs hd') rfl (by simp) (by simp) (by simp)
  | full hno => cases hno <;> exact .of_writes (by simp) (fun _ _ => rfl) rfl (by simp)
  | @put x m q hm _ hst _ hq =>
    rw [Action.side, show signal s x.peer (.write x m, .flag true) = .silent by simp]
    exact .of_writes (by simp) (h.heap_of_write _ hq) rfl (by simp)
  | @unput x q hq =>
    rw [Action.side, show signal s x.peer (.rollback x, .done) = .silent by simp]
    exact .of_writes rfl (h.heap_of_write _ hq) rfl rfl
  | publish _ hq =>
    exact .of_writes (by simp) (by simpa using h.heap_of_write _ hq)
      (pending_postIf _ _ _ rfl _) (by simp)
  | setNodelay => exact .of_writes (by simp) (fun _ _ => rfl) rfl (by simp)
  | @hiccup x hst =>
    obtain ⟨q, hq⟩ := h.exists_writer hd (by rw [Action.side, hst]; rfl)
    rw [Action.side, show signal s x.peer (.hiccup x, .done) = .hiccuped by simp [hst]]
    exact .detach hq (by simpa using hq) (by simp [Nat.ne_of_lt (h.valid_out hq).1])
      (show _ = _ ++ [s.created] by simp) ⟨by simp, by simp⟩
  | ignored =>
    rw [Action.side, signal_terminate_peer]
    exact .of_writes (by simp) (fun _ _ => rfl) rfl (by simp)
  | close hst hq =>
    rw [Action.side, signal_terminate_peer]
    refine .of_writes (by simp) (by simpa using h.heap_of_write _ hq) ?_ (by simp)
    exact (pending_postIf _ _ _ rfl _).trans (pending_post rfl _)
  | closeAgain hst hq =>
    rw [Action.side, signal_terminate_peer]
    exact .of_writes (by simp) (by simpa using h.heap_of_write _ hq)
      (pending_postIf _ _ _ rfl _) (by simp)
  | giveUp _ hq =>
    rw [Action.side, signal_terminate_peer]
    exact .of_writes (by simp) (h.heap_of_write _ hq) (pending_post rfl _) (by simp)
  | marks => exact .of_writes (by simp) (fun _ _ => rfl) (pending_post rfl _) (by simp)
  | stats => exact .of_writes rfl (fun _ _ => rfl) (pending_post rfl _) rfl
  | @wake x rest e hmail | @credit x n rest e hmail | @wait x rest hmail
  | remark hmail =>
    rw [Action.side, signal_deliver_peer]
    exact .of_writes (by simp) (fun _ _ => rfl) (pending_pop hmail rfl _) (by simp)
  | @swap x q q' rest u e hmail hq =>
    rw [Action.side, signal_deliver_peer]
    exact .of_writes (by simp) (h.heap_of_write u hq) (by simp) (by simp)
  | answer hmail =>
    rw [Action.side, signal_deliver_peer]
    exact .of_writes (by simp) (fun _ _ => rfl)
      ((pending_post rfl _).trans (pending_pop hmail rfl _)) (by simp)
  | @answerLast x rest u e hmail | @finish x rest u e hmail =>
    rw [Action.side, signal_deliver_peer]
    exact .gone (by simpa using h.no_writer_of_ack hmail) (.inl rfl)
  | peerStats hmail =>
    rw [Action.side, signal_deliver_peer]
    exact .of_writes rfl (fun _ _ => rfl) (pending_pop hmail rfl _) rfl

/-- **Every step of a pair of ordinary pipes is one of the listed things for the messages
of either writer.** -/
theorem Outcome.flow (hn : NoConflate s) (w : Side) : Flow s s' w (signal s w (a, r)) := by
  rcases a.side.eq_or_eq_peer w with rfl | rfl
  · exact ho.flow_writer h hn hd
  · exact ho.flow_reader h hd

end

/-- Without a `hiccup` of the reader no queue is on its way to the writer. -/
theorem Flow.pending_nil (hf : Flow s s' w g) (hout : (s'.pipe w).outPipe ≠ none)
    (hg : g ≠ .hiccuped) (h : pending (s.mail w) = []) : pending (s'.mail w) = [] := by
  cases hf with
  | gone hnone => exact absurd hnone hout
  | still _ _ _ hpend | put _ _ _ _ hpend | drop _ _ _ _ _ hpend | close _ _ _ _ _ hpend =>
    exact hpend.trans h
  | take _ _ _ hpend | skip _ _ _ hpend => exact hpend
  | detach => exact absurd rfl hg
  | swap _ _ _ hpend =>
    rw [h] at hpend
    cases hpend

/-! ## What kind of messages there are -/

theorem of_outPipe {P : QueueId → Prop} (hq : out = some q)
    (h : P q) : ∀ q', out = some q' → P q' := by
  intro q' hq'
  obtain rfl : q = q' := Option.some.inj (hq.symm.trans hq')
  exact h

/-- Every message on the way from `w`, complete or not, has the property `P`. -/
def Carries (P : Msg → Prop) (s : PipePair) (w : Side) : Prop :=
  ∀ q, (s.pipe w).outPipe = some q →
    (∀ m ∈ (s.heap q).complete, P m) ∧ ∀ m ∈ (s.heap q).unfinished, P m

theorem carries_start (w : Side) : Carries P (start hwm₀ hwm₁ false false) w := by
  intro q _
  simp [heap_start]

/-- Nothing but what the writer writes gets into its queue, as long as it does not close. -/
theorem Flow.carries (hf : Flow s s' w g) (hn : NoConflate s) (h : Carries P s w)
    (hwrote : ∀ m, g = .wrote m → m.isDelimiter = false → P m) (hclosed : g ≠ .closed) :
    Carries P s' w := by
  cases hf with
  | gone hnone =>
    intro q hq
    rw [hnone] at hq
    cases hq
  | @still q hq hout hsame =>
    refine of_outPipe hout ?_
    rw [hsame.complete, hsame.unfinished]
    exact h q hq
  | @take q _ _ hq hout _ _ _ _ _ hc | @skip q _ hq hout _ _ _ hc =>
    refine of_outPipe hout ?_
    obtain ⟨hcomplete, hunf⟩ := h q hq
    rw [complete_consumes hc] at hcomplete
    rw [hc.unfinished]
    exact ⟨fun m hm => hcomplete m (mem_append_right _ hm), hunf⟩
  | @put q m hq hd _ hheap _ hpipe =>
    refine of_outPipe (hpipe ▸ hq : (s'.pipe w).outPipe = some q) ?_
    obtain ⟨hcomplete, hunf⟩ := h q hq
    rw [hheap, complete_write (hn.heap q), unfinished_write, hn.heap q, Bool.true_and]
    have hm := hwrote m rfl hd
    cases m.hasMore with
    | false =>
      simp only [Bool.false_eq_true, if_false, mem_append, mem_singleton]
      refine ⟨?_, by simp⟩
      rintro p (hp | hp | rfl)
      · exact hcomplete p hp
      · exact hunf p hp
      · exact hm
    | true =>
      simp only [if_true, append_nil, mem_append, mem_singleton]
      refine ⟨hcomplete, ?_⟩
      rintro p (hp | rfl)
      · exact hunf p hp
      · exact hm
  | @drop q hq hout hread hready hunf =>
    refine of_outPipe hout ?_
    rw [complete, hread, hready, hunf]
    exact ⟨(h q hq).1, by simp⟩
  | close => exact absurd rfl hclosed
  | @detach q _ hq hout hheap =>
    refine of_outPipe hout ?_
    rw [hheap]
    exact h q hq
  | swap _ hout hfresh =>
    refine of_outPipe hout ?_
    simp [hfresh.readable, hfresh.ready, hfresh.unfinished]

end PipePair
end LibZmq
