import LibZmq.Pipe.Pair

/-!
# What a step can do

`Outcome s a r s'` lists everything that an action `a` can do to a pair of pipe
ends, with the reply `r` the caller gets: one constructor per branch of the code
that returns, with the condition of the branch and the state it leaves. That
the steps of a well-formed pair are among them is shown in `LibZmq.Pipe.Progress`;
the invariants of the other modules only look at outcomes.

What a step tells the owner has no influence on later steps, so the state after a
delivery is given up to `events`.
-/

namespace LibZmq

namespace PipePair

open UPipe Function List

/-! ## Abbreviations -/

/-- The queue `x` reads from. -/
def inbox (s : PipePair) (x : Side) : UPipe := s.heap (s.pipe x).inPipe

theorem inbox_store (s : PipePair) (q : QueueId) (u : UPipe) (z : Side) :
    (s.store q u).inbox z = if (s.pipe z).inPipe = q then u else s.inbox z := by
  simp [inbox, update_apply]

/-- Post a command only when `b` holds. -/
def postIf (s : PipePair) (b : Bool) (x : Side) (c : Command) : PipePair :=
  if b then s.post x c else s

/-- Forget what the owners have been told. -/
@[simps -fullyApplied]
def withEvents (s : PipePair) (events : Side → List PipeEvent) : PipePair :=
  { s with events := events }

section postIf
variable (s : PipePair) (b : Bool) (x : Side) (c : Command)

@[simp] theorem postIf_pipe : (s.postIf b x c).pipe = s.pipe := by cases b <;> rfl
@[simp] theorem postIf_deallocated : (s.postIf b x c).deallocated = s.deallocated := by
  cases b <;> rfl
@[simp] theorem postIf_heap : (s.postIf b x c).heap = s.heap := by cases b <;> rfl
@[simp] theorem postIf_created : (s.postIf b x c).created = s.created := by cases b <;> rfl
@[simp] theorem postIf_deleted : (s.postIf b x c).deleted = s.deleted := by cases b <;> rfl

theorem postIf_mail :
    (s.postIf b x c).mail = update s.mail x (s.mail x ++ if b then [c] else []) := by
  cases b with
  | false => simp [postIf]
  | true => rfl

theorem mem_mail_postIf (h : d ∈ s.mail z) : d ∈ (s.postIf b x c).mail z := by
  rw [postIf_mail, update_apply]
  split
  · rename_i e
    exact mem_append_left _ (e ▸ h)
  · exact h

end postIf

theorem mem_mail_post (s : PipePair) (x : Side) (c : Command)
    (h : d ∈ s.mail z) : d ∈ (s.post x c).mail z :=
  s.mem_mail_postIf true x c h

theorem mem_mail_popMail {s : PipePair} {rest : List Command}
    (hmail : s.mail x = c :: rest) (hne : d ≠ c) (h : d ∈ s.mail z) : d ∈ (s.popMail x).mail z := by
  rw [popMail_mail, update_apply]
  split
  · rename_i e
    rw [e, hmail] at h
    rw [hmail]
    exact (mem_cons.mp h).resolve_left hne
  · exact h

section filterMap
variable {β : Type*} {f : Command → Option β} {m : Side → List Command}

theorem filterMap_post (hl : l.filterMap f = []) (z : Side) :
    (update m y (m y ++ l) z).filterMap f = (m z).filterMap f := by
  by_cases hz : z = y
  · subst hz
    rw [update_self, filterMap_append, hl, append_nil]
  · rw [update_of_ne hz]

theorem filterMap_pop (h : m x = c :: rest) (hc : (c :: rest).filterMap f = rest.filterMap f)
    (z : Side) : (update m x (m x).tail z).filterMap f = (m z).filterMap f := by
  by_cases hz : z = x
  · subst hz
    rw [update_self, h, tail_cons, hc]
  · rw [update_of_ne hz]

theorem filterMap_postIf (s : PipePair) (b : Bool) (y : Side) (hc : [c].filterMap f = [])
    (z : Side) : ((s.postIf b y c).mail z).filterMap f = (s.mail z).filterMap f := by
  cases b with
  | false => rfl
  | true => exact filterMap_post hc z

end filterMap

/-- The queue after `rollback`, a delimiter and `flush`. -/
def sealed (u : UPipe) : UPipe := (u.unwriteAll.2.write .initDelimiter false).flush.2

/-- The flush after the delimiter finds the reader asleep. -/
def sealWakes (u : UPipe) : Bool := !(u.unwriteAll.2.write .initDelimiter false).flush.1

/-- The side an action belongs to. -/
@[simp] def Action.side : Action → Side
  | .checkRead x | .read x | .checkWrite x | .write x _ | .rollback x | .flush x
  | .setNodelay x | .hiccup x | .terminate x _ | .updateHwms x _ _ | .sendStatsToPeer x
  | .deliver x => x

/-- A call that asks `x` for a message and gets none. -/
inductive NoMessage (x : Side) : Action → Reply → Prop where
  | checkRead : NoMessage x (.checkRead x) (.flag false)
  | read : NoMessage x (.read x) (.message none)

theorem NoMessage.side (h : NoMessage x a r) : a.side = x := by
  cases h <;> rfl

/-- A call that asks `x` to take a message and is refused. -/
inductive Refused (x : Side) : Action → Reply → Prop where
  | checkWrite : Refused x (.checkWrite x) (.flag false)
  | write (m : Msg) : Refused x (.write x m) (.flag false)

/-- Calls that return without any effect. -/
inductive Idle (s : PipePair) : Action → Reply → Prop where
  | noMessage {x a r} : NoMessage x a r → (s.pipe x).mayRead = false → Idle s a r
  | refused {x a r} : Refused x a r →
      ((s.pipe x).outActive = false ∨ (s.pipe x).state ≠ .active) → Idle s a r
  | checkWrite {x} : (s.pipe x).outActive = true → (s.pipe x).state = .active →
      (s.pipe x).checkHwm = true → Idle s (.checkWrite x) (.flag true)
  | rollback {x} : (s.pipe x).outPipe = none → Idle s (.rollback x) .done
  | flush {x} : (s.pipe x).state = .termAckSent ∨ (s.pipe x).outPipe = none →
      Idle s (.flush x) .done
  | hiccup {x} : (s.pipe x).state ≠ .active → Idle s (.hiccup x) .done

/-! ## Outcomes -/

inductive Outcome (s : PipePair) : Action → Reply → PipePair → Prop where
  | idle {a r} : Idle s a r → Outcome s a r s
  -- Reading.
  | look {x u m l} : (s.pipe x).mayRead = true → (s.inbox x).readable = m :: l →
      m.isDelimiter = false → Consumes (s.inbox x) [] u →
      Outcome s (.checkRead x) (.flag true) (s.store (s.pipe x).inPipe u)
  | sleep {x a r u} : NoMessage x a r → (s.pipe x).mayRead = true →
      (∀ c ∈ (s.inbox x).readable, c.isCredential = true) →
      Consumes (s.inbox x) (s.inbox x).readable u → u.asleep = true →
      Outcome s a r ((s.store (s.pipe x).inPipe u).setPipe x { s.pipe x with inActive := false })
  | take {x skipped m u} : (s.pipe x).mayRead = true →
      (∀ c ∈ skipped, c.isCredential = true) → m.isCredential = false → m.isDelimiter = false →
      Consumes (s.inbox x) (skipped ++ [m]) u →
      Outcome s (.read x) (.message (some m))
        (((s.store (s.pipe x).inPipe u).setPipe x ((s.pipe x).countRead m)).postIf
          ((s.pipe x).countRead m).notifyDue x.peer
          (.activateWrite ((s.pipe x).countRead m).msgsRead))
  | delimiter {x a r skipped d u} : NoMessage x a r → (s.pipe x).mayRead = true →
      (∀ c ∈ skipped, c.isCredential = true) → d.isDelimiter = true →
      Consumes (s.inbox x) (skipped ++ [d]) u → (s.pipe x).state = .active →
      Outcome s a r ((s.store (s.pipe x).inPipe u).setPipe x
        { s.pipe x with state := .delimiterReceived })
  | lastDelimiter {x a r skipped d u} : NoMessage x a r → (s.pipe x).mayRead = true →
      (∀ c ∈ skipped, c.isCredential = true) → d.isDelimiter = true →
      Consumes (s.inbox x) (skipped ++ [d]) u → (s.pipe x).state = .waitingForDelimiter →
      Outcome s a r (((s.store (s.pipe x).inPipe u).setPipe x
        { s.pipe x with outPipe := none, state := .termAckSent }).post x.peer .pipeTermAck)
  -- Writing.
  | full {x a r} : Refused x a r → (s.pipe x).outActive = true → (s.pipe x).state = .active →
      (s.pipe x).checkHwm = false →
      Outcome s a r (s.setPipe x { s.pipe x with outActive := false })
  | put {x m q} : m.isDelimiter = false → (s.pipe x).outActive = true →
      (s.pipe x).state = .active → (s.pipe x).checkHwm = true → (s.pipe x).outPipe = some q →
      Outcome s (.write x m) (.flag true)
        ((s.store q ((s.heap q).write m m.hasMore)).setPipe x ((s.pipe x).countWritten m))
  | unput {x q} : (s.pipe x).outPipe = some q →
      Outcome s (.rollback x) .done (s.store q (s.heap q).unwriteAll.2)
  | publish {x q} : (s.pipe x).state.acked = false → (s.pipe x).outPipe = some q →
      Outcome s (.flush x) .done
        ((s.store q (s.heap q).flush.2).postIf (!(s.heap q).flush.1) x.peer .activateRead)
  -- Other calls.
  | setNodelay {x} :
      Outcome s (.setNodelay x) .done (s.setPipe x { s.pipe x with delay := false })
  | hiccup {x} : (s.pipe x).state = .active →
      Outcome s (.hiccup x) .done
        (((s.create (UPipe.new (s.pipe x).conflate)).setPipe x
          { s.pipe x with inPipe := s.created, inActive := true }).post x.peer (.hiccup s.created))
  | ignored {x delay} : (s.pipe x).state.closing = true →
      Outcome s (.terminate x delay) .done (s.setPipe x { s.pipe x with delay := delay })
  | close {x delay q} : (s.pipe x).state = .active ∨ (s.pipe x).state = .delimiterReceived →
      (s.pipe x).outPipe = some q →
      Outcome s (.terminate x delay) .done
        ((((s.post x.peer .pipeTerm).setPipe x
          { s.pipe x with delay := delay, state := .termReqSent1, outActive := false }).store q
            (sealed (s.heap q))).postIf (sealWakes (s.heap q)) x.peer .activateRead)
  | closeAgain {x q} : (s.pipe x).state = .waitingForDelimiter → (s.pipe x).outPipe = some q →
      Outcome s (.terminate x true) .done
        (((s.setPipe x { s.pipe x with delay := true, outActive := false }).store q
            (sealed (s.heap q))).postIf (sealWakes (s.heap q)) x.peer .activateRead)
  | giveUp {x q} : (s.pipe x).state = .waitingForDelimiter → (s.pipe x).outPipe = some q →
      Outcome s (.terminate x false) .done
        (((s.store q (s.heap q).unwriteAll.2).setPipe x
          { s.pipe x with
            delay := false, outPipe := none, state := .termAckSent, outActive := false }).post
          x.peer .pipeTermAck)
  | marks {x i o} : (s.pipe x).state.acked = false →
      Outcome s (.updateHwms x i o) .done
        ((s.setPipe x ((s.pipe x).setHwms i o)).post x.peer (.pipeHwm o i))
  | stats {x} : (s.pipe x).state.acked = false →
      Outcome s (.sendStatsToPeer x) .done
        (s.post x.peer (.pipePeerStats ((s.pipe x).msgsWritten - (s.pipe x).peersMsgsRead)))
  -- Deliveries.
  | wake {x rest e} : s.mail x = .activateRead :: rest →
      Outcome s (.deliver x) .done
        (((s.popMail x).setPipe x
          { s.pipe x with inActive := (s.pipe x).inActive || (s.pipe x).state.reading }).withEvents
          e)
  | credit {x n rest e} : s.mail x = .activateWrite n :: rest →
      Outcome s (.deliver x) .done
        (((s.popMail x).setPipe x
          { s.pipe x with
            peersMsgsRead := n
            outActive := (s.pipe x).outActive || (s.pipe x).state == .active }).withEvents e)
  | swap {x q q' rest u e} : s.mail x = .hiccup q' :: rest → (s.pipe x).outPipe = some q →
      u.isNormal = (s.heap q).isNormal →
      Outcome s (.deliver x) .done
        (((((s.popMail x).store q u).delete q).setPipe x
          { (s.pipe x).discountWritten (s.heap q).flush.2.readable with
            outPipe := some q', outActive := true }).withEvents e)
  | wait {x rest} : s.mail x = .pipeTerm :: rest → (s.pipe x).state = .active →
      (s.pipe x).delay = true →
      Outcome s (.deliver x) .done
        ((s.popMail x).setPipe x { s.pipe x with state := .waitingForDelimiter })
  | answer {x rest st} : s.mail x = .pipeTerm :: rest →
      ((s.pipe x).state = .active ∧ (s.pipe x).delay = false ∨
          (s.pipe x).state = .delimiterReceived) ∧ st = .termAckSent ∨
        (s.pipe x).state = .termReqSent1 ∧ st = .termReqSent2 →
      Outcome s (.deliver x) .done
        (((s.popMail x).setPipe x { s.pipe x with outPipe := none, state := st }).post x.peer
          .pipeTermAck)
  | answerLast {x rest u e} : s.mail x = .pipeTermAck :: rest →
      (s.pipe x).state = .termReqSent1 → u.isNormal = (s.inbox x).isNormal →
      Outcome s (.deliver x) .done
        (((((((s.popMail x).setPipe x { s.pipe x with outPipe := none }).post x.peer
          .pipeTermAck).store (s.pipe x).inPipe u).delete (s.pipe x).inPipe).deleteThis
          x).withEvents e)
  | finish {x rest u e} : s.mail x = .pipeTermAck :: rest → (s.pipe x).state.acked = true →
      u.isNormal = (s.inbox x).isNormal →
      Outcome s (.deliver x) .done
        (((((s.popMail x).store (s.pipe x).inPipe u).delete (s.pipe x).inPipe).deleteThis
          x).withEvents e)
  | remark {x i o rest} : s.mail x = .pipeHwm i o :: rest →
      Outcome s (.deliver x) .done ((s.popMail x).setPipe x ((s.pipe x).setHwms i o))
  | peerStats {x n rest e} : s.mail x = .pipePeerStats n :: rest →
      Outcome s (.deliver x) .done ((s.popMail x).withEvents e)

end PipePair
end LibZmq
