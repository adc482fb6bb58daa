import Mathlib.Logic.Function.Basic
import LibZmq.Core.Execution
import LibZmq.Pipe.Basic

/-!
# A pair of pipe ends

Two ends created by `pipepair` (`pipe.cpp`), the queues they share and the
commands in flight between them. Every method runs to its end before another
one starts; a command is delivered by a step of its own, in the order sent.

A run of the code that must not happen is a `Fault`: a failed assertion, a null
pointer, a queue used after `delete`, a command to an end that is gone.

Queue objects are named, and the number of times each of them and each end has
been deleted is counted.
-/

namespace LibZmq

open LibZmq.Core Function

/-- The two ends, in the order of `pipes_`. -/
inductive Side where
  | first
  | second
deriving DecidableEq, Repr

namespace Side

def peer : Side → Side
  | .first => .second
  | .second => .first

@[simp] theorem peer_peer (x : Side) : x.peer.peer = x := by cases x <;> rfl
@[simp] theorem peer_ne (x : Side) : x.peer ≠ x := by cases x <;> decide
@[simp] theorem ne_peer (x : Side) : x ≠ x.peer := by cases x <;> decide

theorem eq_or_eq_peer (x z : Side) : z = x ∨ z = x.peer := by
  cases x <;> cases z <;> simp [peer]

theorem forall_iff {P : Side → Prop} : (∀ z, P z) ↔ P .first ∧ P .second :=
  ⟨fun h => ⟨h _, h _⟩, fun h z => by cases z; exacts [h.1, h.2]⟩

instance {P : Side → Prop} [DecidablePred P] : Decidable (∀ z, P z) :=
  decidable_of_iff _ forall_iff.symm

end Side

inductive Fault where
  /-- A `zmq_assert` does not hold. -/
  | assertion
  | nullPointer
  /-- A queue is used after it has been deleted. -/
  | deadQueue
  /-- A command is sent to a peer that has been deallocated. -/
  | deadPeer
  /-- A command is delivered to an end that has been deallocated. -/
  | deadEndpoint
deriving DecidableEq, Repr

structure PipePair where
  pipe : Side → Pipe
  /-- How many times `delete this` has run. -/
  deallocated : Side → Nat
  /-- Commands in flight to each end, the next one to be delivered first. -/
  mail : Side → List Command
  heap : QueueId → UPipe
  /-- Number of queues created so far. -/
  created : Nat
  /-- How many times each queue has been deleted. -/
  deleted : QueueId → Nat
  /-- What each end has told its owner. -/
  events : Side → List PipeEvent

namespace PipePair

/-! ## Access to the parts -/

@[simps -fullyApplied]
def setPipe (s : PipePair) (x : Side) (p : Pipe) : PipePair :=
  { s with pipe := Function.update s.pipe x p }

@[simps -fullyApplied]
def store (s : PipePair) (q : QueueId) (u : UPipe) : PipePair :=
  { s with heap := Function.update s.heap q u }

/-- The object behind a queue pointer. -/
def queue (s : PipePair) (q : QueueId) : Except Fault UPipe :=
  if q < s.created ∧ s.deleted q = 0 then .ok (s.heap q) else .error .deadQueue

/-- `new` of a queue; its name is the number of queues so far. -/
@[simps -fullyApplied]
def create (s : PipePair) (u : UPipe) : PipePair :=
  { s with heap := Function.update s.heap s.created u, created := s.created + 1 }

/-- `LIBZMQ_DELETE` of a queue. -/
@[simps -fullyApplied]
def delete (s : PipePair) (q : QueueId) : PipePair :=
  { s with deleted := Function.update s.deleted q (s.deleted q + 1) }

/-- `delete this`. -/
@[simps -fullyApplied]
def deleteThis (s : PipePair) (x : Side) : PipePair :=
  { s with deallocated := Function.update s.deallocated x (s.deallocated x + 1) }

/-- Put a command into the mailbox of `x`. -/
@[simps -fullyApplied]
def post (s : PipePair) (x : Side) (c : Command) : PipePair :=
  { s with mail := Function.update s.mail x (s.mail x ++ [c]) }

/-- Take the first command out of the mailbox of `x`. -/
@[simps -fullyApplied]
def popMail (s : PipePair) (x : Side) : PipePair :=
  { s with mail := Function.update s.mail x (s.mail x).tail }

@[simps -fullyApplied]
def emit (s : PipePair) (x : Side) (e : PipeEvent) : PipePair :=
  { s with events := Function.update s.events x (s.events x ++ [e]) }

/-- `send_... (_peer)`. -/
def send (s : PipePair) (x : Side) (c : Command) : Except Fault PipePair :=
  if s.deallocated x.peer = 0 then .ok (s.post x.peer c) else .error .deadPeer

/-- A call on `_sink`. -/
def notify (s : PipePair) (x : Side) (e : PipeEvent) : Except Fault PipePair :=
  if (s.pipe x).sink then .ok (s.emit x e) else .error .nullPointer

/-! ## Creation -/

/-- `pipepair`. The first high watermark is for messages passed from the first
end to the second one. -/
def pipepair (hwm₀ hwm₁ : Int) (conflate₀ conflate₁ : Bool) : PipePair :=
  { pipe := fun
      | .first => Pipe.new 0 1 hwm₁ hwm₀ conflate₀
      | .second => Pipe.new 1 0 hwm₀ hwm₁ conflate₁
    deallocated := fun _ => 0
    mail := fun _ => []
    heap := fun q => UPipe.new (if q = 0 then conflate₀ else conflate₁)
    created := 2
    deleted := fun _ => 0
    events := fun _ => [] }

def setEventSink (s : PipePair) (x : Side) : PipePair :=
  s.setPipe x { s.pipe x with sink := true }

/-- A new pair, attached to its two owners. -/
def start (hwm₀ hwm₁ : Int) (conflate₀ conflate₁ : Bool) : PipePair :=
  ((pipepair hwm₀ hwm₁ conflate₀ conflate₁).setEventSink .first).setEventSink .second

/-! ## Termination helpers -/

/-- `_out_pipe = NULL; send_pipe_term_ack (_peer)` with the change of state that
goes with it. -/
def acknowledge (s : PipePair) (x : Side) (state : PipeState) : Except Fault PipePair :=
  (s.setPipe x { s.pipe x with outPipe := none, state := state }).send x .pipeTermAck

def processDelimiter (s : PipePair) (x : Side) : Except Fault PipePair :=
  match (s.pipe x).state with
  | .active => .ok (s.setPipe x { s.pipe x with state := .delimiterReceived })
  | .waitingForDelimiter => s.acknowledge x .termAckSent
  | _ => .error .assertion

/-! ## Reading -/

def checkRead (s : PipePair) (x : Side) : Except Fault (Bool × PipePair) :=
  let p := s.pipe x
  if !p.mayRead then .ok (false, s)
  else do
    let u ← s.queue p.inPipe
    let (found, u) := u.checkRead
    let s := s.store p.inPipe u
    if !found then .ok (false, s.setPipe x { p with inActive := false })
    else
      match u.probe Msg.isDelimiter with
      | none => .error .assertion
      | some (false, u) => .ok (true, s.store p.inPipe u)
      | some (true, u) =>
          match u.read with
          | (none, _) => .error .assertion
          | (some _, u) => do
              let s ← (s.store p.inPipe u).processDelimiter x
              .ok (false, s)

def read (s : PipePair) (x : Side) : Except Fault (Option Msg × PipePair) :=
  let p := s.pipe x
  if !p.mayRead then .ok (none, s)
  else do
    let u ← s.queue p.inPipe
    match u.readSkipping with
    | (none, u) => .ok (none, (s.store p.inPipe u).setPipe x { p with inActive := false })
    | (some m, u) =>
        let s := s.store p.inPipe u
        if m.isDelimiter then do
          let s ← s.processDelimiter x
          .ok (none, s)
        else do
          let p := p.countRead m
          let s := s.setPipe x p
          let s ← if p.notifyDue then s.send x (.activateWrite p.msgsRead) else .ok s
          .ok (some m, s)

/-! ## Writing -/

def checkWrite (s : PipePair) (x : Side) : Bool × PipePair :=
  ((s.pipe x).checkWrite.1, s.setPipe x (s.pipe x).checkWrite.2)

def write (s : PipePair) (x : Side) (m : Msg) : Except Fault (Bool × PipePair) :=
  let (ok, s) := s.checkWrite x
  if !ok then .ok (false, s)
  else
    match (s.pipe x).outPipe with
    | none => .error .nullPointer
    | some q => do
        let u ← s.queue q
        let s := s.store q (u.write m m.hasMore)
        .ok (true, s.setPipe x ((s.pipe x).countWritten m))

/-- `rollback`: remove an incomplete message from the outbound pipe. -/
def rollback (s : PipePair) (x : Side) : Except Fault PipePair :=
  match (s.pipe x).outPipe with
  | none => .ok s
  | some q => do
      let u ← s.queue q
      let (msgs, u) := u.unwriteAll
      if msgs.all Msg.hasMore then .ok (s.store q u) else .error .assertion

/-- `flush`. After `term_ack_sent` the peer does not exist anymore. -/
def flush (s : PipePair) (x : Side) : Except Fault PipePair :=
  if (s.pipe x).state = .termAckSent then .ok s
  else
    match (s.pipe x).outPipe with
    | none => .ok s
    | some q => do
        let u ← s.queue q
        let (awake, u) := u.flush
        let s := s.store q u
        if awake then .ok s else s.send x .activateRead

/-! ## Local calls -/

def setNodelay (s : PipePair) (x : Side) : PipePair :=
  s.setPipe x { s.pipe x with delay := false }

/-- `hiccup`: replace the inbound queue; the peer has to deallocate the old one. -/
def hiccup (s : PipePair) (x : Side) : Except Fault PipePair :=
  if (s.pipe x).state ≠ .active then .ok s
  else
    let q := s.created
    let s := s.create (UPipe.new (s.pipe x).conflate)
    (s.setPipe x { s.pipe x with inPipe := q, inActive := true }).send x (.hiccup q)

/-- Drop an unfinished outbound message and write the delimiter. Watermarks are not
checked; thus the delimiter can be written even when the pipe is full. -/
def writeDelimiter (s : PipePair) (x : Side) : Except Fault PipePair :=
  match (s.pipe x).outPipe with
  | none => .ok s
  | some q => do
      let s ← s.rollback x
      let u ← s.queue q
      (s.store q (u.write .initDelimiter false)).flush x

/-- The second half of `terminate`: stop the outbound flow of messages. -/
def stopOutbound (s : PipePair) (x : Side) : Except Fault PipePair :=
  (s.setPipe x { s.pipe x with outActive := false }).writeDelimiter x

def terminate (s : PipePair) (x : Side) (delay : Bool) : Except Fault PipePair :=
  let s := s.setPipe x { s.pipe x with delay := delay }
  match (s.pipe x).state with
  | .termReqSent1 | .termReqSent2 | .termAckSent => .ok s
  | .active | .delimiterReceived => do
      let s ← s.send x .pipeTerm
      (s.setPipe x { s.pipe x with state := .termReqSent1 }).stopOutbound x
  | .waitingForDelimiter =>
      if !delay then do
        let s ← s.rollback x
        let s ← s.acknowledge x .termAckSent
        s.stopOutbound x
      else s.stopOutbound x

/-- What a socket does to each of its pipes when an `HWM` option changes:
`set_hwms (rcvhwm, sndhwm)`, then `send_hwms_to_peer (sndhwm, rcvhwm)`. -/
def updateHwms (s : PipePair) (x : Side) (rcvhwm sndhwm : Int) : Except Fault PipePair :=
  (s.setPipe x ((s.pipe x).setHwms rcvhwm sndhwm)).send x (.pipeHwm sndhwm rcvhwm)

def sendStatsToPeer (s : PipePair) (x : Side) : Except Fault PipePair :=
  s.send x (.pipePeerStats ((s.pipe x).msgsWritten - (s.pipe x).peersMsgsRead))

/-! ## Command handlers -/

def processActivateRead (s : PipePair) (x : Side) : Except Fault PipePair :=
  let p := s.pipe x
  if !p.inActive && (p.state == .active || p.state == .waitingForDelimiter) then
    (s.setPipe x { p with inActive := true }).notify x .readActivated
  else .ok s

def processActivateWrite (s : PipePair) (x : Side) (msgsRead : UInt64) : Except Fault PipePair :=
  let p := { s.pipe x with peersMsgsRead := msgsRead }
  if !p.outActive && p.state == .active then
    (s.setPipe x { p with outActive := true }).notify x .writeActivated
  else .ok (s.setPipe x p)

/-- `process_hiccup`: discard what is left in the old outbound queue, delete it and
plug in the new one. -/
def processHiccup (s : PipePair) (x : Side) (pipe : QueueId) : Except Fault PipePair :=
  match (s.pipe x).outPipe with
  | none => .error .assertion
  | some q => do
      let u ← s.queue q
      let (msgs, u) := u.flush.2.drain
      let s := (s.store q u).delete q
      let p := { (s.pipe x).discountWritten msgs with outPipe := some pipe, outActive := true }
      let s := s.setPipe x p
      if p.state = .active then s.notify x .hiccuped else .ok s

def processPipeTerm (s : PipePair) (x : Side) : Except Fault PipePair :=
  match (s.pipe x).state with
  | .active =>
      if (s.pipe x).delay then .ok (s.setPipe x { s.pipe x with state := .waitingForDelimiter })
      else s.acknowledge x .termAckSent
  | .delimiterReceived => s.acknowledge x .termAckSent
  | .termReqSent1 => s.acknowledge x .termReqSent2
  | _ => .error .assertion

/-- The end of `process_pipe_term_ack`: delete the inbound queue and the pipe end
itself. -/
def deallocate (s : PipePair) (x : Side) : Except Fault PipePair := do
  let p := s.pipe x
  let u ← s.queue p.inPipe
  let u := if p.conflate then u else u.drain.2
  .ok (((s.store p.inPipe u).delete p.inPipe).deleteThis x)

def processPipeTermAck (s : PipePair) (x : Side) : Except Fault PipePair :=
  if !(s.pipe x).sink then .error .assertion
  else do
    let s ← s.notify x .pipeTerminated
    match (s.pipe x).state with
    | .termReqSent1 => do
        let s ← s.acknowledge x .termReqSent1
        s.deallocate x
    | .termAckSent | .termReqSent2 => s.deallocate x
    | _ => .error .assertion

def processPipeHwm (s : PipePair) (x : Side) (inhwm outhwm : Int) : PipePair :=
  s.setPipe x ((s.pipe x).setHwms inhwm outhwm)

def processPipePeerStats (s : PipePair) (x : Side) (queueCount : UInt64) : PipePair :=
  s.emit x (.statsPublish queueCount ((s.pipe x).msgsWritten - (s.pipe x).peersMsgsRead))

def processCommand (s : PipePair) (x : Side) : Command → Except Fault PipePair
  | .activateRead => s.processActivateRead x
  | .activateWrite n => s.processActivateWrite x n
  | .hiccup q => s.processHiccup x q
  | .pipeTerm => s.processPipeTerm x
  | .pipeTermAck => s.processPipeTermAck x
  | .pipeHwm i o => .ok (s.processPipeHwm x i o)
  | .pipePeerStats n => .ok (s.processPipePeerStats x n)

/-- Deliver the next command in flight to `x`. -/
def deliver (s : PipePair) (x : Side) : Except Fault PipePair :=
  match s.mail x with
  | [] => .ok s
  | c :: _ =>
      if s.deallocated x = 0 then (s.popMail x).processCommand x c else .error .deadEndpoint

/-! ## Runs -/

/-- The steps of a run. -/
inductive Action where
  | checkRead (x : Side)
  | read (x : Side)
  | checkWrite (x : Side)
  | write (x : Side) (m : Msg)
  | rollback (x : Side)
  | flush (x : Side)
  | setNodelay (x : Side)
  | hiccup (x : Side)
  | terminate (x : Side) (delay : Bool)
  | updateHwms (x : Side) (rcvhwm sndhwm : Int)
  | sendStatsToPeer (x : Side)
  | deliver (x : Side)
deriving DecidableEq, Repr

/-- What the caller gets back. -/
inductive Reply where
  | done
  | flag (b : Bool)
  | message (m : Option Msg)
deriving DecidableEq, Repr

def step (s : PipePair) : Action → Except Fault (Reply × PipePair)
  | .checkRead x => (s.checkRead x).map fun r => (.flag r.1, r.2)
  | .read x => (s.read x).map fun r => (.message r.1, r.2)
  | .checkWrite x => .ok (.flag (s.checkWrite x).1, (s.checkWrite x).2)
  | .write x m => (s.write x m).map fun r => (.flag r.1, r.2)
  | .rollback x => (s.rollback x).map fun s => (.done, s)
  | .flush x => (s.flush x).map fun s => (.done, s)
  | .setNodelay x => .ok (.done, s.setNodelay x)
  | .hiccup x => (s.hiccup x).map fun s => (.done, s)
  | .terminate x delay => (s.terminate x delay).map fun s => (.done, s)
  | .updateHwms x i o => (s.updateHwms x i o).map fun s => (.done, s)
  | .sendStatsToPeer x => (s.sendStatsToPeer x).map fun s => (.done, s)
  | .deliver x => (s.deliver x).map fun s => (.done, s)

/-- An owner calls methods until it has been told `pipe_terminated`, and never
writes a delimiter; a command can be delivered when one is in flight. -/
def Enabled (s : PipePair) : Action → Prop
  | .checkRead x | .read x | .checkWrite x | .rollback x | .flush x | .setNodelay x
  | .hiccup x | .terminate x _ | .updateHwms x _ _ | .sendStatsToPeer x => s.deallocated x = 0
  | .write x m => s.deallocated x = 0 ∧ m.isDelimiter = false
  | .deliver x => s.mail x ≠ []

instance (s : PipePair) (a : Action) : Decidable (s.Enabled a) := by
  rcases a <;> dsimp only [Enabled] <;> infer_instance

/-- One step of a run, with the action and the reply as its label. -/
def Step (s : PipePair) (l : Action × Reply) (s' : PipePair) : Prop :=
  s.Enabled l.1 ∧ s.step l.1 = .ok (l.2, s')

/-- Carry out an action. `none` when it is not enabled, runs into a fault or does not
meet the condition. -/
def next (guard : PipePair → Action × Reply → Prop) [∀ s l, Decidable (guard s l)]
    (s : PipePair) (a : Action) : Option ((Action × Reply) × PipePair) :=
  match s.step a with
  | .error _ => none
  | .ok (r, s') => if s.Enabled a ∧ guard s (a, r) then some ((a, r), s') else none

section next
variable {guard : PipePair → Action × Reply → Prop} [∀ s l, Decidable (guard s l)] {s : PipePair}

theorem step_of_next (s : PipePair) (a : Action) (l : Action × Reply) (t : PipePair)
    (h : next guard s a = some (l, t)) : Guarded Step guard s l t := by
  unfold next at h
  split at h
  · cases h
  rename_i r s' hstep
  split at h
  · rename_i hcond
    cases h
    exact ⟨⟨hcond.1, hstep⟩, hcond.2⟩
  · cases h

/-- A run that carries out the actions ends in a state with the property `Q`. -/
theorem exists_exec {Q : PipePair → Prop} [DecidablePred Q] (actions : List Action)
    (h : (replay (next guard) s actions).any (fun p => decide (Q p.2)) = true) :
    ∃ tr t, Exec (Guarded Step guard) s tr t ∧ Q t :=
  exists_exec_of_replay step_of_next actions h

end next
end PipePair
end LibZmq
