import Mathlib.Tactic.Simps.Basic
import LibZmq.Core.CInt
import LibZmq.Pipe.Queue

/-!
# One end of a pipe

The fields of `pipe_t` and the methods that touch nothing else (`pipe.hpp`,
`pipe.cpp`). Methods that use the queues or send commands to the peer are in
`LibZmq.Pipe.Pair`.

Left out: the routing ids and the endpoint pair, which the pipe stores for its
owners and never reads.
-/

namespace LibZmq

open LibZmq.Core

/-- The six states of a pipe end. -/
inductive PipeState where
  /-- Common state before any termination begins. -/
  | active
  /-- The delimiter was read before the term command was received. -/
  | delimiterReceived
  /-- The term command was received, but there are still messages to read. -/
  | waitingForDelimiter
  /-- Everything was read, only the ack from the peer is missing. -/
  | termAckSent
  /-- `terminate` was explicitly called by the user. -/
  | termReqSent1
  /-- `terminate` was called and then the term command arrived as well. -/
  | termReqSent2
deriving DecidableEq, Repr

namespace PipeState

/-- Has sent `pipe_term`. -/
def asked : PipeState → Bool
  | .termReqSent1 | .termReqSent2 => true
  | _ => false

/-- Has received `pipe_term`. -/
def heard : PipeState → Bool
  | .waitingForDelimiter | .termAckSent | .termReqSent2 => true
  | _ => false

/-- Has sent `pipe_term_ack` and is waiting for one. -/
def acked : PipeState → Bool
  | .termAckSent | .termReqSent2 => true
  | _ => false

/-- Still passes messages on to the owner. -/
def reading : PipeState → Bool
  | .active | .waitingForDelimiter => true
  | _ => false

/-- May be deallocated by a `pipe_term_ack`. -/
def closing : PipeState → Bool
  | .termReqSent1 | .termReqSent2 | .termAckSent => true
  | _ => false

theorem reading_eq (st : PipeState) :
    (st == .active || st == .waitingForDelimiter) = st.reading := by
  cases st <;> rfl

variable {st : PipeState}

theorem acked_of_reading (h : st.reading = true) : st.acked = false := by
  cases st <;> first | rfl | cases h

theorem asked_of_reading (h : st.reading = true) : st.asked = false := by
  cases st <;> first | rfl | cases h

theorem closing_of_acked (h : st.acked = true) : st.closing = true := by
  cases st <;> first | rfl | cases h

theorem acked_of_not_heard (h : st.heard = false) : st.acked = false := by
  cases st <;> first | rfl | cases h

theorem closing_of_asked (h : st.asked = true) : st.closing = true := by
  cases st <;> first | rfl | cases h

theorem heard_of_acked (h : st.acked = true) : st.heard = true := by
  cases st <;> first | rfl | cases h

end PipeState

/-- A queue object, named by the order of creation within its pipe pair. -/
abbrev QueueId := Nat

/-- The commands one end sends to the other. The stats command also carries two
pointers that are handed back unchanged. -/
inductive Command where
  | activateRead
  | activateWrite (msgsRead : UInt64)
  | hiccup (pipe : QueueId)
  | pipeTerm
  | pipeTermAck
  | pipeHwm (inhwm outhwm : Int)
  | pipePeerStats (queueCount : UInt64)
deriving DecidableEq, Repr

/-- What a pipe end tells its owner: the calls on `_sink`, and the command
`pipe_stats_publish` to the socket. -/
inductive PipeEvent where
  | readActivated
  | writeActivated
  | hiccuped
  | pipeTerminated
  | statsPublish (outbound inbound : UInt64)
deriving DecidableEq, Repr

/-- `pipe_t`. -/
structure Pipe where
  inPipe : QueueId
  outPipe : Option QueueId
  inActive : Bool
  outActive : Bool
  /-- High watermark for the outbound pipe. -/
  hwm : Int
  /-- Low watermark for the inbound pipe. -/
  lwm : Int
  inHwmBoost : Int
  outHwmBoost : Int
  msgsRead : UInt64
  msgsWritten : UInt64
  /-- Last received peer's `msgsRead`. -/
  peersMsgsRead : UInt64
  /-- An event sink has been set. -/
  sink : Bool
  state : PipeState
  delay : Bool
  conflate : Bool
deriving DecidableEq, Repr

namespace Pipe

/-- `compute_lwm`: half of the high watermark, rounded up. -/
def computeLwm (hwm : Int) : Int := (CInt.wrap (hwm + 1)).tdiv 2

def new (inpipe outpipe : QueueId) (inhwm outhwm : Int) (conflate : Bool) : Pipe :=
  { inPipe := inpipe
    outPipe := some outpipe
    inActive := true
    outActive := true
    hwm := outhwm
    lwm := computeLwm inhwm
    inHwmBoost := -1
    outHwmBoost := -1
    msgsRead := 0
    msgsWritten := 0
    peersMsgsRead := 0
    sink := false
    state := .active
    delay := true
    conflate := conflate }

@[simps]
def setHwms (p : Pipe) (inhwm outhwm : Int) : Pipe :=
  let inSum := CInt.wrap (inhwm + max p.inHwmBoost 0)
  let outSum := CInt.wrap (outhwm + max p.outHwmBoost 0)
  { p with
    lwm := computeLwm (if inhwm ≤ 0 ∨ p.inHwmBoost = 0 then 0 else inSum)
    hwm := if outhwm ≤ 0 ∨ p.outHwmBoost = 0 then 0 else outSum }

def setHwmsBoost (p : Pipe) (inhwmboost outhwmboost : Int) : Pipe :=
  { p with inHwmBoost := inhwmboost, outHwmBoost := outhwmboost }

/-- `check_hwm`: the high watermark is not reached. -/
def checkHwm (p : Pipe) : Bool :=
  !(decide (p.hwm > 0) && decide (p.msgsWritten - p.peersMsgsRead ≥ UInt64.ofNat p.hwm.toNat))

def checkWrite (p : Pipe) : Bool × Pipe :=
  if !p.outActive || p.state != .active then (false, p)
  else if !p.checkHwm then (false, { p with outActive := false })
  else (true, p)

theorem checkWrite_cases (p : Pipe) :
    (p.checkWrite = (false, p) ∧ (p.outActive = false ∨ p.state ≠ .active)) ∨
      (p.checkWrite = (false, { p with outActive := false }) ∧ p.outActive = true ∧
        p.state = .active ∧ p.checkHwm = false) ∨
      (p.checkWrite = (true, p) ∧ p.outActive = true ∧ p.state = .active ∧ p.checkHwm = true) := by
  unfold checkWrite
  split
  · rename_i hcond
    exact .inl ⟨rfl, by simpa using hcond⟩
  rename_i hcond
  have hcond' : p.outActive = true ∧ p.state = .active := by simpa using hcond
  split
  · rename_i hfull
    exact .inr (.inl ⟨rfl, hcond'.1, hcond'.2, by simpa using hfull⟩)
  · rename_i hfull
    exact .inr (.inr ⟨rfl, hcond'.1, hcond'.2, by simpa using hfull⟩)

/-- The state allows `check_read` and `read` to look at the inbound queue. -/
def mayRead (p : Pipe) : Bool :=
  p.inActive && (p.state == .active || p.state == .waitingForDelimiter)

theorem mayRead_iff {p : Pipe} : p.mayRead = true ↔ p.inActive = true ∧ p.state.reading = true := by
  rw [mayRead, PipeState.reading_eq, Bool.and_eq_true]

/-- A message that `read` and `write` count: the last part of an ordinary one. -/
def counts (m : Msg) : Bool := !m.hasMore && !m.isRoutingId

/-- `_lwm > 0 && _msgs_read % _lwm == 0`: time to tell the writer. -/
def notifyDue (p : Pipe) : Bool :=
  decide (p.lwm > 0) && p.msgsRead % UInt64.ofNat p.lwm.toNat == 0

/-- `read` has got the message: count it. -/
@[simps]
def countRead (p : Pipe) (m : Msg) : Pipe :=
  { p with msgsRead := if counts m then p.msgsRead + 1 else p.msgsRead }

/-- `write` has passed the message on: count it. -/
@[simps]
def countWritten (p : Pipe) (m : Msg) : Pipe :=
  { p with msgsWritten := if counts m then p.msgsWritten + 1 else p.msgsWritten }

/-- `process_hiccup` discards the messages: `_msgs_written--` for every one
without the `more` flag. -/
@[simps]
def discountWritten (p : Pipe) (msgs : List Msg) : Pipe :=
  { p with
    msgsWritten := msgs.foldl (fun n m => if m.hasMore then n else n - 1) p.msgsWritten }

end Pipe
end LibZmq
