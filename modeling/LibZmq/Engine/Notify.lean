import LibZmq.Core.Execution
import LibZmq.Core.Framing
import LibZmq.Msg

/-!
# Connection notifications

`stream_engine_base.cpp` on a fresh session: when the mechanism is ready, the engine pushes the
routing id of the peer and, if `ZMQ_ROUTER_NOTIFY` asks for it, an empty message; when it fails,
another one. What the mechanism says and the room in the pipe are inputs.

* `notifications_bracketed`: the notifications enclose the messages, unless the handshake of the
  mechanism fails.
-/

namespace LibZmq

open LibZmq.Core (Exec Framed Guarded exists_exec_of_replay exists_exec_with guarded_of_pure
  step_of_pure)

/-- The session's end of the pipe: the messages for its reader, and the parts of one that is not
complete. -/
structure SessionPipe where
  active : Bool
  messages : List (List Msg)
  begun : List Msg
  whole : ∀ u ∈ messages, Framed Msg.hasMore u
  more : ∀ m ∈ begun, m.hasMore = true

namespace SessionPipe

def new : SessionPipe := ⟨true, [], [], by simp, by simp⟩

def write (p : SessionPipe) (m : Msg) : SessionPipe :=
  -- credentials are skipped when the pipe is read
  if m.isCredential then p
  else if hmore : m.hasMore = true then
    { p with begun := p.begun ++ [m], more := by simpa [or_imp, forall_and, hmore] using p.more }
  else
    { p with
      messages := p.messages ++ [p.begun ++ [m]]
      begun := []
      whole := by
        intro u hu
        rcases List.mem_append.mp hu with hu | hu
        · exact p.whole u hu
        · exact ⟨p.begun, m, List.mem_singleton.mp hu, p.more, by simpa using hmore⟩
      more := by simp }

/-- `push_msg`, or `none` for `EAGAIN`. Routing ids are not counted, so that the first two messages
find room in any case. -/
def push (p : SessionPipe) (room : Bool) (m : Msg) : Option SessionPipe :=
  -- only subscriptions are passed to the sockets
  if m.flags &&& MsgFlag.command ≠ 0 ∧ ¬ m.isSubscribe ∧ ¬ m.isCancel then some p
  else if p.active ∧ room then some (p.write m)
  else none

def rollback (p : SessionPipe) : SessionPipe := { p with begun := [], more := by simp }

end SessionPipe

inductive ProcessMsg where
  | processHandshakeCommand
  | writeCredential
  | decodeAndPush
  | pushOneThenDecodeAndPush
  deriving DecidableEq

/-- The options `recv_routing_id` and `router_notify`. -/
structure NotifyOptions where
  recvRoutingId : Bool
  connect : Bool
  disconnect : Bool

structure NotifyEngine where
  handshaking : Bool
  processMsg : ProcessMsg
  pipe : SessionPipe
  deleted : Bool

namespace NotifyEngine

def new : NotifyEngine := ⟨true, .processHandshakeCommand, .new, false⟩

def routingId (data : Bytes) : Msg := ⟨.vsm, MsgFlag.routingId, data⟩

def credential (data : Bytes) : Msg := ⟨.vsm, MsgFlag.credential, data⟩

/-- `mechanism_ready`: if the pipe is being shut down, the rest is left out. -/
def mechanismReady (o : NotifyOptions) (e : NotifyEngine) (id : Bytes) : NotifyEngine :=
  match if o.recvRoutingId then e.pipe.push true (routingId id) else some e.pipe with
  | none => e
  | some p =>
      match if o.connect then p.push true .init else some p with
      | none => { e with pipe := p }
      | some p => { e with pipe := p, processMsg := .writeCredential }

/-- `decode_and_push`, for what `decode` returns, and `push_one_then_decode_and_push`. -/
def decodeAndPush (e : NotifyEngine) (room : Bool) (m : Msg) : NotifyEngine :=
  match e.pipe.push room m with
  | none => { e with processMsg := .pushOneThenDecodeAndPush }
  | some p => { e with pipe := p, processMsg := .decodeAndPush }

/-- `write_credential`; if the credential is refused, it is tried again with the same message. -/
def writeCredential (e : NotifyEngine) (userId : Bytes) (room room' : Bool) (m : Msg) :
    NotifyEngine :=
  match if userId ≠ [] then e.pipe.push room (credential userId) else some e.pipe with
  | none => e
  | some p => { e with pipe := p }.decodeAndPush room' m

/-- `error`, which deletes the engine. -/
def error (o : NotifyOptions) (e : NotifyEngine) (room : Bool) : NotifyEngine :=
  if o.disconnect ∧ ¬ e.handshaking then
    { e with pipe := (e.pipe.rollback.push room .init).getD e.pipe.rollback, deleted := true }
  else { e with deleted := true }

/-- The greeting is over; the mechanism is ready; a message arrives or is tried again; the
connection fails; the pipe is shut down. -/
inductive Act where
  | greeting
  | mechanismReady (id : Bytes)
  | message (userId : Bytes) (room room' : Bool) (m : Msg)
  | error (room : Bool)
  | shutDown

def next (o : NotifyOptions) (e : NotifyEngine) : Act → NotifyEngine
  | .greeting => { e with handshaking := false }
  | .mechanismReady id => mechanismReady o e id
  | .message userId room room' m =>
      match e.processMsg with
      | .processHandshakeCommand => e
      | .writeCredential => e.writeCredential userId room room' m
      | .decodeAndPush | .pushOneThenDecodeAndPush => e.decodeAndPush room m
  | .error room => error o e room
  | .shutDown => { e with pipe := { e.pipe with active := false } }

def Enabled (e : NotifyEngine) : Act → Prop
  | .greeting => e.deleted = false ∧ e.handshaking = true
  | .mechanismReady _ =>
      e.deleted = false ∧ e.handshaking = false ∧ e.processMsg = .processHandshakeCommand
  -- messages from the wire have no credential flag
  | .message _ _ _ m => e.deleted = false ∧ e.handshaking = false ∧ m.isCredential = false
  | .error _ => e.deleted = false
  | .shutDown => True

instance (e : NotifyEngine) (a : Act) : Decidable (e.Enabled a) := by
  rcases a <;> dsimp only [Enabled] <;> infer_instance

def Step (o : NotifyOptions) (e : NotifyEngine) (a : Act) (e' : NotifyEngine) : Prop :=
  e.Enabled a ∧ e.next o a = e'

/-- The connection does not fail between the greeting and `mechanism_ready`, unless the pipe is
being shut down. -/
def Settled (e : NotifyEngine) : Act → Prop
  | .error _ => e.handshaking = true ∨ e.processMsg ≠ .processHandshakeCommand ∨
      e.pipe.active = false
  | _ => True

instance (e : NotifyEngine) (a : Act) : Decidable (e.Settled a) := by
  rcases a <;> dsimp only [Settled] <;> infer_instance

/-- The routing id and the first notification have been pushed. -/
def Opened (messages : List (List Msg)) : Prop :=
  ∃ id users, messages = [routingId id] :: [.init] :: users

/-- The routing id, one empty message, whole messages, and at most one empty message at the end,
after which the engine is gone. -/
def Bracketed (e : NotifyEngine) : Prop :=
  ∃ id users last, e.pipe.messages = [routingId id] :: [.init] :: users ++ last ∧
    (∀ u ∈ users, Framed Msg.hasMore u) ∧ (last = [] ∨ last = [[.init]] ∧ e.deleted = true)

structure Sound (e : NotifyEngine) : Prop where
  greeting : e.handshaking = true → e.processMsg = .processHandshakeCommand
  fresh : e.deleted = false → e.processMsg = .processHandshakeCommand →
    e.pipe.messages = [] ∧ e.pipe.begun = []
  ready : e.deleted = false → e.processMsg ≠ .processHandshakeCommand → Opened e.pipe.messages
  failed : e.deleted = true → e.pipe.messages = [] ∨ e.Bracketed

variable {o : NotifyOptions} {e e' : NotifyEngine} {p p' : SessionPipe} {m : Msg}
  {room room' : Bool} {userId : Bytes} {a : Act}

theorem sound_new : new.Sound :=
  ⟨fun _ => rfl, fun _ _ => ⟨rfl, rfl⟩, by simp [new], by simp [new]⟩

theorem Opened.bracketed (h : Opened e.pipe.messages) : e.Bracketed := by
  obtain ⟨id, users, heq⟩ := h
  exact ⟨id, users, [], by simp [heq], fun u hu => e.pipe.whole u (by simp [heq, hu]), .inl rfl⟩

theorem Sound.opened (h : e.Sound) (hdel : e.deleted = false) :
    e.pipe.messages = [] ∨ Opened e.pipe.messages := by
  by_cases hproc : e.processMsg = .processHandshakeCommand
  · exact .inl (h.fresh hdel hproc).1
  · exact .inr (h.ready hdel hproc)

theorem opened_push (h : Opened p.messages) (hpush : p.push room m = some p') :
    Opened p'.messages := by
  unfold SessionPipe.push SessionPipe.write at hpush
  split at hpush
  · cases hpush
    exact h
  split at hpush
  · cases hpush
    split
    · exact h
    split
    · exact h
    · obtain ⟨id, users, heq⟩ := h
      exact ⟨id, users ++ [p.begun ++ [m]], by simp [heq]⟩
  · cases hpush

/-- A notification or a routing id between two messages. -/
theorem push_eq (room : Bool) (hbegun : p.begun = [])
    (hflags : m.flags = 0 ∨ m.flags = MsgFlag.routingId) :
    (p.active = false ∨ room = false) ∧ p.push room m = none ∨ p.active = true ∧ room = true ∧
      ∃ p', p.push room m = some p' ∧ p'.active = true ∧ p'.begun = [] ∧
        p'.messages = p.messages ++ [[m]] := by
  have hplain : ∀ f : UInt8, f = 0 ∨ f = MsgFlag.routingId → f &&& MsgFlag.command = 0 ∧
      (f &&& MsgFlag.more != 0) = false ∧
      (f &&& MsgFlag.credential == MsgFlag.credential) = false := by
    rintro f (rfl | rfl) <;> decide
  obtain ⟨hcommand, hmore, hcred⟩ := hplain m.flags hflags
  cases hactive : p.active <;> cases room <;> simp [SessionPipe.push, SessionPipe.write, hactive,
    hcommand, Msg.hasMore, hmore, Msg.isCredential, hcred, hbegun]

theorem Sound.mechanismReady {id : Bytes} (h : e.Sound) (hen : e.Enabled (.mechanismReady id)) :
    (mechanismReady ⟨true, true, true⟩ e id).Sound := by
  obtain ⟨hdel, hand, hproc⟩ := hen
  obtain ⟨hmsgs, hbegun⟩ := h.fresh hdel hproc
  unfold NotifyEngine.mechanismReady
  simp only [if_true]
  rcases push_eq true (m := routingId id) hbegun (.inr rfl) with
    ⟨-, hnone⟩ | ⟨-, -, p, hpush, hactive, hbegun', hmsgs'⟩
  · rw [hnone]
    exact h
  -- the second message is pushed if the first one was
  obtain ⟨p', hpush', -, -, hmsgs''⟩ :=
    ((push_eq true (m := .init) hbegun' (.inl rfl)).resolve_left (by simp [hactive])).2.2
  simp only [hpush, hpush']
  exact ⟨by simp [hand], by simp, fun _ _ => ⟨id, [], by simp [hmsgs'', hmsgs', hmsgs]⟩,
    by simp [hdel]⟩

section
variable (h : e.Sound) (hdel : e.deleted = false)
include h hdel

theorem Sound.decodeAndPush (hand : e.handshaking = false)
    (hready : Opened e.pipe.messages) : (e.decodeAndPush room m).Sound := by
  unfold NotifyEngine.decodeAndPush
  cases hpush : e.pipe.push room m with
  | none => exact ⟨by simp [hand], by simp, fun _ _ => hready, h.failed⟩
  | some =>
    exact ⟨by simp [hand], by simp, fun _ _ => opened_push hready hpush, by simp [hdel]⟩

theorem Sound.writeCredential (hand : e.handshaking = false)
    (hproc : e.processMsg = .writeCredential) : (e.writeCredential userId room room' m).Sound := by
  have hready := h.ready hdel (by simp [hproc])
  unfold NotifyEngine.writeCredential
  split
  · exact h
  rename_i p hpush
  have hready' : Opened p.messages := by
    split at hpush
    · exact opened_push hready hpush
    · cases hpush
      exact hready
  have hsound : { e with pipe := p }.Sound :=
    ⟨h.greeting, by simp [hproc], fun _ _ => hready', by simp [hdel]⟩
  exact hsound.decodeAndPush hdel hand hready'

theorem Sound.error (hsettled : e.Settled (.error room)) : (error o e room).Sound := by
  unfold NotifyEngine.error
  split
  · rename_i hnotify
    refine ⟨h.greeting, by simp, by simp, fun _ => ?_⟩
    rcases push_eq room (p := e.pipe.rollback) (m := .init) rfl (.inl rfl) with
      ⟨-, hnone⟩ | ⟨hactive, -, p', hsome, -, -, hmsgs⟩
    · rw [hnone]
      exact (h.opened hdel).imp id Opened.bracketed
    have hready := (hsettled.resolve_left hnotify.2).resolve_right (ne_true_of_eq_false · hactive)
    obtain ⟨id, users, heq⟩ := h.ready hdel hready
    rw [hsome]
    exact .inr ⟨id, users, [[.init]], hmsgs.trans (congrArg (· ++ _) heq),
      fun u hu => e.pipe.whole u (by simp [heq, hu]), .inr ⟨rfl, rfl⟩⟩
  · exact ⟨h.greeting, by simp, by simp, fun _ => (h.opened hdel).imp id Opened.bracketed⟩

end

theorem Sound.step (h : e.Sound)
    (hstep : Guarded (Step ⟨true, true, true⟩) Settled e a e') : e'.Sound := by
  obtain ⟨⟨hen, rfl⟩, hsettled⟩ := hstep
  cases a with
  | greeting => exact { h with greeting := by simp [next] }
  | shutDown => exact { h with }
  | mechanismReady => exact h.mechanismReady hen
  | error => exact h.error hen hsettled
  | message =>
    obtain ⟨hdel, hand, -⟩ := hen
    simp only [next]
    split
    · exact h
    · exact h.writeCredential hdel hand ‹_›
    · exact h.decodeAndPush hdel hand (h.ready hdel (by simp [*]))
    · exact h.decodeAndPush hdel hand (h.ready hdel (by simp [*]))

/-- **The notifications enclose the messages of a connection**, or nothing appears in the pipe. -/
theorem notifications_bracketed {tr : List Act}
    (h : Exec (Guarded (Step ⟨true, true, true⟩) Settled) new tr e) :
    e.pipe.messages = [] ∨ e.Bracketed := by
  have hs : e.Sound := h.invariant Sound (fun _ _ _ hsound hstep => hsound.step hstep) sound_new
  cases hdel : e.deleted with
  | false => exact (hs.opened hdel).imp id Opened.bracketed
  | true => exact hs.failed hdel

/-- A connection that is lost in the middle of its second message. -/
theorem notifications_bracketed_midway :
    ∃ tr e, Exec (Guarded (Step ⟨true, true, true⟩) Settled) new tr e ∧ e.Bracketed ∧
      e.pipe.messages = [[routingId [7]], [.init], [⟨.vsm, 0, [1]⟩], [.init]] := by
  refine exists_exec_with guarded_of_pure
    (fun e => e.pipe.messages = [[routingId [7]], [.init], [⟨.vsm, 0, [1]⟩], [.init]])
    [.greeting, .mechanismReady [7], .message [9] true true ⟨.vsm, 0, [1]⟩,
      .message [] true true ⟨.vsm, MsgFlag.more, [2]⟩, .error true] (by decide +kernel) ?_
  intro _ e hexec hmsgs
  exact ⟨(notifications_bracketed hexec).resolve_left (by simp [hmsgs]), hmsgs⟩

/-- The handshake of the mechanism fails after the greeting: the only message in the pipe is the
notification that the connection is lost. -/
theorem notification_of_failed_handshake :
    ∃ tr e, Exec (Step ⟨true, true, true⟩) new tr e ∧ e.pipe.messages = [[.init]] :=
  exists_exec_of_replay step_of_pure [.greeting, .error true] (by decide +kernel)

end NotifyEngine
end LibZmq
