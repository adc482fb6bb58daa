import LibZmq.Core.Execution

/-!
# The input of an engine

When the pipe of its session is full, an engine stops its input (`in_event`); when the reader has
made room, the session lets it go on (`write_activated`, `restart_input`). The pipe remembers that
it has refused a message, and lives longer than the engine (`stream_engine_base.cpp`,
`session_base.cpp`, `pipe.cpp`). Whether the pipe has room for a message is an input.

* `restarted_when_stopped`: an engine that is told to go on has stopped, if no engine is attached
  while the pipe refuses messages and `mechanism_ready` finds room.
-/

namespace LibZmq

open LibZmq.Core (Exec Guarded)

/-- The part of `stream_engine_base_t` that has to do with input. -/
structure InEngine where
  /-- There is a decoder, as the greeting is over. -/
  decoder : Bool
  inputStopped : Bool

/-- A session with its end of the pipe. -/
structure InSession where
  /-- The state of the pipe is `active`. -/
  active : Bool
  outActive : Bool
  engine : Option InEngine

/-- The assertions of `restart_input`. -/
inductive InFault where
  | inputStopped
  | decoder

namespace InSession

/-- `push_msg` for several messages, until one is refused. -/
def push (s : InSession) : List Bool → Bool × InSession
  | [] => (true, s)
  | room :: rooms =>
      if !s.outActive || !s.active then (false, s)
      else if room then s.push rooms
      else (false, { s with outActive := false })

/-- The messages that the decoder finds are pushed, until one is refused or the mechanism has to
wait. -/
def process (s : InSession) (e : InEngine) (rooms : List Bool) (waits : Bool) : InSession :=
  let (pushed, s) := s.push rooms
  { s with engine := some { e with inputStopped := !pushed || waits } }

/-- `restart_input`; the read at its end is another `in_event`, and an error another step. -/
def restartInput (s : InSession) (e : InEngine) (rooms : List Bool) (waits : Bool) :
    Except InFault InSession :=
  if !e.inputStopped then .error .inputStopped
  else if !e.decoder then .error .decoder
  else .ok (s.process e rooms waits)

/-- The pipe waits for `activate_write`. -/
def Refuses (s : InSession) : Prop := s.outActive = false ∧ s.active = true

instance (s : InSession) : Decidable s.Refuses := inferInstanceAs (Decidable (_ ∧ _))

/-- `process_activate_write` and `write_activated`. -/
def activateWrite (s : InSession) (rooms : List Bool) (waits : Bool) : Except InFault InSession :=
  if s.Refuses then
    match s.engine with
    | none => .ok { s with outActive := true }
    | some e => restartInput { s with outActive := true } e rooms waits
  else .ok s

/-- An engine is attached; its greeting is over; `mechanism_ready` pushes the routing id and a
notification; there is something to read; the reader of the pipe has made room; the engine fails or
a timer expires, and a notification may be pushed; the pipe is closed. -/
inductive Act where
  | attach
  | greeting
  | mechanismReady (rooms : List Bool)
  | inEvent (rooms : List Bool) (waits : Bool)
  | activateWrite (rooms : List Bool) (waits : Bool)
  | error (rooms : List Bool)
  | close

def next (s : InSession) (a : Act) : Except InFault InSession :=
  match a, s.engine with
  | .attach, none => .ok { s with engine := some ⟨false, false⟩ }
  | .greeting, some e => .ok { s with engine := some { e with decoder := true } }
  | .mechanismReady rooms, some _ => .ok (s.push rooms).2
  | .inEvent rooms waits, some e =>
      .ok (if e.decoder ∧ ¬ e.inputStopped then s.process e rooms waits else s)
  | .error rooms, some _ => .ok { (s.push rooms).2 with engine := none }
  | .activateWrite rooms waits, _ => s.activateWrite rooms waits
  | .close, _ => .ok { s with active := false }
  | _, _ => .ok s

def Step (s : InSession) (a : Act) (s' : InSession) : Prop := s.next a = .ok s'

/-- No engine is attached to a pipe that refuses messages, and `mechanism_ready` finds room for all
that it pushes to an active pipe. -/
def Settled (s : InSession) : Act → Prop
  | .attach => ¬ s.Refuses
  | .mechanismReady rooms => s.active = true → false ∉ rooms
  | _ => True

/-- The engine waits with the pipe. -/
structure Sound (s : InSession) : Prop where
  decoder : ∀ e ∈ s.engine, e.inputStopped = true → e.decoder = true
  stopped : s.Refuses → ∀ e ∈ s.engine, e.inputStopped = true

variable {s s' : InSession} {e : InEngine} {rooms : List Bool} {waits : Bool} {a : Act}

/-- Accepted messages leave the pipe open. -/
theorem push_accepted (h : (s.push rooms).1 = true) : (s.push rooms).2 = s := by
  induction rooms with
  | nil => rfl
  | cons _ _ ih =>
    unfold push at h ⊢
    split at h
    · cases h
    rw [if_neg ‹_›]
    split at h
    · rw [if_pos ‹_›]
      exact ih h
    · cases h

/-- With room for every message, or on a pipe that takes none, nothing changes. -/
theorem push_same (h : s.active = true → false ∉ rooms) : (s.push rooms).2 = s := by
  induction rooms with
  | nil => rfl
  | cons room rooms ih =>
    unfold push
    split
    · rfl
    rename_i htakes
    have hactive : s.active = true := by
      simp only [Bool.or_eq_true, not_or, Bool.not_eq_true, Bool.not_eq_false'] at htakes
      exact htakes.2
    cases room with
    | true => exact ih fun _ hmem => h hactive (.tail _ hmem)
    | false => exact absurd (.head _) (h hactive)

theorem sound_process (hdecoder : e.decoder = true) (hroom : ¬ s.Refuses) :
    (s.process e rooms waits).Sound := by
  refine ⟨by simp [process, hdecoder], fun hrefuses => ?_⟩
  cases hpushed : (s.push rooms).1 with
  | false => simp [process, hpushed]
  | true =>
    have hopen : (s.push rooms).2.Refuses := hrefuses
    rw [push_accepted hpushed] at hopen
    exact absurd hopen hroom

theorem Sound.activateWrite (h : s.Sound) (rooms : List Bool) (waits : Bool) :
    ∃ s', s.activateWrite rooms waits = .ok s' ∧ s'.Sound := by
  unfold InSession.activateWrite
  split
  · rename_i hrefuses
    split
    · exact ⟨_, rfl, by simp [*], by simp [*]⟩
    · rename_i e heng
      have hstopped := h.stopped hrefuses e heng
      have hdecoder := h.decoder e heng hstopped
      simp only [restartInput, hstopped, hdecoder]
      exact ⟨_, rfl, sound_process hdecoder (by simp [Refuses])⟩
  · exact ⟨s, rfl, h⟩

theorem Sound.step (h : s.Sound) (hs : Guarded Step Settled s a s') : s'.Sound := by
  obtain ⟨hnext, hsettled⟩ := hs
  unfold Step next at hnext
  split at hnext
  case h_6 =>
    obtain ⟨s₁, heq, hsound⟩ := h.activateWrite ‹_› ‹_›
    cases heq.symm.trans hnext
    exact hsound
  all_goals cases hnext
  · exact ⟨by simp, fun hrefuses => absurd hrefuses hsettled⟩
  · rename_i e heng
    exact ⟨by simp, fun hrefuses => by simpa using h.stopped hrefuses e heng⟩
  · rw [push_same hsettled]
    exact h
  · rename_i e heng
    split
    · rename_i hreads
      exact sound_process hreads.1 fun hrefuses => hreads.2 (h.stopped hrefuses e heng)
    · exact h
  · exact ⟨by simp, by simp⟩
  · exact ⟨h.decoder, fun hrefuses => absurd hrefuses.2 (by simp)⟩
  · exact h

end InSession
end LibZmq
