import LibZmq.Pipe.Outcome

/-!
# What the owner of an end is told

A socket keeps track of which of its pipes can be read and written, from the results of
its own calls and from the events it is sent. The lemmas here say how the two agree with
the fields of the pipe, for every step that returns, in whatever state the pair is.

* `step_events`: only a delivered command is reported, and `commandEvents` says which.
* `step_pipe_peer`: a step at one end does not touch the fields of the other.
* `KeepsIn`, `KeepsOut`: apart from the calls that ask for it, an end becomes readable or
  writable only with an event.
-/

namespace LibZmq

namespace PipePair

open UPipe Function LibZmq.PipePair.Action PipeState List

variable {s s' t : PipePair} {a : Action} {x : Side}

/-! ## Helpers that leave the ends alone -/

/-- The ends, the events and the deallocations are the same. -/
structure SameEnds (s s' : PipePair) : Prop where
  pipe : s'.pipe = s.pipe
  events : s'.events = s.events
  deallocated : s'.deallocated = s.deallocated

theorem SameEnds.refl (s : PipePair) : SameEnds s s := ⟨rfl, rfl, rfl⟩

theorem SameEnds.trans (h : SameEnds s s') (h' : SameEnds s' t) : SameEnds s t :=
  ⟨h'.pipe.trans h.pipe, h'.events.trans h.events, h'.deallocated.trans h.deallocated⟩

theorem SameEnds.store (s : PipePair) (q : QueueId) (u : UPipe) : SameEnds s (s.store q u) :=
  ⟨rfl, rfl, rfl⟩

variable {c : Command} {p p' : Pipe} {st : PipeState} {b delay : Bool} {m : Option Msg}
  {rest : List Command}

theorem send_ends (h : s.send x c = .ok s') : SameEnds s s' := by
  unfold send at h
  split at h
  · cases h
    exact ⟨rfl, rfl, rfl⟩
  · cases h

theorem queue_bind {β : Type} {f : UPipe → Except Fault β} {b : β}
    (h : (s.queue q >>= f) = .ok b) : f (s.heap q) = .ok b := by
  unfold queue at h
  split at h
  · exact h
  · cases h

theorem rollback_ends (h : s.rollback x = .ok s') : SameEnds s s' := by
  unfold rollback at h
  split at h
  · cases h
    exact .refl _
  have h := queue_bind h
  simp only at h
  split at h
  · cases h
    exact ⟨rfl, rfl, rfl⟩
  · cases h

theorem flush_ends (h : s.flush x = .ok s') : SameEnds s s' := by
  unfold flush at h
  split at h
  · cases h
    exact .refl _
  split at h
  · cases h
    exact .refl _
  have h := queue_bind h
  simp only at h
  split at h
  · cases h
    exact ⟨rfl, rfl, rfl⟩
  · exact (SameEnds.store ..).trans (send_ends h)

theorem writeDelimiter_ends (h : s.writeDelimiter x = .ok s') : SameEnds s s' := by
  unfold writeDelimiter at h
  split at h
  · cases h
    exact .refl _
  · obtain ⟨s₁, h₁, h⟩ := bind_ok h
    have h := queue_bind h
    exact (rollback_ends h₁).trans ((SameEnds.store ..).trans (flush_ends h))

/-! ## Calls -/

/-- The end becomes readable only if it was. -/
def KeepsIn (p p' : Pipe) : Prop :=
  p'.state.reading = true → p.state.reading = true ∧ p'.inActive = p.inActive

/-- The end becomes writable only if it was. -/
def KeepsOut (p p' : Pipe) : Prop :=
  p'.state = .active → p.state = .active ∧ p'.outActive = p.outActive

theorem KeepsIn.refl (p : Pipe) : KeepsIn p p := fun h => ⟨h, rfl⟩

theorem KeepsOut.refl (p : Pipe) : KeepsOut p p := fun h => ⟨h, rfl⟩

theorem KeepsOut.trans (h : KeepsOut p p') (h' : KeepsOut p' p'') : KeepsOut p p'' := by
  intro hst
  obtain ⟨hst', hout'⟩ := h' hst
  obtain ⟨hst₀, hout⟩ := h hst'
  exact ⟨hst₀, hout'.trans hout⟩

/-- A call changes the end it is made on to `p`, and nothing that another owner sees. -/
structure Changes (s s' : PipePair) (x : Side) (p : Pipe) : Prop where
  pipe : s'.pipe = Function.update s.pipe x p
  events : s'.events = s.events
  deallocated : s'.deallocated = s.deallocated

namespace Changes

variable {p p' : Pipe}

theorem setPipe (s : PipePair) (x : Side) (p : Pipe) : Changes s (s.setPipe x p) x p :=
  ⟨rfl, rfl, rfl⟩

theorem ends (h : Changes s s' x p) (h' : SameEnds s' t) : Changes s t x p :=
  ⟨h'.pipe.trans h.pipe, h'.events.trans h.events, h'.deallocated.trans h.deallocated⟩

theorem of_ends (h : SameEnds s s') (h' : Changes s' t x p) : Changes s t x p :=
  ⟨by rw [h'.pipe, h.pipe], h'.events.trans h.events, h'.deallocated.trans h.deallocated⟩

theorem same (h : SameEnds s s') : Changes s s' x (s.pipe x) :=
  ⟨by rw [h.pipe, update_eq_self], h.events, h.deallocated⟩

theorem then_setPipe (h : Changes s s' x p) (p' : Pipe) : Changes s (s'.setPipe x p') x p' :=
  ⟨by rw [setPipe_pipe, h.pipe, update_idem], h.events, h.deallocated⟩

theorem pipe_self (h : Changes s s' x p) : s'.pipe x = p := by
  rw [h.pipe, update_self]

end Changes

theorem acknowledge_changes (h : s.acknowledge x st = .ok s') :
    Changes s s' x { s.pipe x with outPipe := none, state := st } :=
  (Changes.setPipe s x _).ends (send_ends h)

theorem processDelimiter_changes (h : s.processDelimiter x = .ok s') :
    ∃ p, Changes s s' x p ∧ p.state.reading = false := by
  unfold processDelimiter at h
  split at h
  · cases h
    exact ⟨_, .setPipe .., rfl⟩
  · exact ⟨_, acknowledge_changes h, rfl⟩
  · cases h

/-- What a call that asks for a message does to the end: a message is found, the queue was
empty, or there was nothing to ask for. -/
def Asked (p p' : Pipe) (found : Bool) : Prop :=
  (found = true ∧ p'.state = p.state ∧ p.state.reading = true ∧ p'.inActive = true ∧
      p.inActive = true ∧ p'.outActive = p.outActive) ∨
    (found = false ∧ (p'.state.reading = true → p'.inActive = false) ∧
      (p'.state = .active → p.state = .active ∧ p'.outActive = p.outActive))

theorem asked_of_mayRead_false (h : p.mayRead = false) : Asked p p false := by
  refine .inr ⟨rfl, fun hr => ?_, fun h => ⟨h, rfl⟩⟩
  rw [Pipe.mayRead, reading_eq, hr, Bool.and_true] at h
  exact h

theorem not_active_of_not_reading (h : st.reading = false) : st ≠ .active := by
  rintro rfl
  cases h

theorem asked_of_not_reading (h : p'.state.reading = false) : Asked p p' false := by
  refine .inr ⟨rfl, fun hr => ?_, fun e => absurd e (not_active_of_not_reading h)⟩
  rw [h] at hr
  cases hr

theorem checkRead_changes (h : s.checkRead x = .ok (b, s')) :
    ∃ p, Changes s s' x p ∧ Asked (s.pipe x) p b := by
  unfold checkRead at h
  simp only at h
  split at h
  · rename_i hmay
    cases h
    exact ⟨_, .same (.refl _), asked_of_mayRead_false (by simpa using hmay)⟩
  rename_i hmay
  obtain ⟨hin, hreading⟩ := Pipe.mayRead_iff.mp (by simpa using hmay)
  have h := queue_bind h
  split at h
  · cases h
    exact ⟨_, (Changes.same (SameEnds.store ..)).then_setPipe _,
      .inr ⟨rfl, fun _ => rfl, fun h => ⟨h, rfl⟩⟩⟩
  split at h
  · cases h
  · cases h
    exact ⟨_, .same (SameEnds.trans (.store ..) (.store ..)),
      .inl ⟨rfl, rfl, hreading, hin, hin, rfl⟩⟩
  split at h
  · cases h
  obtain ⟨s₁, h₁, ⟨⟩⟩ := bind_ok h
  obtain ⟨p, hp, hst⟩ := processDelimiter_changes h₁
  exact ⟨p, .of_ends (SameEnds.trans (.store ..) (.store ..)) hp, asked_of_not_reading hst⟩

theorem inbox_send (h : s.send y c = .ok s') : s'.inbox x = s.inbox x := by
  unfold send at h
  split at h
  · cases h
    rfl
  · cases h

attribute [local simp] reading inbox checkWrite KeepsIn

theorem inbox_processDelimiter (h : s.processDelimiter x = .ok s') : s'.inbox x = s.inbox x := by
  unfold processDelimiter at h
  split at h
  · cases h
    simp
  · rw [inbox_send h]
    simp
  · cases h

/-- The ways in which `read` returns: it may not look, it finds nothing, it finds the delimiter, or
it finds a message. -/
inductive Reads (s : PipePair) (x : Side) : Option Msg → PipePair → Prop
  | idle : (s.pipe x).mayRead = false → Reads s x none s
  | empty {u : UPipe} : (s.inbox x).readSkipping = (none, u) → Reads s x none
      ((s.store (s.pipe x).inPipe u).setPipe x { s.pipe x with inActive := false })
  | ended {d : Msg} {u : UPipe} {s' : PipePair} : (s.inbox x).readSkipping = (some d, u) →
      d.isDelimiter = true → (s.store (s.pipe x).inPipe u).processDelimiter x = .ok s' →
      Reads s x none s'
  | message {m : Msg} {u : UPipe} {s' : PipePair} : (s.pipe x).mayRead = true →
      (s.inbox x).readSkipping = (some m, u) →
      SameEnds ((s.store (s.pipe x).inPipe u).setPipe x ((s.pipe x).countRead m)) s' →
      s'.inbox x = u → Reads s x (some m) s'

theorem read_cases (h : s.read x = .ok (m, s')) : Reads s x m s' := by
  unfold read at h
  simp only at h
  split at h
  · rename_i hmay
    cases h
    exact .idle (by simpa using hmay)
  rename_i hmay
  have h := queue_bind h
  split at h
  · cases h
    exact .empty ‹_›
  rename_i m' u hskip
  split at h
  · obtain ⟨s₁, h₁, ⟨⟩⟩ := bind_ok h
    exact .ended hskip ‹_› h₁
  have hstored : inbox ((s.store (s.pipe x).inPipe u).setPipe x
      ((s.pipe x).countRead m')) x = u := by
    simp
  split at h
  · obtain ⟨s₁, h₁, ⟨⟩⟩ := bind_ok h
    exact .message (by simpa using hmay) hskip (send_ends h₁) ((inbox_send h₁).trans hstored)
  · cases h
    exact .message (by simpa using hmay) hskip (.refl _) hstored

theorem read_changes (h : s.read x = .ok (m, s')) :
    ∃ p, Changes s s' x p ∧ Asked (s.pipe x) p m.isSome := by
  cases read_cases h with
  | idle hmay => exact ⟨_, .same (.refl _), asked_of_mayRead_false hmay⟩
  | empty =>
    exact ⟨_, (Changes.same (SameEnds.store ..)).then_setPipe _,
      .inr ⟨rfl, fun _ => rfl, fun h => ⟨h, rfl⟩⟩⟩
  | ended _ _ h₁ =>
    obtain ⟨p, hp, hst⟩ := processDelimiter_changes h₁
    exact ⟨p, .of_ends (.store ..) hp, asked_of_not_reading hst⟩
  | message hmay _ hends =>
    obtain ⟨hin, hreading⟩ := Pipe.mayRead_iff.mp hmay
    exact ⟨_, ((Changes.same (SameEnds.store ..)).then_setPipe _).ends hends,
      .inl ⟨rfl, rfl, hreading, hin, hin, rfl⟩⟩

/-- What `readSkipping` finds was in the queue, in front of what is left. -/
theorem readable_of_readSkipping {u v : UPipe} {found : Option Msg}
    (h : v.readSkipping = (found, u)) :
    ∃ taken, v.readable = taken ++ u.readable ∧ ∀ m ∈ found, m ∈ taken := by
  rcases v.readSkipping_spec with ⟨m, skipped, hfound, -, -, hcons⟩ | ⟨hnone, -, hcons, -⟩
  · rw [h] at hfound hcons
    obtain rfl : found = some m := hfound
    exact ⟨_, hcons.readable, by simp⟩
  · rw [h] at hnone hcons
    obtain rfl : found = none := hnone
    exact ⟨_, hcons.readable, by simp⟩

/-- A message that is read is no longer in the queue. -/
theorem read_shrinks {m : Msg} (h : s.read x = .ok (some m, s')) :
    (s'.inbox x).readable.length < (s.inbox x).readable.length := by
  cases read_cases h with
  | message _ hskip _ hinbox =>
    obtain ⟨taken, hreadable, hmem⟩ := readable_of_readSkipping hskip
    have hpos := length_pos_of_mem (hmem m rfl)
    rw [hinbox, hreadable, length_append]
    omega

section
variable (h : s.read x = .ok (m, s'))
include h

/-- Reading takes messages out of the queue only. -/
theorem read_readable : ∃ taken, (s.inbox x).readable = taken ++ (s'.inbox x).readable := by
  cases read_cases h with
  | idle => exact ⟨[], rfl⟩
  | empty hskip =>
    obtain ⟨taken, hreadable, -⟩ := readable_of_readSkipping hskip
    exact ⟨taken, by simpa using hreadable⟩
  | ended hskip _ h₁ =>
    obtain ⟨taken, hreadable, -⟩ := readable_of_readSkipping hskip
    exact ⟨taken, by rw [inbox_processDelimiter h₁, hreadable]; simp⟩
  | message _ hskip _ hinbox =>
    obtain ⟨taken, hreadable, -⟩ := readable_of_readSkipping hskip
    exact ⟨taken, hinbox ▸ hreadable⟩

theorem read_shrinks_le : (s'.inbox x).readable.length ≤ (s.inbox x).readable.length := by
  obtain ⟨taken, hreadable⟩ := read_readable h
  rw [hreadable, length_append]
  exact Nat.le_add_left ..

/-- While there is no delimiter in the queue, reading does not change whether the end can be
written. -/
theorem read_keeps (hno : ∀ d ∈ (s.inbox x).readable, d.isDelimiter = false) :
    ((s'.pipe x).state = (s.pipe x).state ∧ (s'.pipe x).outActive = (s.pipe x).outActive ∧
      (s'.pipe x).checkHwm = (s.pipe x).checkHwm) ∧
      ∀ d ∈ (s'.inbox x).readable, d.isDelimiter = false := by
  refine ⟨?_, fun d hd => ?_⟩
  · cases read_cases h with
    | idle => exact ⟨rfl, rfl, rfl⟩
    | empty =>
      simp only [setPipe, update_self]
      exact ⟨trivial, trivial, rfl⟩
    | ended hskip hd =>
      obtain ⟨taken, hreadable, hmem⟩ := readable_of_readSkipping hskip
      rw [hno _ (hreadable ▸ mem_append_left _ (hmem _ rfl))] at hd
      cases hd
    | message _ _ hends =>
      rw [hends.pipe]
      simp only [setPipe, update_self]
      exact ⟨rfl, rfl, rfl⟩
  · obtain ⟨taken, hreadable⟩ := read_readable h
    exact hno d (hreadable ▸ mem_append_right _ hd)

end

/-- What a call that offers a message does to the end, and whether the message is taken. -/
structure Offered (p p' : Pipe) (b : Bool) : Prop where
  state : p'.state = p.state
  inActive : p'.inActive = p.inActive
  hwm : p'.hwm = p.hwm
  taken : b = true ↔ p.state = .active ∧ p.outActive = true ∧ p.checkHwm = true
  outActive : p'.state = .active → p'.outActive = b

theorem checkWrite_offered (p : Pipe) : Offered p p.checkWrite.2 p.checkWrite.1 := by
  rcases p.checkWrite_cases with ⟨h, hcond⟩ | ⟨h, hout, hst, hhwm⟩ | ⟨h, hout, hst, hhwm⟩
  · rw [h]
    refine ⟨rfl, rfl, rfl, ?_, fun e => hcond.resolve_right (not_not_intro e)⟩
    rcases hcond with hout | hst
    · simp [hout]
    · simp [hst]
  · rw [h]
    exact ⟨rfl, rfl, rfl, by simp [hhwm], fun _ => rfl⟩
  · rw [h]
    exact ⟨rfl, rfl, rfl, by simp [hst, hout, hhwm], fun _ => hout⟩

theorem checkWrite_changes (s : PipePair) (x : Side) :
    Changes s (s.checkWrite x).2 x (s.pipe x).checkWrite.2 :=
  .setPipe ..

theorem write_changes {m : Msg} (h : s.write x m = .ok (b, s')) :
    ∃ p, Changes s s' x p ∧ Offered (s.pipe x) p b := by
  have hoff := checkWrite_offered (s.pipe x)
  have hchg := checkWrite_changes s x
  unfold write at h
  simp only at h
  split at h
  · rename_i hno
    cases h
    exact ⟨_, hchg, (by simpa using hno : (s.checkWrite x).1 = false) ▸ hoff⟩
  rename_i hyes
  have hyes : (s.pipe x).checkWrite.1 = true := by simpa using hyes
  split at h
  · cases h
  have h := queue_bind h
  cases h
  rw [hyes] at hoff
  refine ⟨_, (hchg.ends (.store ..)).then_setPipe _, ?_⟩
  rw [store_pipe, hchg.pipe_self]
  exact { hoff with }

/-- A part that does not complete a message leaves the pipe as it was. -/
theorem write_pipe_of_more {m : Msg} (h : s.write x m = .ok (true, s')) (hm : m.hasMore = true) :
    s'.pipe x = s.pipe x := by
  unfold write at h
  simp only at h
  split at h
  · cases h
  rename_i hok
  split at h
  · cases h
  have h := queue_bind h
  cases h
  have hsame : (s.checkWrite x).2.pipe x = s.pipe x := by
    rw [(checkWrite_changes s x).pipe_self]
    rcases (s.pipe x).checkWrite_cases with ⟨heq, -⟩ | ⟨heq, -⟩ | ⟨heq, -⟩
    · simp [heq] at hok
    · simp [heq] at hok
    · rw [heq]
  have hcount : ∀ p : Pipe, p.countWritten m = p := by
    intro p
    simp [Pipe.countWritten, Pipe.counts, hm]
  simp only [setPipe, update_self, store_pipe]
  rw [hcount, hsame]

/-- Afterwards the end `x` passes no more messages on. -/
def StopsReading (s : PipePair) (x : Side) : Action → Prop
  | .terminate y delay => y = x ∧ ((s.pipe x).state = .active ∨ delay = false)
  | .deliver y => y = x ∧ (s.mail x).head? = some .pipeTerm ∧ (s.pipe x).delay = false
  | _ => False

instance (s : PipePair) (x : Side) (a : Action) : Decidable (StopsReading s x a) := by
  rcases a <;> dsimp only [StopsReading] <;> infer_instance

/-- An end that reads goes on to do so only if it waits for the delimiter, and does so again. -/
theorem terminate_changes (h : s.terminate x delay = .ok s') :
    ∃ p, Changes s s' x p ∧ KeepsIn (s.pipe x) p ∧ p.state ≠ .active ∧
      ((s.pipe x).state.reading = true → ¬ StopsReading s x (.terminate x delay) →
        p.state.reading = true) := by
  unfold terminate at h
  simp only at h
  have h₀ := Changes.setPipe s x { s.pipe x with delay := delay }
  split at h
  iterate 3
    rename_i hst
    simp only [setPipe_pipe, update_self] at hst
    cases h
    exact ⟨_, h₀, .refl _, by simp [hst], fun hr _ => hr⟩
  iterate 2
    rename_i hst
    simp only [setPipe_pipe, update_self] at hst
    obtain ⟨s₁, h₁, h⟩ := bind_ok h
    have h₂ := (h₀.ends (send_ends h₁)).then_setPipe { s₁.pipe x with state := .termReqSent1 }
    have h₃ := h₂.then_setPipe
      { ((s₁.setPipe x { s₁.pipe x with state := .termReqSent1 }).pipe x) with outActive := false }
    refine ⟨_, h₃.ends (writeDelimiter_ends h), ?_, ?_, ?_⟩ <;> simp [hst, StopsReading]
  · rename_i hst
    simp only [setPipe_pipe, update_self] at hst
    split at h
    · rename_i hdelay
      obtain ⟨s₁, h₁, h⟩ := bind_ok h
      obtain ⟨s₂, h₂, h⟩ := bind_ok h
      have h₃ := ((h₀.ends (rollback_ends h₁)).then_setPipe _).ends (send_ends h₂)
      have hstops : StopsReading s x (.terminate x delay) := ⟨rfl, .inr (by simpa using hdelay)⟩
      refine ⟨_, (h₃.then_setPipe _).ends (writeDelimiter_ends h), ?_, ?_, ?_⟩ <;>
        simp [h₃.pipe_self, hstops]
    · refine ⟨_, (h₀.then_setPipe _).ends (writeDelimiter_ends h), ?_, ?_, ?_⟩ <;> simp [hst]

/-! ## Deliveries -/

/-- What a delivered command makes the end tell its owner. -/
def commandEvents (p : Pipe) : Command → List PipeEvent
  | .activateRead => if !p.inActive && p.state.reading then [.readActivated] else []
  | .activateWrite _ => if !p.outActive && p.state == .active then [.writeActivated] else []
  | .hiccup _ => if p.state = .active then [.hiccuped] else []
  | .pipeTermAck => [.pipeTerminated]
  | .pipePeerStats n => [.statsPublish n (p.msgsWritten - p.peersMsgsRead)]
  | .pipeTerm | .pipeHwm _ _ => []

/-- Only the acknowledgement ends the life of an end. -/
theorem commandEvents_eq_pipeTerminated :
    commandEvents p c = [.pipeTerminated] ↔ c = .pipeTermAck := by
  cases c <;> simp only [commandEvents] <;> (try split) <;> simp

theorem commandEvents_eq_readActivated : commandEvents p c = [.readActivated] ↔
    c = .activateRead ∧ p.inActive = false ∧ p.state.reading = true := by
  cases c <;> simp only [commandEvents] <;> (try split) <;> simp_all

theorem commandEvents_eq_writeActivated : commandEvents p c = [.writeActivated] ↔
    (∃ n, c = .activateWrite n) ∧ p.outActive = false ∧ p.state = .active := by
  cases c <;> simp only [commandEvents] <;> (try split) <;> simp_all

/-- A delivered command changes the end to `p`. -/
structure Delivers (s s' : PipePair) (x : Side) (c : Command) (p : Pipe) : Prop where
  pipe : s'.pipe = Function.update s.pipe x p
  events : s'.events = Function.update s.events x (s.events x ++ commandEvents (s.pipe x) c)
  /-- The end is deallocated when it has been told so. -/
  deallocated : s'.deallocated = if c = .pipeTermAck
    then Function.update s.deallocated x (s.deallocated x + 1) else s.deallocated
  /-- Only `pipe_term` changes the state. -/
  state : c ≠ .pipeTerm → p.state = (s.pipe x).state
  /-- An end that may wait for the delimiter does so. -/
  waits : c = .pipeTerm → (s.pipe x).state.reading = true → (s.pipe x).delay = true →
    p.state.reading = true
  /-- An end that reads has not sent `pipe_term`, so that no acknowledgement is expected. -/
  closing : c = .pipeTermAck → (s.pipe x).state.reading = false
  keepsIn : commandEvents (s.pipe x) c ≠ [.readActivated] → KeepsIn (s.pipe x) p
  keepsOut : commandEvents (s.pipe x) c ≠ [.writeActivated] → (∀ q, c ≠ .hiccup q) →
    KeepsOut (s.pipe x) p
  activatedIn : commandEvents (s.pipe x) c = [.readActivated] → p.inActive = true
  activatedOut : commandEvents (s.pipe x) c = [.writeActivated] → p.outActive = true

theorem notify_ok (h : s.notify x e = .ok s') : s' = s.emit x e := by
  unfold notify at h
  split at h
  · cases h
    rfl
  · cases h

/-- The owner is told nothing. -/
theorem Changes.delivers (h : Changes s s' x p)
    (hev : commandEvents (s.pipe x) c = []) (hc : c ≠ .pipeTermAck) (hterm : c ≠ .pipeTerm)
    (hst : p.state = (s.pipe x).state) (hin : p.inActive = (s.pipe x).inActive)
    (hout : (∀ q, c ≠ .hiccup q) → p.outActive = (s.pipe x).outActive) : Delivers s s' x c p where
  pipe := h.pipe
  events := by rw [h.events, hev, append_nil, update_eq_self]
  deallocated := by rw [h.deallocated, if_neg hc]
  state _ := hst
  waits e := absurd e hterm
  closing e := absurd e hc
  keepsIn _ hr := ⟨hst ▸ hr, hin⟩
  keepsOut _ hq hr := ⟨hst ▸ hr, hout hq⟩
  activatedIn e := absurd (hev.symm.trans e) (by simp)
  activatedOut e := absurd (hev.symm.trans e) (by simp)

theorem Changes.delivers_emit (h : Changes s s' x p)
    (hev : commandEvents (s.pipe x) c = [e]) (hc : c ≠ .pipeTermAck) (hterm : c ≠ .pipeTerm)
    (hst : p.state = (s.pipe x).state)
    (hin : if e = .readActivated then p.inActive = true else p.inActive = (s.pipe x).inActive)
    (hout : if e = .writeActivated then p.outActive = true
      else (∀ q, c ≠ .hiccup q) → p.outActive = (s.pipe x).outActive) :
    Delivers s (s'.emit x e) x c p where
  pipe := h.pipe
  events := by rw [emit_events, h.events, hev]
  deallocated := by rw [emit_deallocated, h.deallocated, if_neg hc]
  state _ := hst
  waits e := absurd e hterm
  closing e := absurd e hc
  keepsIn hne hr := ⟨hst ▸ hr, by simp_all⟩
  keepsOut hne hq hr := ⟨hst ▸ hr, by simp_all⟩
  activatedIn e := by simp_all
  activatedOut e := by simp_all

theorem activateRead_delivers (h : s.processActivateRead x = .ok s') :
    ∃ p, Delivers s s' x .activateRead p := by
  unfold processActivateRead at h
  simp only [reading_eq] at h
  split at h
  · rename_i hcond
    rw [notify_ok h]
    exact ⟨_, (Changes.setPipe s x _).delivers_emit (if_pos hcond) (by simp) (by simp) rfl rfl
      fun _ => rfl⟩
  · rename_i hcond
    cases h
    exact ⟨_, (Changes.same (.refl s)).delivers (if_neg hcond) (by simp) (by simp) rfl rfl
      fun _ => rfl⟩

theorem activateWrite_delivers (h : s.processActivateWrite x n = .ok s') :
    ∃ p, Delivers s s' x (.activateWrite n) p := by
  unfold processActivateWrite at h
  simp only at h
  split at h
  · rename_i hcond
    rw [notify_ok h]
    exact ⟨_, (Changes.setPipe s x _).delivers_emit (if_pos hcond) (by simp) (by simp) rfl rfl rfl⟩
  · rename_i hcond
    cases h
    exact ⟨_, (Changes.setPipe s x _).delivers (if_neg hcond) (by simp) (by simp) rfl rfl
      fun _ => rfl⟩

theorem hiccup_delivers (h : s.processHiccup x q = .ok s') :
    ∃ p, Delivers s s' x (.hiccup q) p := by
  unfold processHiccup at h
  split at h
  · cases h
  have h := queue_bind h
  simp only at h
  split at h
  · rename_i hst
    rw [notify_ok h]
    exact ⟨_, Changes.delivers_emit ⟨rfl, rfl, rfl⟩ (if_pos hst) (by simp) (by simp) rfl rfl
      fun hq => absurd rfl (hq q)⟩
  · rename_i hst
    cases h
    exact ⟨_, Changes.delivers ⟨rfl, rfl, rfl⟩ (if_neg hst) (by simp) (by simp) rfl rfl
      fun hq => absurd rfl (hq q)⟩

theorem Changes.pipeTerm_delivers (h : Changes s s' x p) (hin : KeepsIn (s.pipe x) p)
    (hne : p.state ≠ .active)
    (hwaits : (s.pipe x).state.reading = true → (s.pipe x).delay = true → p.state.reading = true) :
    Delivers s s' x .pipeTerm p where
  pipe := h.pipe
  events := by rw [h.events, commandEvents, append_nil, update_eq_self]
  deallocated := by rw [h.deallocated, if_neg (by simp)]
  state hne := absurd rfl hne
  waits _ := hwaits
  closing := nofun
  keepsIn _ := hin
  keepsOut _ _ e := absurd e hne
  activatedIn := nofun
  activatedOut := nofun

theorem processPipeTerm_delivers (h : s.processPipeTerm x = .ok s') :
    ∃ p, Delivers s s' x .pipeTerm p := by
  unfold processPipeTerm at h
  split at h
  · rename_i hst
    split at h
    · cases h
      exact ⟨_, (Changes.setPipe ..).pipeTerm_delivers (fun _ => ⟨by rw [hst]; rfl, rfl⟩) (by simp)
        fun _ _ => rfl⟩
    · rename_i hdelay
      exact ⟨_, (acknowledge_changes h).pipeTerm_delivers nofun (by simp)
        fun _ e => absurd e hdelay⟩
  iterate 2
    rename_i hst
    exact ⟨_, (acknowledge_changes h).pipeTerm_delivers nofun (by simp) (by simp [hst])⟩
  · cases h

theorem deallocate_ends (h : s.deallocate x = .ok s') : s'.pipe = s.pipe ∧ s'.events = s.events ∧
      s'.deallocated = update s.deallocated x (s.deallocated x + 1) := by
  have h := queue_bind h
  cases h
  exact ⟨rfl, rfl, rfl⟩

/-- The end of `process_pipe_term_ack`, for an end that may have answered. -/
theorem deallocate_delivers {t : PipePair} (h : t.deallocate x = .ok s')
    (hchg : Changes (s.emit x .pipeTerminated) t x p) (hst : p.state = (s.pipe x).state)
    (hr : (s.pipe x).state.reading = false) : Delivers s s' x .pipeTermAck p := by
  obtain ⟨hpipe, hev, hdead⟩ := deallocate_ends h
  refine ⟨hpipe.trans hchg.pipe, hev.trans hchg.events, ?_, fun _ => hst, nofun, fun _ => hr,
    ?_, ?_, by simp [commandEvents], by simp [commandEvents]⟩
  · rw [hdead, hchg.deallocated]
    rfl
  · intro _ e
    rw [hst, hr] at e
    cases e
  · intro _ _ e
    exact absurd (hst ▸ e) (not_active_of_not_reading hr)

theorem pipeTermAck_delivers (h : s.processPipeTermAck x = .ok s') :
    ∃ p, Delivers s s' x .pipeTermAck p := by
  unfold processPipeTermAck at h
  split at h
  · cases h
  obtain ⟨s₁, h₁, h⟩ := bind_ok h
  rw [notify_ok h₁, emit_pipe] at h
  split at h
  · rename_i hst
    obtain ⟨s₂, h₂, h⟩ := bind_ok h
    exact ⟨_, deallocate_delivers h (acknowledge_changes h₂) hst.symm (by rw [hst]; rfl)⟩
  iterate 2
    rename_i hst
    exact ⟨_, deallocate_delivers h (.same (.refl _)) rfl (by rw [hst]; rfl)⟩
  · cases h

/-- **What a delivered command does to the end.** -/
theorem processCommand_delivers (h : s.processCommand x c = .ok s') : ∃ p, Delivers s s' x c p := by
  cases c with
  | activateRead => exact activateRead_delivers h
  | activateWrite => exact activateWrite_delivers h
  | hiccup => exact hiccup_delivers h
  | pipeTerm => exact processPipeTerm_delivers h
  | pipeTermAck => exact pipeTermAck_delivers h
  | pipeHwm =>
    cases h
    exact ⟨_, (Changes.setPipe ..).delivers rfl (by simp) (by simp) rfl rfl fun _ => rfl⟩
  | pipePeerStats =>
    cases h
    exact ⟨_, (Changes.same (.refl _)).delivers_emit rfl (by simp) (by simp) rfl rfl fun _ => rfl⟩

/-- The calls that ask for a message, or for a new queue. -/
def Action.reads : Action → Bool
  | .checkRead _ | .read _ | .hiccup _ => true
  | _ => false

/-- The calls that offer a message, take it back or publish it. -/
def Action.writes : Action → Bool
  | .checkWrite _ | .write _ _ | .rollback _ | .flush _ => true
  | _ => false

/-- What the owner of `x` is told in a step at that end. -/
def news (s : PipePair) (x : Side) : Action → List PipeEvent
  | .deliver _ =>
      match s.mail x with
      | [] => []
      | c :: _ => commandEvents (s.pipe x) c
  | _ => []

/-- At most one event is reported in a step. -/
theorem news_cases (s : PipePair) (x : Side) (a : Action) :
    s.news x a = [] ∨ ∃ e, s.news x a = [e] := by
  unfold news
  repeat' split
  · exact .inl rfl
  · rename_i c _ _
    cases c <;> simp only [commandEvents] <;> (try split) <;> simp
  · exact .inl rfl

/-- The owner is told that the end is terminated when the acknowledgement arrives. -/
theorem news_eq_pipeTerminated (h : s.news x a = [.pipeTerminated]) :
    ∃ y, a = .deliver y ∧ (s.mail x).head? = some .pipeTermAck := by
  cases a with
  | deliver y =>
    refine ⟨y, rfl, ?_⟩
    cases hmail : s.mail x with
    | nil => simp [news, hmail] at h
    | cons =>
      simp only [news, hmail, commandEvents_eq_pipeTerminated] at h
      rw [h, head?_cons]
  | _ => cases h

theorem deliver_delivers (h : s.deliver x = .ok s') (hmail : s.mail x = c :: rest) :
    ∃ p, Delivers (s.popMail x) s' x c p := by
  unfold deliver at h
  rw [hmail] at h
  simp only at h
  split at h
  · exact processCommand_delivers h
  · cases h

/-- What the owner of the end at which a step takes place can see of it. -/
structure Viewed (s s' : PipePair) (a : Action) (p : Pipe) : Prop where
  pipe : s'.pipe = Function.update s.pipe a.side p
  events : s'.events = Function.update s.events a.side (s.events a.side ++ s.news a.side a)
  deallocated : s'.deallocated = if s.news a.side a = [.pipeTerminated]
    then Function.update s.deallocated a.side (s.deallocated a.side + 1) else s.deallocated
  keepsIn : a.reads = false → s.news a.side a ≠ [.readActivated] → KeepsIn (s.pipe a.side) p
  keepsOut : a.writes = false → s.news a.side a ≠ [.writeActivated] →
    (∀ q, (s.mail a.side).head? = some (.hiccup q) → a ≠ .deliver a.side) →
    KeepsOut (s.pipe a.side) p
  /-- No end becomes active again. -/
  active : p.state = .active → (s.pipe a.side).state = .active
  /-- An end that reads goes on to do so, if it is not made to stop. -/
  reading : a.reads = false → (s.pipe a.side).state.reading = true →
    ¬ StopsReading s a.side a → p.state.reading = true
  terminated : s.news a.side a = [.pipeTerminated] → (s.pipe a.side).state.reading = false
  activatedIn : s.news a.side a = [.readActivated] →
    (s.pipe a.side).inActive = false ∧ (s.pipe a.side).state.reading = true ∧
      p.inActive = true ∧ p.state = (s.pipe a.side).state
  activatedOut : s.news a.side a = [.writeActivated] →
    (s.pipe a.side).outActive = false ∧ (s.pipe a.side).state = .active ∧
      p.outActive = true ∧ p.state = .active

section call
variable (h : Changes s s' a.side p) (hnews : s.news a.side a = [])
include h hnews

/-- A call, as opposed to a delivery. -/
theorem Changes.viewed (hin : a.reads = false → KeepsIn (s.pipe a.side) p)
    (hout : a.writes = false → KeepsOut (s.pipe a.side) p)
    (hactive : p.state = .active → (s.pipe a.side).state = .active)
    (hreading : a.reads = false → (s.pipe a.side).state.reading = true →
      ¬ StopsReading s a.side a → p.state.reading = true) : Viewed s s' a p where
  pipe := h.pipe
  events := by rw [h.events, hnews, append_nil, update_eq_self]
  deallocated := by rw [h.deallocated, hnews, if_neg (by simp)]
  keepsIn ha _ := hin ha
  keepsOut ha _ _ := hout ha
  active := hactive
  reading := hreading
  terminated e := absurd (hnews.symm.trans e) (by simp)
  activatedIn e := absurd (hnews.symm.trans e) (by simp)
  activatedOut e := absurd (hnews.symm.trans e) (by simp)

/-- A call that does not concern what the end may do. -/
theorem Changes.viewed_same (hst : p.state = (s.pipe a.side).state)
    (hin : p.inActive = (s.pipe a.side).inActive)
    (hout : p.outActive = (s.pipe a.side).outActive) : Viewed s s' a p :=
  h.viewed hnews (fun _ e => ⟨hst ▸ e, hin⟩) (fun _ e => ⟨hst ▸ e, hout⟩) (fun e => hst ▸ e)
    fun _ hr _ => hst ▸ hr

end call

theorem Delivers.viewed (hmail : s.mail x = c :: rest) (h : Delivers (s.popMail x) s' x c p) :
    Viewed s s' (.deliver x) p := by
  have hnews : s.news x (.deliver x) = commandEvents (s.pipe x) c := by simp [news, hmail]
  refine ⟨h.pipe, ?_, ?_, fun _ hne => ?_, fun _ hne hhic => ?_, fun e => ?_, fun _ hr hstop => ?_,
    fun e => ?_, fun e => ?_, fun e => ?_⟩ <;> simp only [Action.side, hnews] at *
  · exact h.events
  · simp only [commandEvents_eq_pipeTerminated]
    exact h.deallocated
  · exact h.keepsIn hne
  · refine h.keepsOut hne fun q e => ?_
    rw [hmail, e] at hhic
    exact hhic q rfl rfl
  · by_cases hc : c = .pipeTerm
    · exact (h.keepsOut (by simp [hc, commandEvents]) (by simp [hc]) e).1
    · exact h.state hc ▸ e
  · by_cases hc : c = .pipeTerm
    · refine h.waits hc hr ?_
      by_contra hno
      exact hstop ⟨rfl, by simp [hmail, hc], by simpa using hno⟩
    · rw [h.state hc]
      exact hr
  · exact h.closing (commandEvents_eq_pipeTerminated.mp e)
  · obtain ⟨rfl, hin, hr⟩ := commandEvents_eq_readActivated.mp e
    exact ⟨hin, hr, h.activatedIn e, h.state (by simp)⟩
  · obtain ⟨⟨n, rfl⟩, hout, hst⟩ := commandEvents_eq_writeActivated.mp e
    exact ⟨hout, hst, h.activatedOut e, (h.state (by simp)).trans hst⟩

theorem deliver_viewed (h : s.deliver x = .ok s') : ∃ p, Viewed s s' (.deliver x) p := by
  cases hmail : s.mail x with
  | nil =>
    unfold deliver at h
    rw [hmail] at h
    cases h
    exact ⟨_, (Changes.same (.refl s)).viewed_same (by simp [news, hmail]) rfl rfl rfl⟩
  | cons =>
    obtain ⟨p, hp⟩ := deliver_delivers h hmail
    exact ⟨p, hp.viewed hmail⟩

theorem Asked.keepsOut (h : Asked p p' b) : KeepsOut p p' := by
  rcases h with ⟨-, hst, -, -, -, hout⟩ | ⟨-, -, hkeep⟩
  · exact fun e => ⟨hst ▸ e, hout⟩
  · exact hkeep

theorem Offered.keepsIn (h : Offered p p' b) : KeepsIn p p' :=
  fun e => ⟨h.state ▸ e, h.inActive⟩

/-- **What an owner sees of a step**: its end changes as the reply and the events say, and
the other end does not change at all. -/
theorem step_viewed (h : s.step a = .ok (r, s')) : ∃ p, Viewed s s' a p := by
  cases a with
  | checkRead =>
    obtain ⟨⟨b, t⟩, hcall, ⟨⟩⟩ := map_ok h
    obtain ⟨p, hp, hasked⟩ := checkRead_changes hcall
    exact ⟨p, hp.viewed rfl nofun (fun _ => hasked.keepsOut) (fun e => (hasked.keepsOut e).1) nofun⟩
  | read =>
    obtain ⟨⟨m, t⟩, hcall, ⟨⟩⟩ := map_ok h
    obtain ⟨p, hp, hasked⟩ := read_changes hcall
    exact ⟨p, hp.viewed rfl nofun (fun _ => hasked.keepsOut) (fun e => (hasked.keepsOut e).1) nofun⟩
  | checkWrite x =>
    cases h
    exact ⟨_, (checkWrite_changes s x).viewed rfl (fun _ => (checkWrite_offered _).keepsIn) nofun
      (fun e => (checkWrite_offered _).1 ▸ e) fun _ hr _ => (checkWrite_offered _).1.symm ▸ hr⟩
  | write =>
    obtain ⟨⟨b, t⟩, hcall, ⟨⟩⟩ := map_ok h
    obtain ⟨p, hp, hoffered⟩ := write_changes hcall
    exact ⟨p, hp.viewed rfl (fun _ => hoffered.keepsIn) nofun (fun e => hoffered.1 ▸ e)
      fun _ hr _ => hoffered.1 ▸ hr⟩
  | rollback =>
    obtain ⟨t, hcall, ⟨⟩⟩ := map_ok h
    exact ⟨_, (Changes.same (rollback_ends hcall)).viewed_same rfl rfl rfl rfl⟩
  | flush =>
    obtain ⟨t, hcall, ⟨⟩⟩ := map_ok h
    exact ⟨_, (Changes.same (flush_ends hcall)).viewed_same rfl rfl rfl rfl⟩
  | setNodelay x =>
    cases h
    exact ⟨{ s.pipe x with delay := false }, (Changes.setPipe s x _).viewed_same rfl rfl rfl rfl⟩
  | hiccup x =>
    obtain ⟨t, hcall, ⟨⟩⟩ := map_ok h
    unfold hiccup at hcall
    split at hcall
    · cases hcall
      exact ⟨_, (Changes.same (.refl s)).viewed_same rfl rfl rfl rfl⟩
    · -- the new queue belongs to the heap, not to an end
      have hcreate : SameEnds s (s.create (new (s.pipe x).conflate)) := ⟨rfl, rfl, rfl⟩
      exact ⟨_, (((Changes.same hcreate).then_setPipe _).ends (send_ends hcall)).viewed rfl nofun
        (fun _ hr => ⟨hr, rfl⟩) id nofun⟩
  | terminate =>
    obtain ⟨t, hcall, ⟨⟩⟩ := map_ok h
    obtain ⟨p, hp, hin, hne, hreading⟩ := terminate_changes hcall
    exact ⟨p, hp.viewed rfl (fun _ => hin) (fun _ e => absurd e hne) (fun e => absurd e hne)
      fun _ => hreading⟩
  | updateHwms x i o =>
    obtain ⟨t, hcall, ⟨⟩⟩ := map_ok h
    exact ⟨(s.pipe x).setHwms i o,
      ((Changes.setPipe s x _).ends (send_ends hcall)).viewed_same rfl rfl rfl rfl⟩
  | sendStatsToPeer =>
    obtain ⟨t, hcall, ⟨⟩⟩ := map_ok h
    exact ⟨_, (Changes.same (send_ends hcall)).viewed_same rfl rfl rfl rfl⟩
  | deliver =>
    obtain ⟨t, hcall, ⟨⟩⟩ := map_ok h
    exact deliver_viewed hcall

/-- An end whose owner is told that it is terminated does not read. -/
theorem not_reading_of_terminated (h : s.step a = .ok (r, s'))
    (hnews : s.news a.side a = [.pipeTerminated]) : (s.pipe a.side).state.reading = false := by
  obtain ⟨p, hp⟩ := step_viewed h
  exact hp.terminated hnews

/-- An end that reads goes on to do so, if it is not made to stop. -/
theorem reading_of_step (h : s.step a = .ok (r, s')) (hreads : a.side = x → a.reads = false)
    (hreading : (s.pipe x).state.reading = true) (hstop : ¬ StopsReading s x a) :
    (s'.pipe x).state.reading = true := by
  obtain ⟨p, hp⟩ := step_viewed h
  by_cases hside : a.side = x
  · subst hside
    rw [hp.pipe, update_self]
    exact hp.reading (hreads rfl) hreading hstop
  · rw [hp.pipe, update_of_ne (Ne.symm hside)]
    exact hreading

end PipePair
end LibZmq
