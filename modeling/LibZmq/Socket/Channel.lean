import LibZmq.Pipe.Midway
import LibZmq.Trie.Links

/-!
# The pipes of a socket

A socket owns one end of every pipe it is connected with. The pairs are numbered, and
the socket holds the first end of each. Beside a pair stands the history of its two
directions, which no function of the model looks at.

The socket calls its end directly (`read`, `write`, …). Everything else that happens to a
pair is a step of `act`: what the peer does, the delivery of commands at either end, and
the calls that the socket makes for other reasons than to pass a message on. It returns
what the socket is told.
-/

namespace LibZmq

open LibZmq.Core PipePair Function

abbrev PipeId := Nat

/-- A message of a user, which is neither a delimiter nor credentials. -/
def Msg.Ordinary (m : Msg) : Prop := m.isDelimiter = false ∧ m.isCredential = false

/-- What must not happen in a socket. -/
inductive Failure where
  | pipe (f : Fault)
  /-- A `zmq_assert` does not hold. -/
  | assertion
  /-- A position in an array is out of range. -/
  | outOfRange
  | trie (f : TrieFault)
deriving DecidableEq, Repr

/-- How a step has failed, if it has. -/
def failure? {β : Type} : Except Failure β → Option Failure
  | .error f => some f
  | .ok _ => none

theorem failure?_eq_some {β : Type} {e : Except Failure β} {f : Failure} :
    failure? e = some f ↔ e = .error f := by
  cases e <;> simp [failure?]

/-- An operation on an array whose positions must be in range. -/
def inRange {β : Type} : Option β → Except Failure β
  | none => .error .outOfRange
  | some b => .ok b

theorem inRange_ok {β : Type} {o : Option β} {b : β} (h : inRange o = .ok b) : o = some b := by
  cases o <;> cases h
  rfl

/-- A message of one part. -/
def single (b : UInt8) : Msg := { Msg.init with data := [b] }

/-- A pair of pipe ends and the history of its two directions. -/
structure Channel where
  pair : PipePair
  log : Side → Log
  /-- How often the socket has called `flush`. -/
  flushes : Nat

namespace Channel

/-- A new pair. -/
def start (hwm₀ hwm₁ : Int) : Channel :=
  { pair := PipePair.start hwm₀ hwm₁ false false, log := fun _ => .empty, flushes := 0 }

/-- The pair has made the step `l` to `s`. -/
def note (c : Channel) (s : PipePair) (l : Action × Reply) : Channel :=
  { pair := s
    log := fun w => (c.log w).record (signal c.pair w l)
    flushes := if l.1 = .flush .first then c.flushes + 1 else c.flushes }

/-- The socket's end. -/
def pipe (c : Channel) : Pipe := c.pair.pipe .first

/-- The parts that the socket has read. -/
def got (c : Channel) : List Msg := (c.log .second).got

/-- The messages that the socket has written. -/
def sent (c : Channel) : List (List Msg) := (c.log .first).sent

/-- The parts of the message that it is writing. -/
def begun (c : Channel) : List Msg := (c.log .first).begun

/-- The socket has been told `pipe_terminated`. -/
def gone (c : Channel) : Prop := c.pair.deallocated .first ≠ 0

instance (c : Channel) : Decidable c.gone := inferInstanceAs (Decidable (_ ≠ _))

/-- The socket's end takes a message. -/
def Writable (c : Channel) : Prop :=
  c.pipe.state = .active ∧ c.pipe.outActive = true ∧ c.pipe.checkHwm = true

instance (c : Channel) : Decidable c.Writable := inferInstanceAs (Decidable (_ ∧ _))

end Channel

/-- Nothing was written while `c` has become `c'`; a message that is not complete is dropped only
when the pipe is closed. -/
structure Channel.Unwritten (c c' : Channel) : Prop where
  sent : c'.sent = c.sent
  flushes : c'.flushes = c.flushes
  begun : c'.begun = c.begun ∨ c'.begun = [] ∧ c'.pipe.state ≠ .active
  state : c'.pipe.state = .active → c.pipe.state = .active
  gone : c.gone → c'.gone

namespace Channel.Unwritten

theorem refl (c : Channel) : c.Unwritten c := ⟨rfl, rfl, .inl rfl, id, id⟩

theorem trans (h : Unwritten c c') (h' : Unwritten c' c'') : Unwritten c c'' where
  sent := h'.sent.trans h.sent
  flushes := h'.flushes.trans h.flushes
  begun := by
    rcases h'.begun with hsame | hno
    · rw [hsame]
      exact h.begun.imp_right fun ⟨hnil, hno⟩ => ⟨hnil, mt h'.state hno⟩
    · exact .inr hno
  state hst := h.state (h'.state hst)
  gone hg := h'.gone (h.gone hg)

/-- A pipe that is still active is as before. -/
theorem active (h : Unwritten c c') (hst : c'.pipe.state = .active) :
    c.pipe.state = .active ∧ c'.begun = c.begun :=
  ⟨h.state hst, h.begun.resolve_right fun hno => hno.2 hst⟩

end Channel.Unwritten

/-- All pairs, by number. -/
abbrev Channels := PipeId → Channel

namespace Channels

/-- A fault of a pair is a failure of the socket. -/
def lift {β : Type} : Except Fault β → Except Failure β
  | .error f => .error (.pipe f)
  | .ok b => .ok b

/-- Pair `p` has made the step `l` to `s`. -/
def note (cs : Channels) (p : PipeId) (s : PipePair) (l : Action × Reply) : Channels :=
  Function.update cs p ((cs p).note s l)

/-! ## Calls on the socket's end -/

def read (cs : Channels) (p : PipeId) : Except Failure (Option Msg × Channels) := do
  let (m, s) ← lift ((cs p).pair.read .first)
  pure (m, cs.note p s (.read .first, .message m))

def checkRead (cs : Channels) (p : PipeId) : Except Failure (Bool × Channels) := do
  let (b, s) ← lift ((cs p).pair.checkRead .first)
  pure (b, cs.note p s (.checkRead .first, .flag b))

def write (cs : Channels) (p : PipeId) (m : Msg) : Except Failure (Bool × Channels) := do
  let (b, s) ← lift ((cs p).pair.write .first m)
  pure (b, cs.note p s (.write .first m, .flag b))

def checkWrite (cs : Channels) (p : PipeId) : Bool × Channels :=
  let (b, s) := (cs p).pair.checkWrite .first
  (b, cs.note p s (.checkWrite .first, .flag b))

def rollback (cs : Channels) (p : PipeId) : Except Failure Channels := do
  let s ← lift ((cs p).pair.rollback .first)
  pure (cs.note p s (.rollback .first, .done))

def flush (cs : Channels) (p : PipeId) : Except Failure Channels := do
  let s ← lift ((cs p).pair.flush .first)
  pure (cs.note p s (.flush .first, .done))

def terminate (cs : Channels) (p : PipeId) (delay : Bool) : Except Failure Channels := do
  let s ← lift ((cs p).pair.terminate .first delay)
  pure (cs.note p s (.terminate .first delay, .done))

/-! ## Other steps -/

/-- A step of pair `p`, and what the socket is told in it. -/
def act (cs : Channels) (p : PipeId) (a : Action) :
    Except Failure (List PipeEvent × Channels) := do
  let (r, s) ← lift ((cs p).pair.step a)
  pure ((s.events .first).drop ((cs p).pair.events .first).length, cs.note p s (a, r))

/-! ## What a call leaves behind -/

/-- Pair `p` has made the step `l`; the others are as before. -/
def Called (cs cs' : Channels) (p : PipeId) (l : Action × Reply) : Prop :=
  ∃ s, Step (cs p).pair l s ∧ cs' = cs.note p s l

variable {cs cs' : Channels} {p q : PipeId} {a : Action} {r : Reply}

theorem pair_note : (cs.note p s l p).pair = s := by
  rw [note, update_self]
  rfl

theorem pipe_note : (cs.note p s l p).pipe = s.pipe .first := by
  rw [Channel.pipe, pair_note]

theorem lift_bind_ok {β γ : Type} {f : Except Fault β} {g : β → Except Failure γ} {c : γ}
    (h : (lift f >>= g) = .ok c) : ∃ b, f = .ok b ∧ g b = .ok c := by
  cases f with
  | error => cases h
  | ok b => exact ⟨b, rfl, h⟩

/-- A call is carried out, or ends with a failure that a pair as it should be does not give. -/
theorem lift_spec {P : Prop} {β γ : Type} {f : Except Fault β} {g : β → Except Failure γ}
    (hg : ∀ b, ∃ c, g b = .ok c) (hok : P → ∃ b, f = .ok b) :
    (∃ e, (lift f >>= g) = .error (.pipe e) ∧ ¬ P) ∨ ∃ c, (lift f >>= g) = .ok c := by
  cases f with
  | error e =>
    refine .inl ⟨e, rfl, fun hp => ?_⟩
    obtain ⟨b, hb⟩ := hok hp
    cases hb
  | ok b => exact .inr (hg b)

section calls
variable (halive : ¬ (cs p).gone)
include halive

theorem read_called {m : Option Msg} (h : cs.read p = .ok (m, cs')) :
    Called cs cs' p (.read .first, .message m) := by
  obtain ⟨⟨m', s⟩, hcall, ⟨⟩⟩ := lift_bind_ok h
  exact ⟨s, ⟨of_not_not halive, congrArg (Except.map _) hcall⟩, rfl⟩

theorem checkRead_called {b : Bool} (h : cs.checkRead p = .ok (b, cs')) :
    Called cs cs' p (.checkRead .first, .flag b) := by
  obtain ⟨⟨b', s⟩, hcall, ⟨⟩⟩ := lift_bind_ok h
  exact ⟨s, ⟨of_not_not halive, congrArg (Except.map _) hcall⟩, rfl⟩

theorem write_called {m : Msg} {b : Bool} (hm : m.isDelimiter = false)
    (h : cs.write p m = .ok (b, cs')) : Called cs cs' p (.write .first m, .flag b) := by
  obtain ⟨⟨b', s⟩, hcall, ⟨⟩⟩ := lift_bind_ok h
  exact ⟨s, ⟨⟨of_not_not halive, hm⟩, congrArg (Except.map _) hcall⟩, rfl⟩

theorem checkWrite_called :
    Called cs (cs.checkWrite p).2 p (.checkWrite .first, .flag (cs.checkWrite p).1) :=
  ⟨_, ⟨of_not_not halive, rfl⟩, rfl⟩

theorem rollback_called (h : cs.rollback p = .ok cs') :
    Called cs cs' p (.rollback .first, .done) := by
  obtain ⟨s, hcall, ⟨⟩⟩ := lift_bind_ok h
  exact ⟨s, ⟨of_not_not halive, congrArg (Except.map _) hcall⟩, rfl⟩

theorem flush_called (h : cs.flush p = .ok cs') : Called cs cs' p (.flush .first, .done) := by
  obtain ⟨s, hcall, ⟨⟩⟩ := lift_bind_ok h
  exact ⟨s, ⟨of_not_not halive, congrArg (Except.map _) hcall⟩, rfl⟩

theorem terminate_called {delay : Bool} (h : cs.terminate p delay = .ok cs') :
    Called cs cs' p (.terminate .first delay, .done) := by
  obtain ⟨s, hcall, ⟨⟩⟩ := lift_bind_ok h
  exact ⟨s, ⟨of_not_not halive, congrArg (Except.map _) hcall⟩, rfl⟩

end calls

namespace Called

theorem channel_of_ne (h : Called cs cs' p l) (hq : q ≠ p) : cs' q = cs q := by
  obtain ⟨s, -, rfl⟩ := h
  exact update_of_ne hq ..

theorem channel_self (h : Called cs cs' p l) :
    ∃ s, Step (cs p).pair l s ∧ cs' p = (cs p).note s l := by
  obtain ⟨s, hs, rfl⟩ := h
  exact ⟨s, hs, update_self ..⟩

section
variable (h : Called cs cs' p (a, r))
include h

theorem viewed : ∃ u, Viewed (cs p).pair (cs' p).pair a u := by
  obtain ⟨s, hs, he⟩ := h.channel_self
  rw [he]
  exact step_viewed hs.2

/-- A pipe is gone when the socket has been told so. -/
theorem gone_iff (hnews : a.side = .first → (cs p).pair.news .first a ≠ [.pipeTerminated]) :
    (cs' p).gone ↔ (cs p).gone := by
  obtain ⟨u, hu⟩ := h.viewed
  have hd : (cs' p).pair.deallocated .first = (cs p).pair.deallocated .first := by
    rw [hu.deallocated]
    split
    · rename_i hterm
      have hside : a.side ≠ .first := fun e => hnews e (e ▸ hterm)
      rw [update_of_ne (Ne.symm hside)]
    · rfl
  rw [Channel.gone, hd, Channel.gone]

/-- A pipe that is gone does not come back. -/
theorem gone_mono (hg : (cs q).gone) : (cs' q).gone := by
  rcases eq_or_ne q p with rfl | hne
  · obtain ⟨u, hu⟩ := h.viewed
    rw [Channel.gone, hu.deallocated]
    split
    · rw [update_apply]
      split
      · exact Nat.succ_ne_zero _
      · exact hg
    · exact hg
  · rw [h.channel_of_ne hne]
    exact hg

/-- The socket's end goes on to read, if it is not made to stop. -/
theorem reading (hreads : a.side = .first → a.reads = false) (hr : (cs p).pipe.state.reading = true)
    (hstop : ¬ StopsReading (cs p).pair .first a) : (cs' p).pipe.state.reading = true := by
  obtain ⟨s, hs, he⟩ := h.channel_self
  rw [he]
  exact reading_of_step hs.2 hreads hr hstop

/-- The socket reads its end with `read` only. -/
theorem got_of_ne (hread : a ≠ .read .first)
    (hhic : a ≠ .hiccup .first) : (cs' p).got = (cs p).got := by
  obtain ⟨s, -, he⟩ := h.channel_self
  rw [he]
  simp only [Channel.got, Channel.note]
  cases hg : signal (cs p).pair .second (a, r) with
  | took => exact absurd (signal_took hg).1 hread
  | hiccuped => exact absurd (signal_hiccuped hg).1 hhic
  | wrote =>
    simp only [Log.record]
    repeat' split
    all_goals rfl
  | _ => rfl

/-- What the socket writes is changed by its own calls only. -/
theorem unwritten (hw : a.side = .first → a.writes = false) (q : PipeId) :
    (cs q).Unwritten (cs' q) := by
  have hgone := h.gone_mono (q := q)
  rcases eq_or_ne q p with rfl | hne
  case inr =>
    rw [h.channel_of_ne hne]
    exact .refl _
  obtain ⟨s, hs, he⟩ := h.channel_self
  have hstate : (cs' q).pipe.state = .active → (cs q).pipe.state = .active := fun hst =>
    active_of_step hs.2 (by rwa [he] at hst)
  suffices hlog : (cs' q).sent = (cs q).sent ∧ (cs' q).flushes = (cs q).flushes ∧
      ((cs' q).begun = (cs q).begun ∨ (cs' q).begun = [] ∧ (cs' q).pipe.state ≠ .active) from
    ⟨hlog.1, hlog.2.1, hlog.2.2, hstate, hgone⟩
  have hflush : a ≠ .flush .first := by
    rintro rfl
    cases hw rfl
  have hclosed := not_active_of_closed (w := .first) hs.2
  rw [he]
  simp only [Channel.sent, Channel.begun, Channel.note, if_neg hflush]
  cases hg : signal (cs q).pair .first (a, r) with
  | wrote =>
    obtain ⟨rfl, -⟩ := signal_wrote hg
    cases hw rfl
  | dropped =>
    have hroll : a = .rollback .first := by
      unfold signal at hg
      grind
    subst hroll
    cases hw rfl
  | closed => exact ⟨rfl, trivial, .inr ⟨rfl, hclosed hg⟩⟩
  | _ => exact ⟨rfl, trivial, .inl rfl⟩

end

end Called

theorem got_read {m : Option Msg} (h : cs.read p = .ok (m, cs')) :
    (cs' p).got = (cs p).got ++ m.toList := by
  obtain ⟨⟨-, -⟩, -, ⟨⟩⟩ := lift_bind_ok h
  rw [note]
  cases m with
  | none => simp [Channel.got, Channel.note, signal, Log.record]
  | some m =>
    have hg : signal (cs p).pair .second (.read .first, .message (some m)) = .took m := rfl
    simp [Channel.got, Channel.note, hg, Log.record]

/-- What the socket is told in a step of a pair. -/
theorem act_called {ev : List PipeEvent} (hen : (cs p).pair.Enabled a)
    (h : cs.act p a = .ok (ev, cs')) :
    ∃ r, Called cs cs' p (a, r) ∧
      ev = if a.side = .first then (cs p).pair.news .first a else [] := by
  obtain ⟨⟨r, s⟩, hcall, ⟨⟩⟩ := lift_bind_ok h
  refine ⟨r, ⟨s, ⟨hen, hcall⟩, rfl⟩, ?_⟩
  obtain ⟨u, hu⟩ := step_viewed hcall
  rw [hu.events, update_apply]
  split
  · rename_i hside
    rw [if_pos hside.symm, ← hside, List.drop_left]
  · rename_i hside
    rw [if_neg (Ne.symm hside), List.drop_length]

end Channels

/-! ## Sound pairs -/

/-- The pair is in order, and both its queues are ordinary ones. -/
structure Channel.Healthy (c : Channel) : Prop where
  sound : Sound c.pair
  normal : NoConflate c.pair
  ended : ∀ w, Ended c.pair w

/-- The history of the messages from `w` agrees with the pair. -/
def Channel.Follows (c : Channel) (w : Side) : Prop := PipePair.Follows c.pair w (c.log w)

/-- What the calls with which a socket sends keep: `c` has become `c'`. -/
structure Channel.Kept (c c' : Channel) : Prop where
  healthy : c.Healthy → c'.Healthy
  heard : c.Healthy → c.Follows .second → c'.Follows .second
  gone : c'.gone ↔ c.gone
  state : c'.pipe.state = c.pipe.state
  inActive : c'.pipe.inActive = c.pipe.inActive
  got : c'.got = c.got
  inbox : c.Healthy → c'.pair.inbox .first = c.pair.inbox .first

namespace Channel

theorem Kept.refl (c : Channel) : c.Kept c := ⟨id, fun _ => id, .rfl, rfl, rfl, rfl, fun _ => rfl⟩

theorem Kept.trans (h : Kept c c') (h' : Kept c' c'') : Kept c c'' where
  healthy hh := h'.healthy (h.healthy hh)
  heard hh hf := h'.heard (h.healthy hh) (h.heard hh hf)
  gone := h'.gone.trans h.gone
  state := h'.state.trans h.state
  inActive := h'.inActive.trans h.inActive
  got := h'.got.trans h.got
  inbox hh := (h'.inbox (h.healthy hh)).trans (h.inbox hh)

/-- What the calls with which a socket receives keep: `c` has become `c'`. -/
structure Quiet (c c' : Channel) : Prop extends Unwritten c c' where
  healthy : c.Healthy → c'.Healthy
  told : c.Healthy → c.Follows .first → c'.Follows .first
  alive : c'.gone → c.gone
  keepsOut : KeepsOut c.pipe c'.pipe

theorem Quiet.refl (c : Channel) : c.Quiet c := ⟨.refl c, id, fun _ => id, id, .refl _⟩

theorem Quiet.trans (h : Quiet c c') (h' : Quiet c' c'') : Quiet c c'' where
  toUnwritten := h.toUnwritten.trans h'.toUnwritten
  healthy hh := h'.healthy (h.healthy hh)
  told hh hf := h'.told (h.healthy hh) (h.told hh hf)
  alive hg := h.alive (h'.alive hg)
  keepsOut := h.keepsOut.trans h'.keepsOut

theorem healthy_start (hwm₀ hwm₁ : Int) : (start hwm₀ hwm₁).Healthy :=
  ⟨sound_start .., noConflate_start .., ended_start _ _⟩

theorem follows_start (hwm₀ hwm₁ : Int) (w : Side) : (start hwm₀ hwm₁).Follows w :=
  PipePair.follows_start hwm₀ hwm₁ w

end Channel

namespace Channels

variable {cs cs' : Channels} {p : PipeId} {a : Action} {r : Reply}

theorem Called.healthy (h : Called cs cs' p (a, r)) (hh : (cs p).Healthy)
    (hp : (cs p).pair.Prudent a) : (cs' p).Healthy := by
  obtain ⟨s, hs, he⟩ := h.channel_self
  rw [he]
  exact ⟨hh.sound.step hs hp, hh.normal.outcome (hh.sound.outcome_of_step hs hp),
    fun w => (hh.ended w).step hh.sound hh.normal hs hp⟩

theorem Called.follows (h : Called cs cs' p (a, r)) (hh : (cs p).Healthy)
    (hf : (cs p).Follows w) (hp : (cs p).pair.Prudent a)
    (hu : Undivided w ((cs p).pair, (cs p).log w) a) : (cs' p).Follows w := by
  obtain ⟨s, hs, he⟩ := h.channel_self
  rw [he]
  exact PipePair.Follows.step hf hh.sound hh.normal hs hp hu

/-- The socket has asked `p` for a message, and has got `parts`. -/
structure Asks (cs cs' : Channels) (p : PipeId) (parts : List Msg) (found : Bool) : Prop where
  others : ∀ q, q ≠ p → cs' q = cs q
  healthy : (cs' p).Healthy
  follows : (cs p).Follows .second → (cs' p).Follows .second
  gone : ¬ (cs' p).gone
  asked : Asked (cs p).pipe (cs' p).pipe found
  got : (cs' p).got = (cs p).got ++ parts
  quiet : (cs p).Quiet (cs' p)

theorem Asks.all_quiet (h : Asks cs cs' p parts found) (q : PipeId) : (cs q).Quiet (cs' q) := by
  rcases eq_or_ne q p with rfl | hne
  · exact h.quiet
  · rw [h.others q hne]
    exact .refl _

section asking
variable (hc : Called cs cs' p (a, r)) (hp : (cs p).pair.Prudent a)
  (hu : ∀ w, Undivided w ((cs p).pair, (cs p).log w) a) (hwrites : a.writes = false)
  (hnews : (cs p).pair.news .first a = [])
include hc hp hu hwrites hnews

theorem Called.quiet (hkeeps : KeepsOut (cs p).pipe (cs' p).pipe) : (cs p).Quiet (cs' p) :=
  ⟨hc.unwritten (fun _ => hwrites) p, fun hh => hc.healthy hh hp,
    fun hh hf => hc.follows hh hf hp (hu _), (hc.gone_iff fun _ => by simp [hnews]).mp, hkeeps⟩

theorem Called.asks (hasked : Asked (cs p).pipe (cs' p).pipe found) (hh : (cs p).Healthy)
    (halive : ¬ (cs p).gone) (hgot : (cs' p).got = (cs p).got ++ parts) :
    Asks cs cs' p parts found := by
  have hquiet := hc.quiet hp hu hwrites hnews hasked.keepsOut
  exact ⟨fun q hq => hc.channel_of_ne hq, hc.healthy hh hp, fun hf => hc.follows hh hf hp (hu _),
    mt hquiet.alive halive, hasked, hgot, hquiet⟩

end asking

section asking
variable (halive : ¬ (cs p).gone)
include halive

theorem read_quiet (hread : cs.read p = .ok (m, cs')) :
    (∀ q, q ≠ p → cs' q = cs q) ∧ (cs p).Quiet (cs' p) := by
  have hc := read_called halive hread
  obtain ⟨⟨m', s⟩, hs, ⟨⟩⟩ := lift_bind_ok hread
  obtain ⟨u, hu, hasked⟩ := read_changes hs
  refine ⟨fun q hq => hc.channel_of_ne hq, hc.quiet trivial (fun _ => trivial) rfl rfl ?_⟩
  rw [pipe_note, hu.pipe_self]
  exact hasked.keepsOut

variable (hh : (cs p).Healthy)
include hh

theorem read_asks : ∃ m cs', cs.read p = .ok (m, cs') ∧ Asks cs cs' p m.toList m.isSome := by
  obtain ⟨m, s, hs, -⟩ := hh.sound.read_outcome (of_not_not halive)
  have hread : cs.read p = .ok (m, cs.note p s (.read .first, .message m)) := by
    rw [read, hs]
    rfl
  have hc := read_called halive hread
  obtain ⟨u, hu, hasked⟩ := read_changes hs
  refine ⟨m, _, hread, hc.asks trivial (fun _ => trivial) rfl rfl ?_ hh halive (got_read hread)⟩
  rw [pipe_note, hu.pipe_self]
  exact hasked

theorem checkRead_asks : ∃ b cs', cs.checkRead p = .ok (b, cs') ∧ Asks cs cs' p [] b := by
  obtain ⟨b, s, hs, -⟩ := hh.sound.checkRead_outcome (of_not_not halive)
  have hread : cs.checkRead p = .ok (b, cs.note p s (.checkRead .first, .flag b)) := by
    rw [checkRead, hs]
    rfl
  have hc := checkRead_called halive hread
  obtain ⟨u, hu, hasked⟩ := checkRead_changes hs
  refine ⟨b, _, hread, hc.asks trivial (fun _ => trivial) rfl rfl ?_ hh halive ?_⟩
  · rw [pipe_note, hu.pipe_self]
    exact hasked
  · rw [hc.got_of_ne (by simp) (by simp), List.append_nil]

end asking

/-- The socket has made a call on `p`, after which its history is as `sent`, `begun` and
`flushes` say. -/
structure Calls (cs cs' : Channels) (p : PipeId) (sent : List (List Msg)) (begun : List Msg)
    (flushes : Nat) : Prop where
  others : ∀ q, q ≠ p → cs' q = cs q
  kept : (cs p).Kept (cs' p)
  follows : (cs p).Healthy → (cs p).Follows .first → (cs' p).Follows .first
  gone : ¬ (cs' p).gone
  sent : (cs' p).sent = sent
  begun : (cs' p).begun = begun
  flushes : (cs' p).flushes = flushes

/-- The socket has asked whether `p` takes a message, or has found that it does not. -/
structure Offers (cs cs' : Channels) (p : PipeId) (taken : Bool) : Prop extends
    Calls cs cs' p (cs p).sent (cs p).begun (cs p).flushes where
  offered : Offered (cs p).pipe (cs' p).pipe taken

/-- The socket has written the part `m`. -/
structure Writes (cs cs' : Channels) (p : PipeId) (m : Msg) : Prop extends
    Calls cs cs' p (if m.hasMore then (cs p).sent else (cs p).sent ++ [(cs p).begun ++ [m]])
      (if m.hasMore then (cs p).begun ++ [m] else []) (cs p).flushes where
  offered : Offered (cs p).pipe (cs' p).pipe true
  /-- A pipe that takes a part takes the rest of the message. -/
  ready : m.hasMore = true → (cs' p).Writable

theorem Calls.healthy (h : Calls cs cs' p l b n) : (cs p).Healthy → (cs' p).Healthy :=
  h.kept.healthy

theorem Calls.all_kept (h : Calls cs cs' p l b n) (q : PipeId) : (cs q).Kept (cs' q) := by
  rcases eq_or_ne q p with rfl | hne
  · exact h.kept
  · rw [h.others q hne]
    exact .refl _

theorem Writes.writable (h : Writes cs cs' p m) : (cs p).Writable := h.offered.taken.mp rfl

theorem Writes.outActive (h : Writes cs cs' p m) : (cs' p).pipe.outActive = true :=
  h.offered.outActive (h.offered.state.trans h.writable.1)

theorem Offers.not_writable (h : Offers cs cs' p false) : ¬ (cs p).Writable := fun hw =>
  Bool.false_ne_true (h.offered.taken.mpr hw)

/-- The socket's own calls tell it nothing. -/
theorem Called.calls (hc : Called cs cs' p (a, r)) (halive : ¬ (cs p).gone)
    (hp : (cs p).pair.Prudent a) (hu : ∀ w, Undivided w ((cs p).pair, (cs p).log w) a)
    (hreads : a.reads = false) (hnews : (cs p).pair.news .first a = [])
    (hpipe : (cs' p).pipe.state = (cs p).pipe.state ∧ (cs' p).pipe.inActive = (cs p).pipe.inActive)
    (hinbox : (cs p).Healthy → (cs' p).pair.inbox .first = (cs p).pair.inbox .first)
    (ho : ((cs p).log .first).record (signal (cs p).pair .first (a, r)) = o)
    (hn : (if a = .flush .first then (cs p).flushes + 1 else (cs p).flushes) = n) :
    Calls cs cs' p o.sent o.begun n := by
  obtain ⟨s, -, he⟩ := hc.channel_self
  have hgone := hc.gone_iff fun _ => by simp [hnews]
  have hgot : (cs' p).got = (cs p).got := by
    refine hc.got_of_ne ?_ ?_ <;>
    · rintro rfl
      cases hreads
  refine ⟨fun q hq => hc.channel_of_ne hq, ⟨fun hh => hc.healthy hh hp,
    fun hh hf => hc.follows hh hf hp (hu _), hgone, hpipe.1, hpipe.2, hgot, hinbox⟩,
    fun hh hf => hc.follows hh hf hp (hu _), mt hgone.mp halive, ?_, ?_, ?_⟩
  · rw [← ho, he]
    rfl
  · rw [← ho, he]
    rfl
  · rw [← hn, he]
    rfl

section offering
variable (halive : ¬ (cs p).gone)
include halive

theorem write_cases (hmsg : m.Ordinary) (h : cs.write p m = .ok (b, cs')) :
    b = true ∧ Writes cs cs' p m ∨ b = false ∧ Offers cs cs' p false := by
  have hc := write_called halive hmsg.1 h
  obtain ⟨⟨b', s⟩, hs, ⟨⟩⟩ := lift_bind_ok h
  have hund : ∀ w, Undivided w ((cs p).pair, (cs p).log w) (.write .first m) := by
    rintro - - hyes
    rw [hmsg.2] at hyes
    cases hyes
  obtain ⟨u, hu, hoffered⟩ := write_changes hs
  have hoff : Offered (cs p).pipe (cs.note p s (.write .first m, .flag b) p).pipe b := by
    rw [pipe_note, hu.pipe_self]
    exact hoffered
  have hcalls := hc.calls halive trivial hund rfl rfl ⟨hoff.state, hoff.inActive⟩
    (fun hh => by rw [pair_note, inbox_write hh.sound (of_not_not halive) hs]) rfl rfl
  cases b with
  | true =>
    refine .inl ⟨rfl, ?_, hoff, fun hmore => ?_⟩
    · simp only [signal, if_true, Log.record, hmsg.2] at hcalls
      cases hmore : m.hasMore <;> simpa [hmore, Channel.sent, Channel.begun] using hcalls
    · rw [Channel.Writable, pipe_note, write_pipe_of_more hs hmore]
      exact hoffered.taken.mp rfl
  | false => exact .inr ⟨rfl, hcalls, hoff⟩

theorem write_spec (hmsg : m.Ordinary) :
    (∃ f, cs.write p m = .error (.pipe f) ∧ ¬ (cs p).Healthy) ∨
      ∃ b cs', cs.write p m = .ok (b, cs') ∧
        (b = true ∧ Writes cs cs' p m ∨ b = false ∧ Offers cs cs' p false) := by
  refine (lift_spec (fun _ => ⟨_, rfl⟩) fun hh => ?_).imp_right ?_
  · obtain ⟨b, s, hs, -⟩ := hh.sound.write_outcome (of_not_not halive) hmsg.1
    exact ⟨_, hs⟩
  · rintro ⟨⟨b, cs'⟩, h⟩
    exact ⟨b, cs', h, write_cases halive hmsg h⟩

theorem checkWrite_offers : Offers cs (cs.checkWrite p).2 p (cs.checkWrite p).1 := by
  have hoff : Offered (cs p).pipe ((cs.checkWrite p).2 p).pipe (cs.checkWrite p).1 := by
    rw [checkWrite, pipe_note, (checkWrite_changes (cs p).pair .first).pipe_self]
    exact checkWrite_offered _
  refine ⟨(checkWrite_called halive).calls halive trivial (fun _ => trivial) rfl rfl
    ⟨hoff.state, hoff.inActive⟩ (fun _ => ?_) rfl rfl, hoff⟩
  rw [checkWrite, pair_note, inbox_checkWrite]

theorem rollback_spec : (∃ f, cs.rollback p = .error (.pipe f) ∧ ¬ (cs p).Healthy) ∨
      ∃ cs', cs.rollback p = .ok cs' ∧ (cs' p).pipe = (cs p).pipe ∧
        Calls cs cs' p (cs p).sent [] (cs p).flushes := by
  refine (lift_spec (fun _ => ⟨_, rfl⟩) fun hh => ?_).imp_right ?_
  · obtain ⟨s, hs, -⟩ := hh.sound.rollback_outcome .first
    exact ⟨s, hs⟩
  rintro ⟨cs', h⟩
  have hc := rollback_called halive h
  refine ⟨cs', h, ?_⟩
  obtain ⟨s, hs, ⟨⟩⟩ := lift_bind_ok h
  have hpipe : (cs.note p s (.rollback .first, .done) p).pipe = (cs p).pipe := by
    rw [pipe_note, (rollback_ends hs).pipe, Channel.pipe]
  refine ⟨hpipe, hc.calls halive trivial (fun _ => trivial) rfl rfl ⟨by rw [hpipe], by rw [hpipe]⟩
    (fun hh => ?_) rfl rfl⟩
  rw [pair_note, inbox_rollback hh.sound (of_not_not halive) hs]

theorem flush_calls (h : cs.flush p = .ok cs') : (cs' p).pipe = (cs p).pipe ∧
    Calls cs cs' p (cs p).sent (cs p).begun ((cs p).flushes + 1) := by
  have hc := flush_called halive h
  obtain ⟨s, hs, ⟨⟩⟩ := lift_bind_ok h
  have hpipe : (cs.note p s (.flush .first, .done) p).pipe = (cs p).pipe := by
    rw [pipe_note, (flush_ends hs).pipe, Channel.pipe]
  refine ⟨hpipe, hc.calls halive trivial (fun _ => trivial) rfl rfl ⟨by rw [hpipe], by rw [hpipe]⟩
    (fun hh => ?_) rfl rfl⟩
  rw [pair_note, inbox_flush hh.sound (of_not_not halive) hs]

theorem flush_spec : (∃ f, cs.flush p = .error (.pipe f) ∧ ¬ (cs p).Healthy) ∨
      ∃ cs', cs.flush p = .ok cs' ∧ (cs' p).pipe = (cs p).pipe ∧
        Calls cs cs' p (cs p).sent (cs p).begun ((cs p).flushes + 1) := by
  refine (lift_spec (fun _ => ⟨_, rfl⟩) fun hh => ?_).imp_right ?_
  · obtain ⟨s, hs, -⟩ := hh.sound.flush_outcome (of_not_not halive)
    exact ⟨s, hs⟩
  · rintro ⟨cs', h⟩
    exact ⟨cs', h, flush_calls halive h⟩

end offering

/-- A step of a pair is carried out, or ends with a failure of the pair. -/
theorem act_spec (cs : Channels) (p : PipeId) (a : Action) :
    (∃ f, cs.act p a = .error (.pipe f)) ∨ ∃ ev cs', cs.act p a = .ok (ev, cs') := by
  cases hs : (cs p).pair.step a with
  | error f => exact .inl ⟨f, by rw [act, hs]; rfl⟩
  | ok => exact .inr ⟨_, _, by rw [act, hs]; rfl⟩

/-- What the socket is told of a pipe that it neither reads nor writes in the step. -/
inductive Told (cs cs' : Channels) (p : PipeId) : List PipeEvent → Prop
  | quiet {ev : List PipeEvent} : (ev = [] ∨
      ∃ e, ev = [e] ∧ e ≠ .writeActivated ∧ e ≠ .pipeTerminated) →
      ((cs' p).gone ↔ (cs p).gone) → KeepsOut (cs p).pipe (cs' p).pipe → Told cs cs' p ev
  /-- A full pipe has room again. -/
  | writable : (cs p).pipe.outActive = false → (cs p).pipe.state = .active →
      (cs' p).pipe.outActive = true → ((cs' p).gone ↔ (cs p).gone) →
      Told cs cs' p [.writeActivated]
  | terminated : ((cs p).pair.mail .first).head? = some .pipeTermAck → (cs' p).gone →
      (cs' p).pipe.state ≠ .active → Told cs cs' p [.pipeTerminated]

section
variable (hw : a.side = .first → a.writes = false)
  (hhic : a = .deliver .first → (cs p).pair.hiccupNext .first = false)
include hw hhic

theorem Called.told (hc : Called cs cs' p (a, r))
    (hev : ev = if a.side = .first then (cs p).pair.news .first a else []) :
    Told cs cs' p ev ∧ (ev ≠ [] → a.side = .first) := by
  obtain ⟨u, hu⟩ := hc.viewed
  by_cases hside : a.side = .first
  · rw [if_pos hside] at hev
    have hpipe : (cs' p).pipe = u := by
      rw [Channel.pipe, hu.pipe, hside, update_self]
    have hkeeps : (cs p).pair.news .first a ≠ [.writeActivated] →
        KeepsOut (cs p).pipe (cs' p).pipe := by
      intro hne
      rw [hpipe, Channel.pipe, ← hside]
      refine hu.keepsOut (hw hside) (hside ▸ hne) fun q hq ha => ?_
      rw [hside] at hq ha
      -- a hiccup of the peer would set `out_active` again
      have := hhic ha
      simp [hiccupNext, hq, Command.hiccupQueue] at this
    refine ⟨?_, fun _ => hside⟩
    subst hev
    rcases news_cases (cs p).pair .first a with hnil | ⟨e, he⟩
    · exact .quiet (.inl hnil) (hc.gone_iff fun _ => by simp [hnil]) (hkeeps (by simp [hnil]))
    rw [he]
    cases e with
    | writeActivated =>
      obtain ⟨hout, hst, hout', -⟩ := hu.activatedOut (hside ▸ he)
      rw [hside] at hout hst
      exact .writable hout hst (by rw [hpipe, hout']) (hc.gone_iff fun _ => by simp [he])
    | pipeTerminated =>
      obtain ⟨y, rfl, hhead⟩ := news_eq_pipeTerminated he
      obtain rfl : y = .first := hside
      obtain ⟨s, hs, -⟩ := hc.channel_self
      refine .terminated hhead ?_ fun hst => ?_
      · rw [Channel.gone, hu.deallocated, Action.side, if_pos he]
        simp
      · have hno := not_reading_of_terminated hs.2 he
        have hst' := (hkeeps (by simp [he]) hst).1
        rw [Channel.pipe] at hst'
        rw [Action.side, hst'] at hno
        cases hno
    | _ =>
      exact .quiet (.inr ⟨_, rfl, by simp, by simp⟩) (hc.gone_iff fun _ => by simp [he])
        (hkeeps (by simp [he]))
  · rw [if_neg hside] at hev
    subst hev
    refine ⟨.quiet (.inl rfl) (hc.gone_iff fun e => absurd e hside) ?_, absurd rfl⟩
    rw [Channel.pipe, Channel.pipe, hu.pipe, update_of_ne (Ne.symm hside)]
    exact .refl _

theorem act_told (hen : (cs p).pair.Enabled a) (h : cs.act p a = .ok (ev, cs')) :
    ∃ r, Called cs cs' p (a, r) ∧ Told cs cs' p ev ∧ (ev ≠ [] → a.side = .first) := by
  obtain ⟨r, hc, hev⟩ := act_called hen h
  exact ⟨r, hc, Called.told hw hhic hc hev⟩

end

/-- The steps of a pair that are allowed can be made. -/
theorem exists_act (hh : (cs p).Healthy) (hen : (cs p).pair.Enabled a)
    (hp : (cs p).pair.Prudent a) : ∃ ev cs', cs.act p a = .ok (ev, cs') := by
  obtain ⟨r, s, hs, -⟩ := hh.sound.step_outcome hen hp
  exact ⟨_, _, by rw [act, hs]; rfl⟩

end Channels
end LibZmq
