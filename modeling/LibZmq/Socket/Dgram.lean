import LibZmq.Engine.Udp
import LibZmq.Socket.Base

/-!
# Datagram sockets

`dgram_t` (`dgram.cpp`) sends messages of two parts, an address and a body, and the UDP engine
pulls them from the pipe two by two. The socket remembers which of the two comes next.

* `dgram_pairs`: a pipe carries pairs, if it is attached between two messages (`InTurn`).
* `dgram_body_alone`: otherwise a pipe may get a body without an address.
* `Represents`: the pipes of the model are channels, and `room` is what `write` returns.
-/

namespace LibZmq

open LibZmq.Core Function PipePair Channels

/-- A pipe from the socket to the engine, without its watermarks. -/
structure DgramPipe where
  /-- What the engine has pulled. -/
  pulled : List Msg
  /-- What it can pull. -/
  flushed : List Msg
  /-- What was written after the last `flush`. -/
  pending : List Msg

/-- A `write` that succeeds, and `flush` after the last part. -/
def DgramPipe.push (c : DgramPipe) (m : Msg) : DgramPipe :=
  if m.hasMore then { c with pending := c.pending ++ [m] }
  else { c with flushed := c.flushed ++ (c.pending ++ [m]), pending := [] }

/-- `dgram_t`, as far as it sends, and all pipes. -/
structure Dgram where
  pipe : Option PipeId
  moreOut : Bool
  pipes : PipeId → DgramPipe

namespace Dgram

def new : Dgram := { pipe := none, moreOut := false, pipes := fun _ => ⟨[], [], []⟩ }

/-- `xattach_pipe`. Nothing is written to a pipe that the socket rejects. -/
def xattachPipe (d : Dgram) (p : PipeId) : Dgram :=
  if d.pipe = none then { d with pipe := some p } else d

/-- `xpipe_terminated`, after the end of the pipe was rolled back. -/
def xpipeTerminated (d : Dgram) (p : PipeId) : Dgram :=
  { d with
    pipe := if d.pipe = some p then none else d.pipe
    pipes := update d.pipes p { d.pipes p with pending := [] } }

/-- `xsend`; `room` says that the pipe takes a message. -/
def xsend (d : Dgram) (m : Msg) (room : Bool) : SendResult × Dgram :=
  match d.pipe with
  | none => ({ rc := -1, errno := none, msg := none }, d)
  | some p =>
      -- an address announces a body, and a body nothing
      if m.hasMore = d.moreOut then (.refused .einval m, d)
      else if room then
        (.accepted, { d with
          moreOut := !d.moreOut
          pipes := update d.pipes p ((d.pipes p).push m) })
      else (.refused .eagain m, d)

/-- `udp_engine_t::out_event`. If there is a group, there should also be a body. -/
def outEvent (d : Dgram) (p : PipeId) : Except UdpFault Dgram :=
  match d.pipes p with
  | ⟨_, [], _⟩ => .ok d
  | ⟨_, [_], _⟩ => .error .assertion
  | ⟨pulled, group :: body :: flushed, pending⟩ =>
      .ok { d with pipes := update d.pipes p ⟨pulled ++ [group, body], flushed, pending⟩ }

inductive Act where
  | attach (p : PipeId)
  | terminated (p : PipeId)
  | send (m : Msg) (room : Bool)
  | out (p : PipeId)

def next (d : Dgram) : Act → Except UdpFault Dgram
  | .attach p => .ok (d.xattachPipe p)
  | .terminated p => .ok (d.xpipeTerminated p)
  | .send m room => .ok (d.xsend m room).2
  | .out p => d.outEvent p

def Step (d : Dgram) (a : Act) (d' : Dgram) : Prop := d.next a = .ok d'

/-- A pipe takes the place of another one between two messages. -/
def InTurn (d : Dgram) : Act → Prop
  | .attach _ => d.pipe = none → d.moreOut = false
  | .terminated _ | .send _ _ | .out _ => True

/-- Addresses and bodies in turn. -/
def Pairs : List Msg → Prop
  | [] => True
  | [_] => False
  | a :: b :: l => a.hasMore = true ∧ b.hasMore = false ∧ Pairs l

/-- There are pairs in the pipe, and an address that waits for its body if `waits`. -/
def Carries (c : DgramPipe) (waits : Bool) : Prop :=
  Pairs c.pulled ∧ Pairs c.flushed ∧
    if waits then ∃ a, a.hasMore = true ∧ c.pending = [a] else c.pending = []

/-- An address can only wait in the pipe that the socket has. -/
def Sound (d : Dgram) : Prop := ∀ p, Carries (d.pipes p) (d.moreOut && d.pipe = some p)

variable {d d' : Dgram}

theorem Pairs.append (h : Pairs l) (h' : Pairs l') : Pairs (l ++ l') := by
  fun_induction Pairs l with
  | case1 => exact h'
  | case2 => cases h
  | case3 _ _ _ ih => exact ⟨h.1, h.2.1, ih h.2.2⟩

theorem Carries.push {waits : Bool} (h : Carries c waits) (hm : m.hasMore ≠ waits) :
    Carries (c.push m) (!waits) := by
  obtain ⟨hpulled, hpairs, hpending⟩ := h
  cases waits with
  | false =>
    have hm : m.hasMore = true := by simpa using hm
    have hnil : c.pending = [] := by simpa using hpending
    simpa [Carries, DgramPipe.push, hm, hnil] using ⟨hpulled, hpairs⟩
  | true =>
    have hm : m.hasMore = false := by simpa using hm
    obtain ⟨a, ha, hone⟩ : ∃ a, a.hasMore = true ∧ c.pending = [a] := by simpa using hpending
    have hpair : Pairs [a, m] := ⟨ha, hm, trivial⟩
    simpa [Carries, DgramPipe.push, hm, hone] using ⟨hpulled, hpairs.append hpair⟩

theorem Sound.attach (h : d.Sound) (hturn : d.InTurn (.attach p)) : (d.xattachPipe p).Sound := by
  unfold xattachPipe
  split
  · rename_i hnone
    intro q
    simpa [hturn hnone] using h q
  · exact h

theorem Sound.terminated (h : d.Sound) (p : PipeId) : (d.xpipeTerminated p).Sound := by
  intro q
  have hq := h q
  rcases eq_or_ne q p with rfl | hne
  · by_cases hpipe : d.pipe = some q <;>
      simpa [xpipeTerminated, Carries] using ⟨hq.1, hq.2.1⟩
  · by_cases hpipe : d.pipe = some p <;> simpa [xpipeTerminated, hne, hpipe, hne.symm] using hq

theorem Sound.send (h : d.Sound) (room : Bool) : (d.xsend m room).2.Sound := by
  unfold xsend
  repeat' split
  all_goals try exact h
  rename_i p hpipe hkind _
  intro q
  have hq := h q
  rcases eq_or_ne q p with rfl | hne
  · have hwaits : Carries (d.pipes q) d.moreOut := by simpa [hpipe] using hq
    simpa [hpipe] using hwaits.push hkind
  · simpa [hne, hpipe, hne.symm] using hq

theorem Sound.out (h : d.Sound) (p : PipeId) : ∃ d', d.outEvent p = .ok d' ∧ d'.Sound := by
  have hp := h p
  unfold outEvent
  split <;> rename_i heq <;> rw [heq] at hp
  · exact ⟨d, rfl, h⟩
  · cases hp.2.1
  · obtain ⟨hpulled, ⟨hgroup, hbody, hrest⟩, hpending⟩ := hp
    refine ⟨_, rfl, fun q => ?_⟩
    rcases eq_or_ne q p with rfl | hne
    · simp only [update_self]
      exact ⟨hpulled.append ⟨hgroup, hbody, trivial⟩, hrest, hpending⟩
    · simp only [update_of_ne hne]
      exact h q

theorem Sound.step (h : d.Sound) (hturn : d.InTurn a) (hstep : Step d a d') : d'.Sound := by
  cases a with
  | attach =>
    cases hstep
    exact h.attach hturn
  | terminated p =>
    cases hstep
    exact h.terminated p
  | send _ room =>
    cases hstep
    exact h.send room
  | out p =>
    obtain ⟨_, hout, hsound⟩ := h.out p
    cases hout.symm.trans hstep
    exact hsound

/-- **The pipes of a datagram socket carry pairs**: in runs in which a pipe takes the place of
another one between two messages, addresses and bodies are flushed in turn, and an engine that
has pulled an address finds the body. -/
theorem dgram_pairs {tr : List Act} (h : Exec (Guarded Step InTurn) new tr d) (p : PipeId) :
    Pairs ((d.pipes p).pulled ++ (d.pipes p).flushed) ∧ d.outEvent p ≠ .error .assertion := by
  have hsound : d.Sound := by
    refine h.invariant Sound ?_ fun _ => ⟨trivial, trivial, rfl⟩
    rintro b a c hb ⟨hstep, hturn⟩
    exact hb.step hturn hstep
  refine ⟨(hsound p).1.append (hsound p).2.1, fun herr => ?_⟩
  obtain ⟨_, hout, -⟩ := hsound.out p
  cases herr.symm.trans hout

instance (d : Dgram) (a : Act) : Decidable (d.InTurn a) := by
  rcases a <;> dsimp only [InTurn] <;> infer_instance

/-- The body is refused at first, and the pipe is replaced after it. -/
theorem dgram_pairs_two_pipes : ∃ tr d, Exec (Guarded Step InTurn) new tr d ∧ d.pipe = some 1 ∧
    Pairs ((d.pipes 0).pulled ++ (d.pipes 0).flushed) ∧ d.outEvent 0 ≠ .error .assertion := by
  refine exists_exec_with
    (fun d a b d' (h : attempt next InTurn d a = some (b, d')) => (attempt_eq_some h).symm)
    (fun d => d.pipe = some 1)
    [.attach 0, .send part true, .send (single 1) false, .send (single 1) true, .out 0,
      .terminated 0, .attach 1, .send part true] (by decide +kernel) ?_
  intro _ d hexec hpipe
  exact ⟨hpipe, dgram_pairs hexec 0⟩

/-- The pipe goes away after the address, and the next one gets the body alone. -/
theorem dgram_body_alone : ∃ tr d, Exec Step new tr d ∧ (d.pipes 1).flushed = [single 1] ∧
    (d.outEvent 1).isOk = false := by
  refine exists_exec_of_replay
    (fun d a b d' (h : attempt next (fun _ _ => True) d a = some (b, d')) => (attempt_eq_some h).2)
    [.attach 0, .send part true, .terminated 0, .attach 1, .send (single 1) true] ?_
  decide +kernel

/-! ## The pipes as channels -/

/-- The pipes have what was written to the channels. -/
def Represents (pipes : PipeId → DgramPipe) (cs : Channels) : Prop :=
  ∀ q, (pipes q).pulled ++ (pipes q).flushed = (cs q).sent.flatten ∧
    (pipes q).pending = (cs q).begun

variable {pipes : PipeId → DgramPipe} {cs cs₁ cs' : Channels} {p : PipeId} {m : Msg}

theorem Represents.calls {c : DgramPipe} (h : Represents pipes cs)
    (hcalls : Calls cs cs' p sent begun n)
    (hc : c.pulled ++ c.flushed = sent.flatten ∧ c.pending = begun) :
    Represents (update pipes p c) cs' := by
  intro q
  rcases eq_or_ne q p with rfl | hne
  · rwa [update_self, hcalls.sent, hcalls.begun]
  · rw [update_of_ne hne, hcalls.others q hne]
    exact h q

/-- A call that sends nothing. -/
theorem Represents.same (h : Represents pipes cs)
    (hcalls : Calls cs cs' p (cs p).sent (cs p).begun n) : Represents pipes cs' := by
  have hsame := h.calls hcalls (h p)
  rwa [update_eq_self] at hsame

/-- **A pipe of the socket is a channel**: `room` is what `write` returns, and `push` is `write`,
with `flush` behind the last part. -/
theorem Represents.xsend {room : Bool} (h : Represents d.pipes cs) (hpipe : d.pipe = some p)
    (halive : ¬ (cs p).gone) (hkind : m.hasMore ≠ d.moreOut) (hmsg : m.Ordinary)
    (hwrite : cs.write p m = .ok (room, cs₁))
    (hflush : if room && !m.hasMore then cs₁.flush p = .ok cs' else cs₁ = cs') :
    Represents (d.xsend m room).2.pipes cs' := by
  rcases write_cases halive hmsg hwrite with ⟨rfl, hwrites⟩ | ⟨rfl, hoffers⟩
  · have hsend : (d.xsend m true).2.pipes = update d.pipes p ((d.pipes p).push m) := by
      simp [Dgram.xsend, hpipe, hkind]
    obtain ⟨hcomplete, hpending⟩ := h p
    have hpush := h.calls hwrites.toCalls (c := (d.pipes p).push m) (by
      cases hm : m.hasMore <;>
        simp [DgramPipe.push, hm, hpending, ← hcomplete])
    rw [hsend]
    cases hm : m.hasMore with
    | true =>
      rw [hm] at hflush
      cases hflush
      exact hpush
    | false =>
      rw [hm] at hflush
      exact hpush.same (flush_calls hwrites.gone hflush).2
  · have hsend : (d.xsend m false).2.pipes = d.pipes := by simp [Dgram.xsend, hpipe, hkind]
    rw [hsend]
    cases hflush
    exact h.same hoffers.toCalls

/-- The end of a pipe is rolled back when it is terminated. -/
theorem Represents.xpipeTerminated (h : Represents d.pipes cs)
    (hcalls : Calls cs cs' p (cs p).sent [] n) : Represents (d.xpipeTerminated p).pipes cs' :=
  h.calls hcalls ⟨(h p).1, rfl⟩

/-- What the engine pulls was complete. -/
theorem Represents.outEvent (h : Represents d.pipes cs) (hout : d.outEvent p = .ok d') :
    Represents d'.pipes cs := by
  unfold Dgram.outEvent at hout
  split at hout <;> rename_i heq <;> cases hout
  · exact h
  · intro q
    rcases eq_or_ne q p with rfl | hne
    · simpa [heq] using h q
    · simpa [hne] using h q

end Dgram
end LibZmq
