import LibZmq.Core.Framing
import LibZmq.Pipe.Shutdown
import LibZmq.Pipe.Traffic

/-!
# Messages arrive as a whole

A message of several parts is written with one `write` per part and read with one `read`
per part. `Log` records what the owners of the two ends can see of one direction: the
messages written, and the parts read between two calls of `hiccup`.

* `multipart_atomic`: the parts read between two hiccups are whole messages, in the order
  written, in every run in which no queue is replaced in the middle of a message
  (`Undivided`).
* `hiccup_divides_message`: a `hiccup` that is processed between two parts drops the first
  one and lets the second one through.
-/

namespace LibZmq

namespace PipePair

open LibZmq.Core UPipe LibZmq.PipePair.Action List

variable {s s' : PipePair} {w x : Side}

/-! ## What the owners see -/

/-- The messages from one writer to its reader. -/
structure Log where
  /-- The parts of the message that the writer has begun. -/
  begun : List Msg
  /-- The messages the writer has written, oldest first. -/
  sent : List (List Msg)
  /-- The parts the reader has got since it last called `hiccup`. -/
  got : List Msg
  /-- What it got between the earlier calls. -/
  segments : List (List Msg)
deriving DecidableEq

namespace Log

def empty : Log := { begun := [], sent := [], got := [], segments := [] }

/-- Note a step. Credentials are not part of any message. -/
def record (o : Log) : Signal → Log
  | .wrote m =>
      if m.isCredential then o
      else if m.hasMore then { o with begun := o.begun ++ [m] }
      else { o with begun := [], sent := o.sent ++ [o.begun ++ [m]] }
  | .dropped | .closed => { o with begun := [] }
  | .took m => { o with got := o.got ++ [m] }
  | .hiccuped => { o with got := [], segments := o.segments ++ [o.got] }
  | .silent | .swapped => o

end Log

/-- A step of the pair together with the log of the writer `w`. -/
def Recorded (w : Side) (p : PipePair × Log) (l : Action × Reply) (p' : PipePair × Log) : Prop :=
  Step p.1 l p'.1 ∧ p'.2 = p.2.record (signal p.1 w l)

/-- `l` is a sequence of whole messages in the order written. -/
def Log.Block (o : Log) (l : List Msg) : Prop := ∃ block, block <:+: o.sent ∧ l = block.flatten

/-- The messages that `read` returns; it throws credentials and the delimiter away. -/
def visible (l : List Msg) : List Msg := l.filter fun m => !m.isCredential && !m.isDelimiter

/-- What a reader gets is made of whole messages. -/
structure Whole (s : PipePair) (w : Side) (o : Log) : Prop where
  /-- Every message ends with the only part that announces no further one. -/
  framed : ∀ msg ∈ o.sent, Framed Msg.hasMore msg
  /-- Between two hiccups the reader has got whole messages. -/
  segments : ∀ l ∈ o.segments, o.Block l
  /-- Since the last one it has got whole messages and perhaps the first parts of another. -/
  current : ∃ l, o.Block l ∧ o.got <+: l
  /-- As long as it reads, the missing parts are there. -/
  rest : (s.pipe w.peer).state.reading = true →
    o.Block (o.got ++ visible (s.inbox w.peer).readable)

/-! ## The invariant -/

@[simp] theorem visible_append (l l' : List Msg) : visible (l ++ l') = visible l ++ visible l' :=
  filter_append ..

variable {l : List Msg} {o : Log}

theorem visible_eq_nil
    (h : ∀ c ∈ l, c.isCredential = true ∨ c.isDelimiter = true) : visible l = [] := by
  rw [visible, filter_eq_nil_iff]
  intro c hc
  rcases h c hc with e | e <;> simp [e]

theorem visible_eq_self
    (h : ∀ p ∈ l, p.isCredential = false ∧ p.isDelimiter = false) : visible l = l := by
  rw [visible, filter_eq_self]
  intro p hp
  simp [h p hp]

namespace Log

variable {o o' : Log} {l : List Msg}

theorem block_nil : o.Block [] := ⟨[], nil_infix, rfl⟩

theorem Block.mono (h : o.Block l) (hsent : o.sent <+: o'.sent) : o'.Block l := by
  obtain ⟨block, hblock, rfl⟩ := h
  exact ⟨block, hblock.trans hsent.isInfix, rfl⟩

/-- A reader that stops after the last part of a message has got whole messages. -/
theorem Block.of_prefix (h : o.Block l) (hf : ∀ msg ∈ o.sent, Framed Msg.hasMore msg)
    (hp : l' <+: l) (hl : ∀ m ∈ l'.getLast?, m.hasMore = false) : o.Block l' := by
  obtain ⟨block, hblock, rfl⟩ := h
  -- a prefix that ends with a last part consists of the first few messages
  obtain ⟨k, rfl⟩ := exists_take_of_prefix (fun msg hm => hf msg (hblock.subset hm)) hp hl
  exact ⟨block.take k, ( take_prefix k block).isInfix.trans hblock, rfl⟩

end Log

/-- The queue of the writer, `u`, when the queues `ahead` are on their way to it. -/
structure Lane (u : UPipe) (ahead : List QueueId) (o : Log) : Prop where
  unfinished : u.unfinished = o.begun
  /-- The reader reads from this queue: it gets the messages after those that are lost. -/
  attached : ahead = [] → ∃ lost kept next, o.sent = lost ++ kept ++ next ∧
    o.got ++ visible u.readable = kept.flatten ∧ visible u.ready = next.flatten
  detached : ahead ≠ [] → o.got = []

theorem Lane.current (h : Lane u ahead o) : ∃ l, o.Block l ∧ o.got <+: l := by
  by_cases hnil : ahead = []
  · obtain ⟨lost, kept, next, hsent, hgot, -⟩ := h.attached hnil
    refine ⟨kept.flatten, ⟨kept, ?_, rfl⟩, ?_⟩
    · rw [hsent]
      exact infix_append lost kept next
    · rw [← hgot]
      exact prefix_append _ _
  · rw [h.detached hnil]
    exact ⟨[], Log.block_nil, nil_prefix⟩

/-- The log tells what has become of the messages. -/
structure Follows (s : PipePair) (w : Side) (o : Log) : Prop where
  framed : ∀ msg ∈ o.sent, Framed Msg.hasMore msg
  begun : ∀ p ∈ o.begun, p.hasMore = true ∧ p.isCredential = false ∧ p.isDelimiter = false
  segments : ∀ l ∈ o.segments, o.Block l
  current : ∃ l, o.Block l ∧ o.got <+: l
  lane : ∀ q, (s.pipe w).outPipe = some q → Lane (s.heap q) (pending (s.mail w)) o

/-- The queue of the writer is the only thing that has changed. -/
theorem Follows.lanes (h : Follows s w o) (hq : (s'.pipe w).outPipe = some q)
    (hl : Lane (s'.heap q) (pending (s'.mail w)) o) : Follows s' w o :=
  { h with lane := of_outPipe hq hl }

/-- The conditions under which no message is divided: the writer sends credentials and gets
a new queue between two messages only, and the reader calls `hiccup` between two messages
only. -/
def Undivided (w : Side) (p : PipePair × Log) : Action → Prop
  | .write x m => x = w → m.isCredential = true → m.hasMore = false ∧ p.2.begun = []
  | .hiccup x => x = w.peer → (p.1.pipe x).state = .active →
      ∀ m ∈ p.2.got.getLast?, m.hasMore = false
  | .deliver x => x = w → p.1.hiccupNext x = true → p.2.begun = []
  | _ => True

namespace Follows

variable {o : Log} {q q₂ : QueueId} {m : Msg}

section outPipe
variable (h : Follows s w o) (hq : (s.pipe w).outPipe = some q)
  (hq' : (s'.pipe w).outPipe = some q)
include h hq hq'

/-- Nothing has happened, or a `flush`. -/
theorem still (hsame : SameMessages (s.heap q) (s'.heap q))
    (hpend : pending (s'.mail w) = pending (s.mail w)) : Follows s' w o := by
  have hl := h.lane q hq
  refine h.lanes hq' ⟨hsame.unfinished.trans hl.unfinished, ?_, ?_⟩
  · rw [hpend]
    intro hnil
    obtain ⟨lost, kept, next, hsent, hgot, hnext⟩ := hl.attached hnil
    rcases hsame.published with ⟨hread, hready⟩ | ⟨hread, hready⟩
    · exact ⟨lost, kept, next, hsent, by rw [hread, hgot], by rw [hready, hnext]⟩
    -- a `flush`: what was ready can be read now
    · refine ⟨lost, kept ++ next, [], by simp [hsent], ?_, by rw [hready]; rfl⟩
      rw [hread, complete, visible_append, ← append_assoc, hgot, hnext, flatten_append]
  · rw [hpend]
    exact hl.detached

/-- The reader has taken `l`, of which it has got `m`. -/
theorem reads (hnone : pending (s'.mail w) = []) (hnil : pending (s.mail w) = []) {l m : List Msg}
    (hc : Consumes (s.heap q) l (s'.heap q)) (hm : visible l = m) : Follows s' w
    { o with got := o.got ++ m } := by
  have hl := h.lane q hq
  obtain ⟨lost, kept, next, hsent, hgot, hnext⟩ := hl.attached hnil
  have hl' : Lane (s'.heap q) (pending (s'.mail w)) { o with got := o.got ++ m } := by
    refine ⟨hc.unfinished.trans hl.unfinished, fun _ => ⟨lost, kept, next, hsent, ?_, ?_⟩,
      (absurd hnone)⟩
    -- what it has got and what it can get are the same taken together
    · rw [← hgot, hc.readable, visible_append, hm, append_assoc]
    · rw [hc.ready, hnext]
  exact { h with current := hl'.current, lane := of_outPipe hq' hl' }

/-- The writer has dropped its message, and has perhaps written a delimiter. -/
theorem drops
    (hqueue : (s'.heap q).readable = (s.heap q).readable ∧ (s'.heap q).ready = (s.heap q).ready ∨
      (s'.heap q).readable = (s.heap q).complete ++ [.initDelimiter] ∧ (s'.heap q).ready = [])
    (hunf : (s'.heap q).unfinished = []) (hpend : pending (s'.mail w) = pending (s.mail w)) :
    Follows s' w { o with begun := [] } := by
  have hl := h.lane q hq
  refine { h with begun := by simp, lane := of_outPipe hq' ⟨hunf, ?_, ?_⟩ }
  · rw [hpend]
    intro hnil
    obtain ⟨lost, kept, next, hsent, hgot, hnext⟩ := hl.attached hnil
    rcases hqueue with ⟨hread, hready⟩ | ⟨hread, hready⟩
    · exact ⟨lost, kept, next, hsent, by rw [hread, hgot], by rw [hready, hnext]⟩
    refine ⟨lost, kept ++ next, [], by simp [hsent], ?_, by rw [hready]; rfl⟩
    -- the delimiter comes after whole messages and is not returned by `read`
    have hdelim : visible [Msg.initDelimiter] = [] := rfl
    rw [hread, complete, visible_append, visible_append, ← append_assoc,
      ← append_assoc, hgot, hnext, hdelim, append_nil, flatten_append]
  · rw [hpend]
    exact hl.detached

/-- The reader has started a new queue, between two messages. -/
theorem hiccups (hheap : s'.heap q = s.heap q)
    (hpend : pending (s'.mail w) = pending (s.mail w) ++ [q₂])
    (hlast : ∀ m ∈ o.got.getLast?, m.hasMore = false) :
    Follows s' w { o with got := [], segments := o.segments ++ [o.got] } := by
  refine ⟨h.framed, h.begun, ?_, ⟨[], Log.block_nil, nil_prefix⟩,
    of_outPipe hq' ⟨?_, fun hnil => ?_, fun _ => rfl⟩⟩
  · intro l hl
    rcases mem_append.mp hl with hl | hl
    · exact h.segments l hl
    rw [mem_singleton.mp hl]
    -- what has been read so far is a segment now, and must end with a last part
    obtain ⟨l', hblock, hprefix⟩ := h.current
    exact hblock.of_prefix h.framed hprefix hlast
  · rw [hheap, (h.lane q hq).unfinished]
  · simp [hpend] at hnil

variable (hn : NoConflate s) (hheap : s'.heap q = (s.heap q).write m m.hasMore)
  (hpend : pending (s'.mail w) = pending (s.mail w))
include hn hheap hpend

/-- The writer has written credentials, between two messages. -/
theorem writes_credential (hm : m.isCredential = true) (hmore : m.hasMore = false)
    (hbegun : o.begun = []) : Follows s' w o := by
  have hl := h.lane q hq
  have hunf : (s.heap q).unfinished = [] := hl.unfinished.trans hbegun
  refine h.lanes hq' ⟨?_, ?_, ?_⟩
  · rw [hheap, unfinished_write, hmore, Bool.and_false, if_neg Bool.false_ne_true, hbegun]
  · rw [hpend]
    intro hnil
    obtain ⟨lost, kept, next, hsent, hgot, hnext⟩ := hl.attached hnil
    -- credentials are ready at once, and no reader will see them
    refine ⟨lost, kept, next, hsent, ?_, ?_⟩
    · rw [hheap, readable_write (hn.heap q), hgot]
    · rw [hheap, ready_write (hn.heap q), hmore, if_neg Bool.false_ne_true, hunf, append_nil,
        visible_append, hnext]
      simp [visible, hm]
  · rw [hpend]
    exact hl.detached

/-- The writer has written a part that is not the last one of its message. -/
theorem writes_part (hc : m.isCredential = false) (hd : m.isDelimiter = false)
    (hmore : m.hasMore = true) : Follows s' w { o with begun := o.begun ++ [m] } := by
  have hl := h.lane q hq
  have hl' : Lane (s'.heap q) (pending (s'.mail w)) { o with begun := o.begun ++ [m] } := by
    refine ⟨?_, ?_, ?_⟩
    · rw [hheap, unfinished_write, hn.heap q, hmore, hl.unfinished]
      rfl
    · rw [hpend, hheap, readable_write (hn.heap q), ready_write (hn.heap q), if_pos hmore]
      exact hl.attached
    · rw [hpend]
      exact hl.detached
  refine { h with begun := ?_, lane := of_outPipe hq' hl' }
  intro p hp
  rcases mem_append.mp hp with hp | hp
  · exact h.begun p hp
  · rw [mem_singleton.mp hp]
    exact ⟨hmore, hc, hd⟩

/-- The writer has written the last part of a message. -/
theorem writes_last (hc : m.isCredential = false) (hd : m.isDelimiter = false)
    (hmore : m.hasMore = false) :
    Follows s' w { o with begun := [], sent := o.sent ++ [o.begun ++ [m]] } := by
  have hl := h.lane q hq
  have hgrow : o.sent <+: o.sent ++ [o.begun ++ [m]] := prefix_append _ _
  have hl' : Lane (s'.heap q) (pending (s'.mail w))
      { o with begun := [], sent := o.sent ++ [o.begun ++ [m]] } := by
    refine ⟨?_, ?_, ?_⟩
    · rw [hheap, unfinished_write, hmore, Bool.and_false, if_neg Bool.false_ne_true]
    · rw [hpend]
      intro hnil
      obtain ⟨lost, kept, next, hsent, hgot, hnext⟩ := hl.attached hnil
      -- the whole message becomes ready together
      refine ⟨lost, kept, next ++ [o.begun ++ [m]], by simp [hsent], ?_, ?_⟩
      · rw [hheap, readable_write (hn.heap q), hgot]
      · have hparts : visible (o.begun ++ [m]) = o.begun ++ [m] := by
          apply visible_eq_self
          intro p hp
          rcases mem_append.mp hp with hp | hp
          · exact (h.begun p hp).2
          · rw [mem_singleton.mp hp]
            exact ⟨hc, hd⟩
        rw [hheap, ready_write (hn.heap q), hmore, if_neg Bool.false_ne_true, hl.unfinished,
          append_assoc, visible_append, hnext, hparts]
        simp
    · rw [hpend]
      exact hl.detached
  refine ⟨?_, by simp, fun l hm => (h.segments l hm).mono hgrow, hl'.current, of_outPipe hq' hl'⟩
  intro msg hmsg
  rcases mem_append.mp hmsg with hmsg | hmsg
  · exact h.framed msg hmsg
  · rw [mem_singleton.mp hmsg]
    exact ⟨o.begun, m, rfl, fun p hp => (h.begun p hp).1, hmore⟩

end outPipe

/-- The writer has got a new queue, between two messages. -/
theorem swaps (h : Follows s w o) (hq : (s.pipe w).outPipe = some q)
    (hq' : (s'.pipe w).outPipe = some q₂) (hfresh : Fresh (s'.heap q₂))
    (hpend : pending (s.mail w) = q₂ :: pending (s'.mail w)) (hbegun : o.begun = []) :
    Follows s' w o := by
  -- the reader cannot have read from a queue that the writer did not know
  have hgot : o.got = [] := (h.lane q hq).detached (by simp [hpend])
  refine h.lanes hq' ⟨by rw [hfresh.unfinished, hbegun], fun _ => ?_, fun _ => hgot⟩
  exact ⟨o.sent, [], [], by simp, by simp [hgot, hfresh.readable, visible],
    by simp [hfresh.ready, visible]⟩

end Follows

/-- A step keeps the log right, if it divides no message. -/
theorem Follows.flow (h : Follows s w o) (hf : Flow s s' w g) (hn : NoConflate s)
    (hwrote : ∀ m, g = .wrote m → m.isCredential = true → m.hasMore = false ∧ o.begun = [])
    (hhic : g = .hiccuped → ∀ m ∈ o.got.getLast?, m.hasMore = false)
    (hswap : g = .swapped → o.begun = []) : Follows s' w (o.record g) := by
  cases hf with
  | gone hnone hg =>
    have hlane : ∀ {o' : Log}, ∀ q, (s'.pipe w).outPipe = some q →
        Lane (s'.heap q) (pending (s'.mail w)) o' := by
      intro _ q hq
      rw [hnone] at hq
      cases hq
    -- without a queue there is nothing to say about it, and what was read stays read
    rcases hg with rfl | rfl | rfl
    · exact { h with lane := hlane }
    · exact { h with begun := nofun, lane := hlane }
    · exact { h with begun := nofun, lane := hlane }
  | still hq hq' hsame hpend => exact h.still hq hq' hsame hpend
  | take hq hq' hnil hnone hskip hc hd htake =>
    refine h.reads hq hq' hnone hnil htake ?_
    rw [visible_append, visible_eq_nil fun c hm => .inl (hskip c hm)]
    simp [visible, hc, hd]
  | skip hq hq' hnil hnone hskip htake =>
    have := h.reads hq hq' hnone hnil htake (visible_eq_nil hskip)
    simpa [Log.record] using this
  | @put q m hq hd _ hheap hpend hpipe =>
    have hq' : (s'.pipe w).outPipe = some q := by rw [hpipe]; exact hq
    cases hc : m.isCredential with
    | true =>
      obtain ⟨hmore, hbegun⟩ := hwrote m rfl hc
      simpa [Log.record, hc] using h.writes_credential hq hq' hn hheap hpend hc hmore hbegun
    | false =>
      cases hmore : m.hasMore with
      | true => simpa [Log.record, hc, hmore] using h.writes_part hq hq' hn hheap hpend hc hd hmore
      | false => simpa [Log.record, hc, hmore] using h.writes_last hq hq' hn hheap hpend hc hd hmore
  | drop hq hq' hread hready hunf hpend => exact h.drops hq hq' (.inl ⟨hread, hready⟩) hunf hpend
  | close hq hq' hread hready hunf hpend => exact h.drops hq hq' (.inr ⟨hread, hready⟩) hunf hpend
  | detach hq hq' hheap hpend => exact h.hiccups hq hq' hheap hpend (hhic rfl)
  | swap hq hq' hfresh hpend => exact h.swaps hq hq' hfresh hpend (hswap rfl)

/-! ## Runs -/

theorem follows_start (hwm₀ hwm₁ : Int) (w : Side) :
    Follows (start hwm₀ hwm₁ false false) w .empty where
  framed := nofun
  begun := nofun
  segments := nofun
  current := ⟨[], Log.block_nil, nil_prefix⟩
  lane q _ := by
    rw [heap_start]
    refine ⟨by simp [Log.empty], fun _ => ⟨[], [], [], rfl, ?_, ?_⟩, fun _ => rfl⟩
    · simp [Log.empty, visible]
    · simp [visible]

theorem Follows.whole (h : Follows s w o) (hs : Sound s) : Whole s w o := by
  refine { h with rest := fun hreading => ?_ }
  obtain ⟨q, hq⟩ := hs.exists_writer (hs.alive_of_reading hreading) hreading
  rw [Side.peer_peer] at hq
  have hl := h.lane q hq
  -- the reader reads from the writer's queue, or from a new one that is still empty
  rcases hs.attached_or_fresh hq with ⟨hin, hnil⟩ | ⟨hmem, hfresh⟩
  · obtain ⟨lost, kept, next, hsent, hgot, -⟩ := hl.attached hnil
    rw [inbox, hin, hgot]
    refine ⟨kept, ?_, rfl⟩
    rw [hsent]
    exact infix_append lost kept next
  · rw [hl.detached (ne_nil_of_mem hmem), hfresh.readable]
    exact Log.block_nil

/-- One step that divides no message. -/
theorem Follows.step (h : Follows s w o) (hs : Sound s) (hn : NoConflate s)
    (hstep : Step s (a, r) s') (hprudent : s.Prudent a) (hcond : Undivided w (s, o) a) :
    Follows s' w (o.record (signal s w (a, r))) := by
  have halive := hs.alive_of_enabled hstep.1
  have ho := hs.outcome_of_step hstep hprudent
  refine h.flow (ho.flow hs halive hn w) hn ?_ ?_ ?_
  · intro m hg hcred
    obtain ⟨rfl, -⟩ := signal_wrote hg
    exact hcond rfl hcred
  · intro hg
    obtain ⟨rfl, hactive⟩ := signal_hiccuped hg
    exact hcond rfl hactive
  · intro hg
    obtain ⟨rfl, hnext⟩ := signal_swapped hg
    exact hcond rfl hnext

/-- **Multipart atomicity**: the parts that are read between two hiccups are whole messages
in the order written, in runs in which no message is divided. -/
theorem multipart_atomic {hwm₀ hwm₁ : Int} {o : Log} {tr : List (Action × Reply)}
    (h : Exec (Guarded (Recorded w) fun p l => l.1.protocol = true ∧ Undivided w p l.1)
      (start hwm₀ hwm₁ false false, .empty) tr (s, o)) : Whole s w o := by
  have hinv : Sound s ∧ NoConflate s ∧ Follows s w o := by
    refine h.invariant (fun p => Sound p.1 ∧ NoConflate p.1 ∧ Follows p.1 w p.2) ?_
      ⟨sound_start _ _ _ _, noConflate_start _ _, follows_start _ _ w⟩
    rintro ⟨b, o₁⟩ ⟨act, rep⟩ ⟨c, -⟩ ⟨hb, hn, hfol⟩ ⟨⟨hstep, rfl⟩, hprotocol, hcond⟩
    have hprudent := prudent_of_protocol (s := b) hprotocol
    exact ⟨hb.step hstep hprudent, hn.outcome (hb.outcome_of_step hstep hprudent),
      hfol.step hb hn hstep hprudent hcond⟩
  exact hinv.2.2.whole hinv.1

/-- Carry out an action and note it in the log. -/
def nextRecorded (w : Side) (guard : PipePair × Log → Action × Reply → Prop)
    [∀ p l, Decidable (guard p l)] (p : PipePair × Log) (a : Action) :
    Option ((Action × Reply) × PipePair × Log) :=
  match p.1.step a with
  | .error _ => none
  | .ok (r, s') =>
      if p.1.Enabled a ∧ guard p (a, r) then
        some ((a, r), s', p.2.record (signal p.1 w (a, r)))
      else none

theorem recorded_of_next {guard : PipePair × Log → Action × Reply → Prop}
    [∀ p l, Decidable (guard p l)] (p : PipePair × Log) (a : Action) (l : Action × Reply)
    (p' : PipePair × Log) (h : nextRecorded w guard p a = some (l, p')) :
    Guarded (Recorded w) guard p l p' := by
  unfold nextRecorded at h
  split at h
  · cases h
  rename_i r s' hstep
  split at h
  · rename_i hcond
    cases h
    exact ⟨⟨⟨hcond.1, hstep⟩, rfl⟩, hcond.2⟩
  · cases h

instance (w : Side) (p : PipePair × Log) (a : Action) : Decidable (Undivided w p a) := by
  rcases a <;> dsimp only [Undivided] <;> infer_instance

/-- A part that is followed by others. -/
def part : Msg := { Msg.init with flags := MsgFlag.more, data := [1] }

/-- A last part. -/
def lastPart : Msg := { Msg.init with data := [2] }

/-- A message of two parts is read, another one is lost in a `hiccup`, a third one is read
in part. -/
theorem multipart_atomic_after_hiccup :
    ∃ tr s o, Exec (Guarded (Recorded .first) fun p l =>
        l.1.protocol = true ∧ Undivided .first p l.1)
        (start 9 9 false false, .empty) tr (s, o) ∧
      o.segments = [[part, lastPart]] ∧ o.got = [part] ∧ o.sent.length = 3 ∧ Whole s .first o := by
  have hrun : ∃ tr p, Exec (Guarded (Recorded .first) fun p l =>
      l.1.protocol = true ∧ Undivided .first p l.1) (start 9 9 false false, .empty) tr p ∧
        p.2.segments = [[part, lastPart]] ∧ p.2.got = [part] ∧ p.2.sent.length = 3 :=
    exists_exec_of_replay recorded_of_next
      [.write .first part, .write .first lastPart, .flush .first, .read .second, .read .second,
        .write .first .init, .hiccup .second, .deliver .first, .deliver .first, .write .first part,
        .write .first lastPart, .flush .first, .read .second] (by decide +kernel)
  obtain ⟨tr, ⟨s, o⟩, hexec, hseg, hgot, hsent⟩ := hrun
  exact ⟨tr, s, o, hexec, hseg, hgot, hsent, multipart_atomic hexec⟩

/-- A `hiccup` is processed between the two parts of a message. The reader gets the second
part as a message of its own: no sequence of whole messages starts with it. -/
theorem hiccup_divides_message :
    ∃ tr s o, Exec (Guarded (Recorded .first) fun _ l => l.1.protocol = true)
        (start 9 9 false false, .empty) tr (s, o) ∧
      o.sent = [[part, lastPart]] ∧ o.got = [lastPart] ∧ ¬ ∃ l, o.Block l ∧ o.got <+: l := by
  have hrun : ∃ tr p, Exec (Guarded (Recorded .first) fun _ l => l.1.protocol = true)
      (start 9 9 false false, .empty) tr p ∧ p.2.sent = [[part, lastPart]] ∧ p.2.got = [lastPart] :=
    exists_exec_of_replay recorded_of_next
      [.write .first part, .hiccup .second, .deliver .first, .write .first lastPart,
        .flush .first, .read .second] (by decide +kernel)
  obtain ⟨tr, ⟨s, o⟩, hexec, hsent, hgot⟩ := hrun
  refine ⟨tr, s, o, hexec, hsent, hgot, ?_⟩
  rintro ⟨l, ⟨block, hblock, rfl⟩, hprefix⟩
  rw [hsent] at hblock
  rw [hgot] at hprefix
  rcases infix_cons_iff.mp hblock with hblock | hblock
  · rcases prefix_cons_iff.mp hblock with rfl | ⟨rest, rfl, hrest⟩
    · revert hprefix
      decide
    · rw [prefix_nil.mp hrest] at hprefix
      revert hprefix
      decide
  · rw [infix_nil.mp hblock] at hprefix
    revert hprefix
    decide

end PipePair
end LibZmq
