import LibZmq.Core.Allocation
import LibZmq.Pipe.Handshake

/-!
# Who deletes which queue

The queues that lead to a reader form a chain. It starts with the queue the
writer has plugged in, goes on with the queues of the `hiccup` commands on their
way to the writer, and ends with the queue the reader reads from. The writer
deletes a queue when it moves on to the next one; the reader deletes the last
queue, after the writer has let go of it.
-/

namespace LibZmq

namespace PipePair

open LibZmq.Core UPipe Function List

variable {s s' : PipePair} {x : Side}

/-- The queues that `hiccup` commands carry. -/
def pending (ch : List Command) : List QueueId := ch.filterMap Command.hiccupQueue

@[simp] theorem pending_nil : pending [] = [] := rfl

@[simp] theorem pending_hiccup (q : QueueId) (ch : List Command) :
    pending (.hiccup q :: ch) = q :: pending ch := rfl

@[simp] theorem pending_pipeTermAck (ch : List Command) :
    pending (.pipeTermAck :: ch) = pending ch := rfl

@[simp] theorem pending_append (ch ch' : List Command) :
    pending (ch ++ ch') = pending ch ++ pending ch' := filterMap_append

variable {m : Side → List Command}

theorem mem_pending : q ∈ pending ch ↔ .hiccup q ∈ ch := by
  simp [pending, Command.hiccupQueue_eq_some]

theorem pending_eq_nil (h : ∀ q, .hiccup q ∉ ch) : pending ch = [] := by
  rw [eq_nil_iff_forall_not_mem]
  intro q hq
  exact h q (mem_pending.mp hq)

/-- The queues on the way to reader `x`, the writer's one first. -/
def inbound (s : PipePair) (x : Side) : List QueueId :=
  match (s.pipe x.peer).outPipe with
  | some q => q :: pending (s.mail x.peer)
  | none => if s.deallocated x = 0 then [(s.pipe x).inPipe] else []

/-- Every queue on the way to a reader is alive, has one owner, and ends up where
the reader reads. -/
structure Ownership (s : PipePair) : Prop where
  /-- An end has a queue to write to until it acknowledges. -/
  outPipe_none : ∀ x, (s.pipe x).outPipe = none ↔
    released (s.pipe x).state (s.deallocated x) = true
  last : ∀ x q, (s.pipe x.peer).outPipe = some q →
    (s.pipe x).inPipe = (pending (s.mail x.peer)).getLast?.getD q
  allocated : Allocated s.inbound s.created s.deleted

theorem pending_post (hl : pending l = [])
    (z : Side) : pending (update m y (m y ++ l) z) = pending (m z) :=
  filterMap_post hl z

theorem pending_pop (h : m x = c :: rest) (hc : pending (c :: rest) = pending rest) (z : Side) :
    pending (update m x (m x).tail z) = pending (m z) :=
  filterMap_pop h hc z

theorem pending_postIf (s : PipePair) (b : Bool) (y : Side)
    (hc : pending [c] = []) (z : Side) : pending ((s.postIf b y c).mail z) = pending (s.mail z) :=
  filterMap_postIf s b y hc z

/-! ## Steps that leave the chains alone -/

/-- `x` acts, and what the chains are made of stays the same. -/
structure SameChains (x : Side) (s s' : PipePair) : Prop where
  outPipe : (s'.pipe x).outPipe = (s.pipe x).outPipe
  inPipe : (s'.pipe x).inPipe = (s.pipe x).inPipe
  acked : (s'.pipe x).state.acked = (s.pipe x).state.acked
  peer : s'.pipe x.peer = s.pipe x.peer
  deallocated : s'.deallocated = s.deallocated
  pending : ∀ z, pending (s'.mail z) = pending (s.mail z)
  created : s'.created = s.created
  deleted : s'.deleted = s.deleted

/-- `x` keeps its queues, and whether it has acknowledged. -/
theorem SameChains.update (hpipe : s'.pipe = update s.pipe x p)
    (hout : p.outPipe = (s.pipe x).outPipe) (hin : p.inPipe = (s.pipe x).inPipe)
    (hacked : p.state.acked = (s.pipe x).state.acked) (hd : s'.deallocated = s.deallocated)
    (hpend : ∀ z, PipePair.pending (s'.mail z) = PipePair.pending (s.mail z))
    (hcreated : s'.created = s.created) (hdeleted : s'.deleted = s.deleted) :
    SameChains x s s' where
  outPipe := by rw [hpipe, update_self, hout]
  inPipe := by rw [hpipe, update_self, hin]
  acked := by rw [hpipe, update_self, hacked]
  peer := by rw [hpipe, update_of_ne (Side.peer_ne x)]
  deallocated := hd
  pending := hpend
  created := hcreated
  deleted := hdeleted

namespace Ownership

theorem quiet (h : Ownership s) (hs : SameChains x s s') : Ownership s' := by
  have hout : ∀ z, (s'.pipe z).outPipe = (s.pipe z).outPipe := by
    intro z
    rcases x.eq_or_eq_peer z with rfl | rfl
    · exact hs.outPipe
    · rw [hs.peer]
  have hin : ∀ z, (s'.pipe z).inPipe = (s.pipe z).inPipe := by
    intro z
    rcases x.eq_or_eq_peer z with rfl | rfl
    · exact hs.inPipe
    · rw [hs.peer]
  have hrel : ∀ z, released (s'.pipe z).state (s'.deallocated z) =
      released (s.pipe z).state (s.deallocated z) := by
    intro z
    rw [hs.deallocated]
    rcases x.eq_or_eq_peer z with rfl | rfl
    · simp [released, hs.acked]
    · rw [hs.peer]
  have hinbound : s'.inbound = s.inbound := by
    funext z
    simp [inbound, hout, hin, hs.deallocated, hs.pending]
  refine ⟨fun z => ?_, fun z q hq => ?_, ?_⟩
  · rw [hout, hrel]
    exact h.outPipe_none z
  · rw [hout] at hq
    rw [hin, hs.pending]
    exact h.last z q hq
  · rw [hinbound, hs.created, hs.deleted]
    exact h.allocated

/-! ## Steps that change the chains -/

/-- When `x` lets go of its outbound queue and no `hiccup` is on the way, that
queue is the one its peer reads from. -/
theorem inbound_letGo (h : Ownership s) (hq : (s.pipe x).outPipe = some q)
    (hpend : pending (s.mail x) = []) (halive : s.deallocated x.peer = 0)
    (hout : (s'.pipe x).outPipe = none) (hin : (s'.pipe x).inPipe = (s.pipe x).inPipe)
    (hpeer : s'.pipe x.peer = s.pipe x.peer) (hd : s'.deallocated = s.deallocated)
    (hm : pending (s'.mail x.peer) = pending (s.mail x.peer)) : s'.inbound = s.inbound := by
  have hlast := h.last x.peer q (by simpa using hq)
  rw [Side.peer_peer, hpend] at hlast
  funext z
  rcases x.eq_or_eq_peer z with rfl | rfl
  · simp [inbound, hpeer, hin, hd, hm]
  · simp only [inbound, Side.peer_peer, hout, hq, hpeer, hd, hpend, halive]
    simpa using hlast

/-- The reader of a chain whose writer has let go owns the last queue. -/
theorem inbound_of_none (hout : (s.pipe x.peer).outPipe = none)
    (hd : s.deallocated x = 0) : s.inbound x = [(s.pipe x).inPipe] := by
  simp [inbound, hout, hd]

theorem inbound_deleteThis (hout : (s.pipe x.peer).outPipe = none) :
    (s.deleteThis x).inbound = update s.inbound x [] := by
  funext z
  rcases x.eq_or_eq_peer z with rfl | rfl
  · simp [inbound, hout]
  · simp [inbound]

section
variable (h : Ownership s)
include h

theorem letGo (hq : (s.pipe x).outPipe = some q)
    (hpend : pending (s.mail x) = []) (halive : s.deallocated x.peer = 0)
    (hout : p.outPipe = none) (hin : p.inPipe = (s.pipe x).inPipe) (hacked : p.state.acked = true) :
    Ownership ((s.setPipe x p).post x.peer .pipeTermAck) := by
  refine ⟨fun z => ?_, fun z q' hq' => ?_, ?_⟩
  · rcases x.eq_or_eq_peer z with rfl | rfl
    · simp [hout, hacked, released]
    · simpa using h.outPipe_none x.peer
  · rcases x.eq_or_eq_peer z with rfl | rfl
    · simpa [hin] using h.last z q' (by simpa using hq')
    · simp [hout] at hq'
  · have hinbound : ((s.setPipe x p).post x.peer .pipeTermAck).inbound = s.inbound :=
      h.inbound_letGo hq hpend halive (by simpa using hout) (by simpa using hin) (by simp) rfl
        (by simp)
    rw [hinbound]
    exact h.allocated

/-- `x` deletes its inbound queue and itself. The state `t` before that differs from
`s` at most in that `x` has let go of its outbound queue. -/
theorem dies (hd : s.deallocated x = 0) {t : PipePair} (u : UPipe)
    (hpeer : released (s.pipe x.peer).state (s.deallocated x.peer) = true)
    (htin : t.inbound = s.inbound) (htc : t.created = s.created) (htd : t.deleted = s.deleted)
    (htpeer : t.pipe x.peer = s.pipe x.peer) (htdead : t.deallocated = s.deallocated)
    (hout : (t.pipe x).outPipe = none) (hin : (t.pipe x).inPipe = (s.pipe x).inPipe) :
    Ownership (((t.store (s.pipe x).inPipe u).delete (s.pipe x).inPipe).deleteThis x) := by
  have hpnone := (h.outPipe_none x.peer).mpr hpeer
  refine ⟨fun z => ?_, fun z _ hq' => ?_, ?_⟩
  · rcases x.eq_or_eq_peer z with rfl | rfl
    · simp [hout, released]
    · simpa [htpeer, htdead] using h.outPipe_none x.peer
  · rcases x.eq_or_eq_peer z with rfl | rfl
    · simp [htpeer, hpnone] at hq'
    · simp [hout] at hq'
  · have hdel := h.allocated.delete (inbound_of_none hpnone hd)
    have hinbound :
        (((t.store (s.pipe x).inPipe u).delete (s.pipe x).inPipe).deleteThis x).inbound =
        update s.inbound x [] := by
      rw [← htin]
      exact inbound_deleteThis (by simpa [htpeer] using hpnone)
    rw [hinbound]
    simpa [htc, htd] using hdel

theorem withEvents (ev : Side → List PipeEvent) : Ownership (s.withEvents ev) :=
  { h with }

theorem store (q : QueueId) (u : UPipe) : Ownership (s.store q u) :=
  { h with }

/-- An end that has not acknowledged has a queue to write to. -/
theorem exists_outPipe (hd : s.deallocated x = 0)
    (hst : (s.pipe x).state.acked = false) : ∃ q, (s.pipe x).outPipe = some q := by
  rw [← Option.ne_none_iff_exists', Ne, h.outPipe_none x]
  simp [released, hd, hst]

/-- An end that has neither asked for the termination nor acknowledged it has a peer
that still writes to it. -/
theorem exists_outPipe_peer (hh : Handshake s) (hd : s.deallocated x = 0)
    (hasked : (s.pipe x).state.asked = false) (hacked : (s.pipe x).state.acked = false) :
    ∃ q, (s.pipe x.peer).outPipe = some q := by
  rw [← Option.ne_none_iff_exists']
  intro hnone
  have hout := hh.out x
  have hrel := (h.outPipe_none x.peer).mp hnone
  simp only [released, Bool.or_eq_true, bne_iff_ne] at hrel
  rcases hrel with hpeer | hdead
  · -- a peer that has acknowledged has heard `pipe_term` from `x`
    have := hout.not_heard hasked
    rw [PipeState.heard_of_acked hpeer] at this
    cases this
  · -- a deallocated peer has got its ack from `x`
    exact hdead (hh.peer_alive hd hacked)

theorem hiccups (hq : (s.pipe x.peer).outPipe = some q) (u : UPipe) (b : Bool) :
    Ownership (((s.create u).setPipe x { s.pipe x with inPipe := s.created, inActive := b }).post
      x.peer (.hiccup s.created)) := by
  refine ⟨fun z => ?_, fun z q' hq' => ?_, ?_⟩
  · rcases x.eq_or_eq_peer z with rfl | rfl
    · simpa using h.outPipe_none z
    · simpa using h.outPipe_none x.peer
  · rcases x.eq_or_eq_peer z with rfl | rfl
    · simp
    · simpa using h.last x.peer q' (by simpa using hq')
  · have hinbound : (((s.create u).setPipe x
        { s.pipe x with inPipe := s.created, inActive := b }).post x.peer
          (.hiccup s.created)).inbound =
        update s.inbound x (s.inbound x ++ [s.created]) := by
      funext z
      rcases x.eq_or_eq_peer z with rfl | rfl
      · simp [inbound, hq]
      · simp [inbound]
    rw [hinbound]
    exact h.allocated.create x

/-- `x` moves on to the queue of a `hiccup` command and deletes the old one. -/
theorem swaps (hmail : s.mail x = .hiccup q' :: rest) (hq : (s.pipe x).outPipe = some q) (u : UPipe)
    (hout : p.outPipe = some q') (hin : p.inPipe = (s.pipe x).inPipe)
    (hstate : p.state = (s.pipe x).state) :
    Ownership ((((s.popMail x).store q u).delete q).setPipe x p) := by
  have hrel : released (s.pipe x).state (s.deallocated x) ≠ true := by
    rw [Ne, ← h.outPipe_none x, hq]
    simp
  refine ⟨fun z => ?_, fun z q'' hq'' => ?_, ?_⟩
  · rcases x.eq_or_eq_peer z with rfl | rfl
    · simp [hout, hstate, hrel]
    · simpa using h.outPipe_none x.peer
  · rcases x.eq_or_eq_peer z with rfl | rfl
    · simpa [hin] using h.last z q'' (by simpa using hq'')
    have hlast := h.last x.peer q (by simpa using hq)
    have heq : q' = q'' := by simpa [hout] using hq''
    subst heq
    simpa [hmail, getLast?_cons] using hlast
  · have hhead : s.inbound x.peer = q :: q' :: pending rest := by simp [inbound, hq, hmail]
    have hinbound : ((((s.popMail x).store q u).delete q).setPipe x p).inbound =
        update s.inbound x.peer (q' :: pending rest) := by
      funext z
      rcases x.eq_or_eq_peer z with rfl | rfl
      · simp [inbound, hin]
      · simp [inbound, hout, hmail]
    rw [hinbound]
    exact h.allocated.delete hhead

theorem outcome (hh : Handshake s) (halive : s.deallocated a.side = 0)
    (ho : Outcome s a r s') : Ownership s' := by
  cases ho with
  | idle => exact h
  | look | unput => exact h.store _ _
  | sleep | full | put | setNodelay | ignored =>
    exact h.quiet (.update rfl rfl rfl rfl rfl (fun _ => rfl) rfl rfl)
  | delimiter _ _ _ _ _ hst =>
    exact h.quiet (.update rfl rfl rfl (by rw [hst]; rfl) rfl (fun _ => rfl) rfl rfl)
  | @take x | @publish x | @closeAgain x =>
    exact h.quiet (x := x) ⟨by simp, by simp, by simp, by simp, by simp,
      pending_postIf _ _ _ rfl, by simp, by simp⟩
  | marks => exact h.quiet (.update rfl rfl rfl rfl rfl (pending_post rfl) rfl rfl)
  | @stats x =>
    exact h.quiet (x := x) ⟨rfl, rfl, rfl, rfl, rfl, pending_post rfl, rfl, rfl⟩
  | @close x delay q hst =>
    have hacked : (s.pipe x).state.acked = false := by rcases hst with e | e <;> rw [e] <;> rfl
    exact h.quiet (x := x) ⟨by simp, by simp, by rw [hacked]; simp [PipeState.acked], by simp,
      by simp, fun z => (pending_postIf _ _ _ rfl z).trans (pending_post rfl z), by simp, by simp⟩
  | wake hmail | credit hmail | remark hmail =>
    exact h.quiet (.update rfl rfl rfl rfl rfl (pending_pop hmail rfl) rfl rfl)
  | @peerStats x n rest ev hmail =>
    exact h.quiet (x := x) ⟨rfl, rfl, rfl, rfl, rfl, pending_pop hmail rfl, rfl, rfl⟩
  | wait hmail hst =>
    exact h.quiet (.update rfl rfl rfl (by rw [hst]; rfl) rfl (pending_pop hmail rfl) rfl rfl)
  | @hiccup x hst =>
    obtain ⟨q, hq⟩ := h.exists_outPipe_peer (x := x) hh halive (by rw [hst]; rfl) (by rw [hst]; rfl)
    exact h.hiccups hq _ _
  | @swap x q q' rest u ev hmail hq =>
    exact (h.swaps hmail hq u (by simp) (by simp) (by simp)).withEvents ev
  | @lastDelimiter x a r _ d u hn _ _ _ _ hst =>
    rw [hn.side] at halive
    have hacked : (s.pipe x).state.acked = false := by rw [hst]; rfl
    obtain ⟨q, hq⟩ := h.exists_outPipe halive hacked
    refine (h.store _ u).letGo hq ?_ (hh.peer_alive halive hacked) rfl rfl rfl
    exact pending_eq_nil ((hh x).no_hiccup (by rw [hst]; rfl))
  | @giveUp x q hst hq =>
    have hacked : (s.pipe x).state.acked = false := by rw [hst]; rfl
    refine (h.store q _).letGo hq ?_ (hh.peer_alive halive hacked) rfl rfl rfl
    exact pending_eq_nil ((hh x).no_hiccup (by rw [hst]; rfl))
  | @answer x rest st hmail hst =>
    have hacked : (s.pipe x).state.acked = false ∧ st.acked = true := by
      rcases hst with ⟨⟨e, -⟩ | e, rfl⟩ | ⟨e, rfl⟩ <;> rw [e] <;> decide
    obtain ⟨q, hq⟩ := h.exists_outPipe halive hacked.1
    have hin := hh x
    rw [hmail] at hin
    have hpop : Ownership (s.popMail x) :=
      h.quiet (x := x) ⟨rfl, rfl, rfl, rfl, rfl, pending_pop hmail rfl, rfl, rfl⟩
    refine hpop.letGo hq ?_ (hh.peer_alive halive hacked.1) rfl rfl hacked.2
    rw [popMail_mail, update_self, hmail]
    exact pending_eq_nil ((hin.take_term .termAckSent rfl).no_hiccup rfl)
  | @answerLast x rest u ev hmail hst =>
    -- the outbound queue is let go, and the inbound one deleted
    have hacked : (s.pipe x).state.acked = false := by rw [hst]; rfl
    have hin := hh x
    rw [hmail] at hin
    obtain ⟨hrel, rfl⟩ := hin.of_ack
    obtain ⟨q, hq⟩ := h.exists_outPipe halive hacked
    let t := ((s.popMail x).setPipe x { s.pipe x with outPipe := none }).post x.peer .pipeTermAck
    refine withEvents (h.dies (t := t) halive u hrel ?_ rfl rfl ?_ rfl ?_ ?_) ev
    · exact h.inbound_letGo hq (by simp [hmail]) (hh.peer_alive halive hacked) (by simp [t])
        (by simp [t]) (by simp [t]) rfl (by simp [t])
    · simp [t]
    · simp [t]
    · simp [t]
  | @finish x rest u ev hmail hst =>
    have hin := hh x
    rw [hmail] at hin
    obtain ⟨hrel, rfl⟩ := hin.of_ack
    refine withEvents
      (h.dies (t := s.popMail x) halive u hrel ?_ rfl rfl rfl rfl ?_ rfl) ev
    · funext z
      simp [inbound, pending_pop hmail rfl]
    · exact (h.outPipe_none x).mpr (by simp [released, hst])

end
end Ownership

/-! ## What the queues contain -/

/-- Nothing has been written to the queue. -/
structure Fresh (u : UPipe) : Prop where
  readable : u.readable = []
  ready : u.ready = []
  unfinished : u.unfinished = []

theorem fresh_new (b : Bool) : Fresh (new b) := ⟨by simp, by simp, by simp⟩

theorem Fresh.consumes (h : Fresh u) (hc : Consumes u l u') : Fresh u' := by
  have hread := hc.readable
  rw [h.readable, eq_comm, append_eq_nil_iff] at hread
  exact ⟨hread.2, hc.ready.trans h.ready, hc.unfinished.trans h.unfinished⟩

structure Contents (s : PipePair) : Prop where
  /-- A queue on its way to the writer is empty. -/
  fresh : ∀ x q, q ∈ pending (s.mail x) → Fresh (s.heap q)
  /-- What `rollback` finds are parts with the `more` flag. -/
  unfinished : ∀ x q, (s.pipe x).outPipe = some q → ∀ m ∈ (s.heap q).unfinished, m.hasMore = true

namespace Ownership

variable {q : QueueId} (h : Ownership s) (hh : Handshake s)

theorem mem_inbound_of_outPipe (hq : (s.pipe x).outPipe = some q) : q ∈ s.inbound x.peer := by
  simp [inbound, hq]
include h

theorem writer_unique (hq : (s.pipe x).outPipe = some q) (hz : (s.pipe z).outPipe = some q) :
    z = x := by
  rcases x.eq_or_eq_peer z with rfl | rfl
  · rfl
  · have hmem := mem_inbound_of_outPipe hz
    rw [Side.peer_peer] at hmem
    exact absurd (mem_inbound_of_outPipe hq) (h.allocated.disjoint (Side.ne_peer x) hmem)
include hh

/-- A writer that has let go has no new queue in flight. -/
theorem pending_of_none (hx : (s.pipe x).outPipe = none) : pending (s.mail x) = [] := by
  have hrel := (h.outPipe_none x).mp hx
  simp only [released, Bool.or_eq_true, bne_iff_ne] at hrel
  rcases hrel with hacked | hdead
  · exact pending_eq_nil ((hh x).no_hiccup (PipeState.heard_of_acked hacked))
  · rw [(hh x).dead_empty hdead]
    rfl

/-- A queue in flight to `x` leads to the peer, and `x` does not write to it yet. -/
theorem of_pending (hq : q ∈ pending (s.mail x)) :
    q ∈ s.inbound x.peer ∧ ∀ q', (s.pipe x).outPipe = some q' → q' ≠ q := by
  cases hx : (s.pipe x).outPipe with
  | none =>
    rw [h.pending_of_none hh hx] at hq
    cases hq
  | some q₀ =>
    have hin : s.inbound x.peer = q₀ :: pending (s.mail x) := by simp [inbound, hx]
    have hnodup := h.allocated.nodup x.peer
    rw [hin, nodup_cons] at hnodup
    refine ⟨hin ▸ mem_cons_of_mem _ hq, ?_⟩
    intro _ hq' e
    cases hq'
    exact hnodup.1 (e ▸ hq)

/-- Each queue has one writer, and a queue in flight has none. -/
theorem outPipe_ne (hq : (s.pipe x).outPipe = some q) (hq' : q' ∈ pending (s.mail z)) : q' ≠ q := by
  obtain ⟨hmem, hne⟩ := h.of_pending hh hq'
  rcases x.eq_or_eq_peer z with rfl | rfl
  · exact (hne q hq).symm
  · intro e
    rw [Side.peer_peer] at hmem
    exact h.allocated.disjoint (Side.ne_peer x) hmem (e ▸ mem_inbound_of_outPipe hq)

end Ownership

theorem unfinished_sealed (u : UPipe) : (sealed u).unfinished = [] := by
  simp [sealed, unfinished_flush, unfinished_write]

namespace Contents

/-- Fewer queues in flight, fewer queues to write to. -/
theorem mono (h : Contents s) (hheap : s'.heap = s.heap)
    (hmail : ∀ z q, q ∈ pending (s'.mail z) → q ∈ pending (s.mail z))
    (hout : ∀ z q, (s'.pipe z).outPipe = some q → (s.pipe z).outPipe = some q) : Contents s' := by
  refine ⟨fun z q hq => ?_, fun z q hq => ?_⟩
  · rw [hheap]
    exact h.fresh z q (hmail z q hq)
  · rw [hheap]
    exact h.unfinished z q (hout z q hq)

variable {q : QueueId}

theorem reads (h : Contents s) (hc : Consumes (s.inbox x) l u) :
    Contents (s.store (s.pipe x).inPipe u) := by
  refine ⟨fun z q hq => ?_, fun z q hq => ?_⟩
  · by_cases e : q = (s.pipe x).inPipe
    · subst e
      simpa using (h.fresh z _ hq).consumes hc
    · simpa [e] using h.fresh z q hq
  · by_cases e : q = (s.pipe x).inPipe
    · subst e
      simpa [hc.unfinished, inbox] using h.unfinished z _ hq
    · simpa [e] using h.unfinished z q hq

/-- `x` changes its own fields, keeps its outbound queue or drops it, and no new queue
is sent. -/
theorem quiet (h : Contents s) (hheap : s'.heap = s.heap) (hpeer : s'.pipe x.peer = s.pipe x.peer)
    (hout : ∀ q, (s'.pipe x).outPipe = some q → (s.pipe x).outPipe = some q)
    (hmail : ∀ z, pending (s'.mail z) = pending (s.mail z)) : Contents s' := by
  refine h.mono hheap (fun z q hq => hmail z ▸ hq) (fun z q hq => ?_)
  rcases x.eq_or_eq_peer z with rfl | rfl
  · exact hout q hq
  · rwa [hpeer] at hq

/-- Once one end is gone, both have let go of their queues. -/
theorem of_dead (ho : Ownership s) (hh : Handshake s) (hd : s.deallocated x ≠ 0) : Contents s := by
  have hout : ∀ z, (s.pipe z).outPipe = none := by
    intro z
    rw [ho.outPipe_none]
    rcases x.eq_or_eq_peer z with rfl | rfl
    · simp [released, hd]
    · exact (hh x).sender_released hd
  refine ⟨fun z q hq => ?_, fun z q hq => ?_⟩
  · rw [ho.pending_of_none hh (hout z)] at hq
    cases hq
  · rw [hout] at hq
    cases hq

variable (h : Contents s) (ho : Ownership s) (hh : Handshake s)
include h ho hh

theorem writes (hq : (s.pipe x).outPipe = some q) (hu : ∀ m ∈ u.unfinished, m.hasMore = true) :
    Contents (s.store q u) := by
  refine ⟨fun z q' hq' => ?_, fun z q' hq' => ?_⟩
  · simpa [ho.outPipe_ne hh hq hq'] using h.fresh z q' hq'
  · by_cases e : q' = q
    · subst e
      simpa using hu
    · simpa [e] using h.unfinished z q' hq'

/-- An end rolls back, or closes its queue with a delimiter. -/
theorem clears (hq : (s.pipe x).outPipe = some q) (hu : u.unfinished = []) :
    Contents (s.store q u) :=
  h.writes ho hh hq (by simp [hu])

theorem hiccups (c b : Bool) :
    Contents (((s.create (new c)).setPipe x
      { s.pipe x with inPipe := s.created, inActive := b }).post x.peer (.hiccup s.created)) := by
  -- the new name is not yet in use
  have hold : ∀ {z q}, q ∈ s.inbound z → q ≠ s.created := fun hq =>
    Nat.ne_of_lt (ho.allocated.live hq).1
  have hfresh : ∀ z q, q ∈ pending (s.mail z) →
      Fresh (update s.heap s.created (new c) q) := by
    intro z q hq
    rw [update_of_ne (hold (ho.of_pending hh hq).1)]
    exact h.fresh z q hq
  refine ⟨fun z q hq => ?_, fun z q hq => ?_⟩
  · rcases x.eq_or_eq_peer z with rfl | rfl
    · exact hfresh z q (by simpa using hq)
    have hq' : q ∈ pending (s.mail x.peer) ∨ q = s.created := by simpa using hq
    rcases hq' with hq' | rfl
    · exact hfresh x.peer q hq'
    · simpa using fresh_new c
  · have hq' : (s.pipe z).outPipe = some q := by
      rcases x.eq_or_eq_peer z with rfl | rfl
      · simpa using hq
      · simpa using hq
    have hne := hold (Ownership.mem_inbound_of_outPipe hq')
    simpa [hne] using h.unfinished z q hq'

theorem swaps (hmail : s.mail x = .hiccup q' :: rest) (hq : (s.pipe x).outPipe = some q) (u : UPipe)
    (hout : p.outPipe = some q') : Contents ((((s.popMail x).store q u).delete q).setPipe x p) := by
  have hsub : ∀ z q'', q'' ∈ pending (update s.mail x (s.mail x).tail z) →
      q'' ∈ pending (s.mail z) := by
    intro z q'' hq''
    rcases x.eq_or_eq_peer z with rfl | rfl
    · rw [update_self, hmail] at hq''
      rw [hmail]
      exact mem_cons_of_mem _ hq''
    · simpa using hq''
  refine ⟨fun z q'' hq'' => ?_, fun z q'' hq'' => ?_⟩
  · have hmem := hsub z q'' (by simpa using hq'')
    simpa [ho.outPipe_ne hh hq hmem] using h.fresh z q'' hmem
  · rcases x.eq_or_eq_peer z with rfl | rfl
    · -- the new queue was empty on its way
      have hmem : q'' ∈ pending (s.mail z) := by
        rw [hmail]
        exact mem_cons.mpr (.inl (by simpa [hout, eq_comm] using hq''))
      have hempty := (h.fresh z q'' hmem).unfinished
      simp [ho.outPipe_ne hh hq hmem, hempty]
    · have hpeer : (s.pipe x.peer).outPipe = some q'' := by simpa using hq''
      have hne : q'' ≠ q := by
        intro e
        exact Side.peer_ne x (ho.writer_unique hq (e ▸ hpeer))
      simpa [hne] using h.unfinished _ _ hpeer

theorem outcome (ho' : Ownership s') (hh' : Handshake s') (hout : Outcome s a r s') :
    Contents s' := by
  cases hout with
  | idle => exact h
  | look _ _ _ hc => exact h.reads hc
  | @sleep x _ _ u _ _ _ hc | @delimiter x _ _ _ d u _ _ _ _ hc =>
    exact (h.reads hc).quiet (x := x) rfl (by simp) (by simp) (fun _ => rfl)
  | @take x _ m u _ _ _ _ hc =>
    exact (h.reads hc).quiet (x := x) (by simp) (by simp) (by simp) (pending_postIf _ _ _ rfl)
  | @lastDelimiter x _ _ _ d u _ _ _ _ hc =>
    exact (h.reads hc).quiet (x := x) rfl (by simp) (by simp) (pending_post rfl)
  | @full x | @setNodelay x | @ignored x =>
    exact h.quiet (x := x) rfl (by simp) (by simp) (fun _ => rfl)
  | @put x m q _ _ _ _ hq =>
    have hmore : ∀ p ∈ ((s.heap q).write m m.hasMore).unfinished, p.hasMore = true := by
      intro p hp
      rw [unfinished_write] at hp
      split at hp
      · rename_i hcond
        rw [mem_append, mem_singleton] at hp
        rcases hp with hp | rfl
        · exact h.unfinished x q hq p hp
        · exact (Bool.and_eq_true_iff.mp hcond).2
      · cases hp
    exact (h.writes ho hh hq hmore).quiet (x := x) rfl (by simp) (by simp) (fun _ => rfl)
  | @unput x q hq => exact h.clears ho hh hq (s.heap q).unwriteAll_spec.2.2.2.2.1
  | @publish x q _ hq =>
    have hmore := h.unfinished x q hq
    rw [← unfinished_flush] at hmore
    exact (h.writes ho hh hq hmore).quiet (x := x) (by simp) (by simp) (by simp)
      (pending_postIf _ _ _ rfl)
  | hiccup => exact h.hiccups ho hh _ _
  | @close x delay q _ hq =>
    exact (h.clears ho hh hq (unfinished_sealed (s.heap q))).quiet (x := x) (by simp) (by simp)
      (by simp) fun z => (pending_postIf _ _ _ rfl z).trans (pending_post rfl z)
  | @closeAgain x q _ hq =>
    exact (h.clears ho hh hq (unfinished_sealed (s.heap q))).quiet (x := x) (by simp) (by simp)
      (by simp) (pending_postIf _ _ _ rfl)
  | @giveUp x q _ hq =>
    exact (h.clears ho hh hq (s.heap q).unwriteAll_spec.2.2.2.2.1).quiet (x := x) rfl (by simp)
      (by simp) (pending_post rfl)
  | @marks x | @stats x => exact h.quiet (x := x) rfl (by simp) (by simp) (pending_post rfl)
  | @wake x rest ev hmail | @credit x n rest ev hmail | @remark x i o rest hmail
  | @peerStats x n rest ev hmail =>
    exact h.quiet (x := x) rfl (by simp) (by simp) (pending_pop hmail rfl)
  | @swap x q q' rest u ev hmail hq =>
    exact (h.swaps ho hh hmail hq u rfl).quiet (x := x) rfl rfl (fun _ => id) (fun _ => rfl)
  | @wait x rest hmail => exact h.quiet (x := x) rfl (by simp) (by simp) (pending_pop hmail rfl)
  | @answer x rest st hmail =>
    exact h.quiet (x := x) rfl (by simp) (by simp)
      fun z => (pending_post rfl z).trans (pending_pop hmail rfl z)
  | @answerLast x | @finish x => exact of_dead (x := x) ho' hh' (by simp)

end Contents
end PipePair
end LibZmq
