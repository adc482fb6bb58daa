import Mathlib.Data.List.Count
import LibZmq.Pipe.Outcome

/-!
# The termination handshake

One direction of the command traffic between two pipe ends, seen from outside:
the states of sender and receiver, how often each has been deallocated, and the
commands in flight. `Link` is the contract between them.

* a `pipe_term` that was sent is in flight or has been heard;
* a `pipe_term_ack` that was sent is in flight or has deallocated the receiver;
* nothing follows a `pipe_term_ack`, and no `hiccup` follows a `pipe_term`.

The lemmas are the moves of the protocol: what a sender may append, what a
receiver may take, and how the two states change meanwhile.
-/

namespace LibZmq

open PipeState List

namespace Command

/-- Not part of the handshake. -/
def plain : Command → Bool
  | .hiccup _ | .pipeTerm | .pipeTermAck => false
  | _ => true

/-- `a` may be sent before `b`. -/
def InOrder (a b : Command) : Prop :=
  a ≠ .pipeTermAck ∧ (a = .pipeTerm → ∀ q, b ≠ .hiccup q)

/-- The queue that a `hiccup` command carries. -/
def hiccupQueue : Command → Option QueueId
  | .hiccup q => some q
  | _ => none

theorem hiccupQueue_eq_some {c : Command} : c.hiccupQueue = some q ↔ c = .hiccup q := by
  cases c <;> simp [hiccupQueue]

end Command

/-- An end that has sent its `pipe_term_ack`; a deallocated one has, whatever its
last state was. -/
def released (st : PipeState) (deallocated : Nat) : Bool := st.acked || deallocated != 0

/-- The contract between a receiver in state `rs`, a sender in state `ss` and the
commands `ch` in flight; `rd` and `sd` count how often they were deallocated. -/
structure Link (rs : PipeState) (rd : Nat) (ss : PipeState) (sd : Nat) (ch : List Command) :
    Prop where
  terms : ch.count .pipeTerm + rs.heard.toNat = ss.asked.toNat
  acks : ch.count .pipeTermAck + rd = (released ss sd).toNat
  order : ch.Pairwise Command.InOrder
  no_hiccup : rs.heard = true → ∀ q, Command.hiccup q ∉ ch
  dead_empty : rd ≠ 0 → ch = []
  dead_state : rd ≠ 0 → rs.closing = true

namespace Link

open Command

variable {rs ss : PipeState} {rd sd : Nat} {ch : List Command}

/-! ## Consequences -/

section
variable (h : Link rs rd ss sd ch)
include h

/-- As long as the sender has not acknowledged, the receiver is there. -/
theorem receiver_alive (ho : released ss sd = false) : rd = 0 := by
  have := h.acks
  rw [ho] at this
  simp only [Bool.toNat_false] at this
  omega

/-- A receiver that is gone got its ack from the sender. -/
theorem sender_released (hd : rd ≠ 0) : released ss sd = true := by
  by_contra hne
  exact hd (h.receiver_alive (Bool.eq_false_iff.mpr hne))

theorem no_ack (ho : released ss sd = false) : pipeTermAck ∉ ch := by
  have := h.acks
  rw [ho] at this
  simp only [Bool.toNat_false] at this
  exact count_eq_zero.mp (by omega)

theorem no_term (ha : ss.asked = false) : pipeTerm ∉ ch := by
  have := h.terms
  rw [ha] at this
  simp only [Bool.toNat_false] at this
  exact count_eq_zero.mp (by omega)

theorem not_heard (ha : ss.asked = false) : rs.heard = false := by
  have := h.terms
  rw [ha] at this
  cases hrs : rs.heard with
  | false => rfl
  | true => simp [hrs] at this

theorem deallocated_le_one : rd ≤ 1 := by
  have := h.acks
  have := Bool.toNat_le (released ss sd)
  omega

/-- A command in flight has a receiver. -/
theorem alive_of_mem (hc : c ∈ ch) : rd = 0 := by
  rcases Nat.eq_zero_or_pos rd with h0 | hpos
  · exact h0
  · rw [h.dead_empty (by omega)] at hc
    cases hc

end

/-- `pipe_term` finds its receiver in one of the states that can take it. -/
theorem not_heard_of_term (h : Link rs rd ss sd (.pipeTerm :: ch)) : rs.heard = false := by
  have hterms := h.terms
  have := Bool.toNat_le ss.asked
  rw [count_cons_self] at hterms
  cases hrs : rs.heard with
  | false => rfl
  | true => simp only [hrs, Bool.toNat_true] at hterms; omega

/-- `pipe_term_ack` was sent by an end that has let go, and is the last command. -/
theorem of_ack (h : Link rs rd ss sd (.pipeTermAck :: ch)) : released ss sd = true ∧ ch = [] := by
  constructor
  · by_contra hne
    exact h.no_ack (Bool.eq_false_iff.mpr hne) mem_cons_self
  · cases ch with
    | nil => rfl
    | cons b => exact absurd rfl ((pairwise_cons.mp h.order).1 b mem_cons_self).1

/-! ## What the sender does -/

/-- A command may follow those in flight if no `pipe_term_ack` is among them, and a `hiccup`
only if no `pipe_term` is. -/
theorem order_concat (h : Link rs rd ss sd ch) (hack : pipeTermAck ∉ ch)
    (hc : pipeTerm ∈ ch → ∀ q, c ≠ .hiccup q) : (ch ++ [c]).Pairwise InOrder := by
  apply pairwise_append.mpr
  refine ⟨h.order, pairwise_singleton _ _, ?_⟩
  intro a ha b hb
  rw [mem_singleton.mp hb]
  exact ⟨fun e => hack (e ▸ ha), fun e => hc (e ▸ ha)⟩

/-- A receiver that has heard `pipe_term` gets no `hiccup`. -/
theorem no_hiccup_concat (h : Link rs rd ss sd ch) (hc : ∀ q, c ≠ .hiccup q)
    (hh : rs.heard = true) (q : QueueId) : hiccup q ∉ ch ++ [c] := by
  intro hq
  rcases mem_append.mp hq with hq | hq
  · exact h.no_hiccup hh q hq
  · exact hc q (mem_singleton.mp hq).symm

/-- The sender appends a command that is not part of the handshake. -/
theorem post_plain (h : Link rs rd ss sd ch) (ho : released ss sd = false) (hc : c.plain = true) :
    Link rs rd ss sd (ch ++ [c]) := by
  have hd := h.receiver_alive ho
  have hne : ∀ q, c ≠ .hiccup q := by
    rintro q rfl
    cases hc
  refine ⟨?_, ?_, h.order_concat (h.no_ack ho) fun _ => hne, h.no_hiccup_concat hne,
    (absurd hd), h.dead_state⟩
  · rw [← h.terms]
    cases c <;> simp_all [plain]
  · rw [← h.acks]
    cases c <;> simp_all [plain]

theorem post_hiccup (h : Link rs rd .active 0 ch) (q : QueueId) :
    Link rs rd .active 0 (ch ++ [.hiccup q]) := by
  have hd := h.receiver_alive rfl
  -- an active sender has not sent `pipe_term`, so the receiver has not heard it either
  have horder := h.order_concat (c := .hiccup q) (h.no_ack rfl) fun hmem =>
    absurd hmem (h.no_term rfl)
  refine ⟨?_, ?_, horder, fun hh => ?_, absurd hd, h.dead_state⟩
  · rw [← h.terms]
    simp
  · rw [← h.acks]
    simp
  · cases (h.not_heard rfl).symm.trans hh

theorem post_term (h : Link rs rd ss 0 ch) (ha : ss.asked = false) (ho : ss.acked = false) :
    Link rs rd .termReqSent1 0 (ch ++ [.pipeTerm]) := by
  have hr : released ss 0 = false := by simp [released, ho]
  have hack := h.no_ack hr
  have hterm := h.no_term ha
  have hheard := h.not_heard ha
  have hd := h.receiver_alive hr
  have horder := h.order_concat (c := .pipeTerm) hack fun _ => nofun
  refine ⟨?_, ?_, horder, fun hh => ?_, absurd hd, h.dead_state⟩
  · simp [hheard, count_eq_zero.mpr hterm, asked]
  · simp [hd, count_eq_zero.mpr hack, released, acked]
  · cases hheard.symm.trans hh

/-- The sender acknowledges, and lets go of the receiver. -/
theorem post_ack (h : Link rs rd ss sd ch) (ho : released ss sd = false) (ss' : PipeState)
    (sd' : Nat) (ho' : released ss' sd' = true) (ha : ss'.asked = ss.asked) :
    Link rs rd ss' sd' (ch ++ [.pipeTermAck]) := by
  have hack := h.no_ack ho
  have hd := h.receiver_alive ho
  have hne : ∀ q, pipeTermAck ≠ .hiccup q := nofun
  refine ⟨?_, ?_, h.order_concat hack fun _ => hne, h.no_hiccup_concat hne,
    (absurd hd), h.dead_state⟩
  · rw [ha, ← h.terms]
    simp
  · simp [hd, count_eq_zero.mpr hack, ho']

/-- The sender changes its state in a way the receiver cannot see. -/
theorem sender (h : Link rs rd ss sd ch) (ss' : PipeState) (sd' : Nat)
    (ha : ss'.asked = ss.asked) (ho : released ss' sd' = released ss sd) : Link rs rd ss' sd' ch :=
  { h with terms := ha ▸ h.terms, acks := ho ▸ h.acks }

/-! ## What the receiver does -/

/-- The receiver changes its state without taking a command. -/
theorem receiver (h : Link rs 0 ss sd ch) (rs' : PipeState) (hh : rs'.heard = rs.heard) :
    Link rs' 0 ss sd ch :=
  ⟨hh ▸ h.terms, h.acks, h.order, fun e => h.no_hiccup (hh ▸ e), h.dead_empty, (absurd rfl)⟩

/-- The receiver takes a command that leaves the handshake where it is. -/
theorem take (h : Link rs rd ss sd (c :: ch)) (hterm : c ≠ .pipeTerm) (hack : c ≠ .pipeTermAck) :
    Link rs rd ss sd ch := by
  refine ⟨?_, ?_, (pairwise_cons.mp h.order).2, ?_, ?_, h.dead_state⟩
  · rw [← h.terms, count_cons_of_ne hterm]
  · rw [← h.acks, count_cons_of_ne hack]
  · intro hh q hq
    exact h.no_hiccup hh q (mem_cons_of_mem _ hq)
  · intro hne
    cases h.dead_empty hne

theorem take_term (h : Link rs rd ss sd (.pipeTerm :: ch)) (rs' : PipeState)
    (hh : rs'.heard = true) : Link rs' rd ss sd ch := by
  have hnot := h.not_heard_of_term
  have hd := h.alive_of_mem mem_cons_self
  have horder := pairwise_cons.mp h.order
  refine ⟨?_, ?_, horder.2, ?_, absurd hd, absurd hd⟩
  · rw [← h.terms, count_cons_self, hnot, hh]
    rfl
  · rw [← h.acks, count_cons_of_ne (by simp)]
  · intro _ q hq
    exact (horder.1 _ hq).2 rfl q rfl

/-- The receiver takes `pipe_term_ack` and deallocates itself. -/
theorem take_ack (h : Link rs 0 ss sd (.pipeTermAck :: ch)) (hc : rs.closing = true) :
    Link rs 1 ss sd ch := by
  obtain ⟨-, rfl⟩ := h.of_ack
  refine ⟨?_, ?_, Pairwise.nil, ?_, fun _ => rfl, fun _ => hc⟩
  · rw [← h.terms]
    simp
  · rw [← h.acks]
    simp
  · simp

end Link

namespace PipePair

variable {s s' : PipePair} {x : Side}

/-! ## Both directions -/

/-- The contract of the termination handshake holds in both directions. -/
def Handshake (s : PipePair) : Prop :=
  ∀ x, Link (s.pipe x).state (s.deallocated x) (s.pipe x.peer).state (s.deallocated x.peer)
    (s.mail x)

namespace Handshake

/-- Both directions, named from the side that acts: `x` as the receiver, and `x` as
the sender. -/
theorem of_sides (x : Side)
    (hin : Link (s.pipe x).state (s.deallocated x) (s.pipe x.peer).state (s.deallocated x.peer)
      (s.mail x))
    (hout : Link (s.pipe x.peer).state (s.deallocated x.peer) (s.pipe x).state (s.deallocated x)
      (s.mail x.peer)) : Handshake s := by
  intro z
  rcases x.eq_or_eq_peer z with rfl | rfl
  · exact hin
  · rw [Side.peer_peer]
    exact hout

section
variable (h : Handshake s) {c : Command}
include h

theorem out (x : Side) :
    Link (s.pipe x.peer).state (s.deallocated x.peer) (s.pipe x).state (s.deallocated x)
      (s.mail x.peer) := by
  have := h x.peer
  rwa [Side.peer_peer] at this

/-- An end that has not acknowledged has a peer. -/
theorem peer_alive (hd : s.deallocated x = 0)
    (hst : (s.pipe x).state.acked = false) : s.deallocated x.peer = 0 :=
  (h.out x).receiver_alive (by simp [released, hd, hst])

/-- `x` changes nothing that the handshake looks at. -/
theorem quiet (hpipe : s'.pipe = Function.update s.pipe x p) (hstate : p.state = (s.pipe x).state)
    (hd : s'.deallocated = s.deallocated) (hm : s'.mail = s.mail) : Handshake s' := by
  have hsame : ∀ z, (s'.pipe z).state = (s.pipe z).state := by
    intro z
    rw [hpipe, Function.update_apply]
    split
    · rename_i hz
      rw [hstate, hz]
    · rfl
  intro z
  rw [hsame, hsame, hd, hm]
  exact h z

theorem sends (b : Bool) (hc : c.plain = true)
    (ho : released (s.pipe x).state (s.deallocated x) = false) :
    Handshake (s.postIf b x.peer c) := by
  cases b with
  | false => exact h
  | true =>
    refine of_sides x ?_ ?_
    · simpa [postIf] using h x
    · simpa [postIf] using (h.out x).post_plain ho hc

/-- `x` takes a command that leaves the handshake where it is. -/
theorem receives (hmail : s.mail x = c :: rest) (hterm : c ≠ .pipeTerm) (hack : c ≠ .pipeTermAck) :
    Handshake (s.popMail x) := by
  have hin := h x
  rw [hmail] at hin
  refine of_sides x ?_ ?_
  · simpa [hmail] using hin.take hterm hack
  · simpa using h.out x

end

/-- `x` acknowledges while its state changes to `st`. -/
theorem acknowledges (hd : s.deallocated x = 0)
    (ho : (s.pipe x).state.acked = false) (ho' : p.state.acked = true)
    (hasked : p.state.asked = (s.pipe x).state.asked)
    (hin : Link p.state 0 (s.pipe x.peer).state (s.deallocated x.peer) (s.mail x))
    (hout : Link (s.pipe x.peer).state (s.deallocated x.peer) (s.pipe x).state (s.deallocated x)
      (s.mail x.peer)) :
    Handshake ((s.setPipe x p).post x.peer .pipeTermAck) := by
  have hout := hout.post_ack (by simp [released, hd, ho]) p.state 0 (by simp [released, ho']) hasked
  refine of_sides x ?_ ?_
  · simpa [hd] using hin
  · simpa [hd] using hout

section
variable (h : Handshake s)
include h

section
variable (hd : s.deallocated x = 0) (hst : (s.pipe x).state = .active) (u : UPipe)
include hd hst u

/-- `x` has read the delimiter before it hears `pipe_term`. -/
theorem reads_delimiter :
    Handshake ((s.store (s.pipe x).inPipe u).setPipe x
      { s.pipe x with state := .delimiterReceived }) := by
  have hin := h x
  have hout := h.out x
  rw [hd] at hin hout
  refine of_sides x ?_ ?_
  · simpa [hd] using hin.receiver .delimiterReceived (by rw [hst]; rfl)
  · simpa [hd] using hout.sender .delimiterReceived 0 (by rw [hst]; rfl) (by rw [hst]; rfl)

theorem hiccups :
    Handshake (((s.create u).setPipe x
      { s.pipe x with inPipe := s.created, inActive := true }).post x.peer
        (.hiccup s.created)) := by
  have hin := h x
  have hout := h.out x
  rw [hd, hst] at hin hout
  refine of_sides x ?_ ?_
  · simpa [hst, hd] using hin
  · simpa [hst, hd] using hout.post_hiccup s.created

end

theorem closes (hd : s.deallocated x = 0)
    (hst : (s.pipe x).state = .active ∨ (s.pipe x).state = .delimiterReceived)
    (hp : p.state = .termReqSent1) : Handshake ((s.post x.peer .pipeTerm).setPipe x p) := by
  have hin := h x
  have hout := h.out x
  rw [hd] at hin hout
  have hopen : (s.pipe x).state.asked = false ∧ (s.pipe x).state.acked = false ∧
      (s.pipe x).state.heard = false := by
    rcases hst with e | e <;> rw [e] <;> decide
  obtain ⟨hasked, hacked, hheard⟩ := hopen
  refine of_sides x ?_ ?_
  · simpa [hd, hp] using hin.receiver .termReqSent1 (by rw [hheard]; rfl)
  · simpa [hd, hp] using hout.post_term hasked hacked

/-- An active `x` hears `pipe_term` and goes on reading. -/
theorem waits (hmail : s.mail x = .pipeTerm :: rest) (hst : (s.pipe x).state = .active) :
    Handshake ((s.popMail x).setPipe x { s.pipe x with state := .waitingForDelimiter }) := by
  have hin := h x
  rw [hmail] at hin
  refine of_sides x ?_ ?_
  · simpa [hmail] using hin.take_term .waitingForDelimiter rfl
  · simpa using (h.out x).sender .waitingForDelimiter _ (by rw [hst]; rfl)
      (by simp [released, hst, acked])

theorem outcome (halive : s.deallocated a.side = 0) (ho : Outcome s a r s') : Handshake s' := by
  have hopen : ∀ x : Side, s.deallocated x = 0 → (s.pipe x).state.acked = false →
      released (s.pipe x).state (s.deallocated x) = false := by
    intro x hd hst
    simp [released, hd, hst]
  cases ho with
  | idle | look | unput => exact h
  | sleep | full | put | setNodelay | ignored => exact h.quiet rfl rfl rfl rfl
  | @take x _ m u hmay =>
    -- an end that reads has not acknowledged, and may still send
    have hst := acked_of_reading (Pipe.mayRead_iff.mp hmay).2
    refine sends ?_ _ ?_ ?_
    · exact h.quiet rfl rfl rfl rfl
    · rfl
    · simpa using hopen x halive hst
  | @publish x q hst =>
    refine sends (s := s.store q (s.heap q).flush.2) h _ ?_ ?_
    · rfl
    · exact hopen x halive hst
  | @marks x i o hst =>
    refine sends ?_ true ?_ ?_
    · exact h.quiet rfl rfl rfl rfl
    · rfl
    · simpa using hopen x halive hst
  | @stats x hst => exact sends h true rfl (hopen x halive hst)
  | @delimiter x a r _ d u hn hmay _ _ _ hst =>
    rw [hn.side] at halive
    exact h.reads_delimiter halive hst u
  | @lastDelimiter x a r _ d u hn hmay _ _ _ hst =>
    rw [hn.side] at halive
    have hin := h x
    rw [halive] at hin
    refine acknowledges halive ?_ rfl ?_ ?_ (h.out x)
    · simp [hst, acked]
    · simp [hst, asked]
    · exact hin.receiver _ (by rw [hst]; rfl)
  | hiccup hst => exact h.hiccups halive hst _
  | @close x delay q hst =>
    have halive : s.deallocated x = 0 := halive
    refine sends ?_ _ ?_ ?_
    · exact h.closes halive hst rfl
    · rfl
    · simp [released, halive, acked]
  | @closeAgain x q hst =>
    have hacked : (s.pipe x).state.acked = false := by rw [hst]; rfl
    refine sends ?_ _ ?_ ?_
    · exact h.quiet rfl rfl rfl rfl
    · rfl
    · simpa using hopen x halive hacked
  | @giveUp x q hst =>
    have halive : s.deallocated x = 0 := halive
    have hin := h x
    rw [halive] at hin
    refine acknowledges halive ?_ rfl ?_ ?_ (h.out x)
    · simp [hst, acked]
    · simp [hst, asked]
    · exact hin.receiver _ (by rw [hst]; rfl)
  | wake hmail | credit hmail | swap hmail | remark hmail =>
    exact (h.receives hmail (by simp) (by simp)).quiet rfl rfl rfl rfl
  | peerStats hmail => exact h.receives hmail (by simp) (by simp)
  | wait hmail hst => exact h.waits hmail hst
  | @answer x rest st hmail hst =>
    have halive : s.deallocated x = 0 := halive
    have hin := h x
    rw [hmail, halive] at hin
    have hst' : st.acked = true ∧ st.heard = true ∧ (s.pipe x).state.acked = false ∧
        st.asked = (s.pipe x).state.asked := by
      rcases hst with ⟨⟨e, -⟩ | e, rfl⟩ | ⟨e, rfl⟩ <;> rw [e] <;> decide
    obtain ⟨hacked', hheard, hacked, hasked⟩ := hst'
    refine acknowledges (s := s.popMail x) halive hacked hacked' hasked ?_ ?_
    · simpa [hmail] using hin.take_term _ hheard
    · simpa using h.out x
  | @answerLast x rest u ev hmail hst =>
    have halive : s.deallocated x = 0 := halive
    have hin := h x
    rw [hmail, halive] at hin
    have hout := (h.out x).post_ack
      (by simp [released, halive, hst, acked]) (s.pipe x).state 1 (by simp [released]) rfl
    refine of_sides x ?_ ?_
    · simpa [halive, hmail] using hin.take_ack (by rw [hst]; rfl)
    · simpa [halive] using hout
  | @finish x rest u ev hmail hst =>
    have halive : s.deallocated x = 0 := halive
    have hin := h x
    rw [hmail, halive] at hin
    refine of_sides x ?_ ?_
    · simpa [halive, hmail] using hin.take_ack (closing_of_acked hst)
    · simpa [halive] using (h.out x).sender (s.pipe x).state 1 rfl (by simp [released, hst])

end
end Handshake
end PipePair
end LibZmq
