import LibZmq.Pipe.Shutdown
import LibZmq.Pipe.Traffic

/-!
# The delimiter is not lost

An end in `waiting_for_delimiter` goes on reading until it meets the delimiter its
peer has written in `terminate`. The delimiter travels in the message queue, while
`pipe_term` and `hiccup` travel as commands, and a `hiccup` replaces the queue.

* `delimiter_not_lost`: in every run in which `hiccup` and `terminate` do not cross
  (`NoCrossing`), a waiting end has the delimiter in its queue and gets to it by
  reading.
* `crossing_hiccup_loses_delimiter`: when they do cross, the only delimiter can be
  destroyed, and the end waits forever.

The invariant `Attentive` also covers the wake-up of a passive reader.
-/

namespace LibZmq

namespace PipePair

open LibZmq.Core UPipe PipeState Function List

variable {s s' : PipePair} {x z : Side}

/-! ## The invariant -/

/-- `z` is waiting for a delimiter, or will be when the `pipe_term` on its way arrives. -/
def Expecting (s : PipePair) (z : Side) : Prop :=
  (s.pipe z).state = .waitingForDelimiter ∨
    (s.pipe z).state = .active ∧ (s.pipe z).delay = true ∧ (s.pipe z.peer).state = .termReqSent1

/-- What a reader can rely on. -/
structure Listening (s : PipePair) (z : Side) : Prop where
  /-- The delimiter is published in the reader's queue. -/
  secured : Expecting s z →
    pending (s.mail z.peer) = [] ∧ Msg.initDelimiter ∈ (s.inbox z).readable
  /-- A passive reader will be told when there is something to read. -/
  awake : (s.pipe z).state.reading = true → (s.pipe z).inActive = false →
    .activateRead ∈ s.mail z ∨ (s.inbox z).asleep = true

def Attentive (s : PipePair) : Prop := ∀ z, Listening s z

theorem Expecting.reading (h : Expecting s z) : (s.pipe z).state.reading = true := by
  rcases h with e | ⟨e, -⟩ <;> rw [e] <;> rfl

namespace Listening

theorem of_not_reading (h : (s.pipe z).state.reading = false) : Listening s z where
  secured he := by
    rw [he.reading] at h
    cases h
  awake hr := by
    rw [hr] at h
    cases h

/-- What may happen on the way to a reader that goes on as before. -/
theorem frame (h : Listening s z) (hst : (s'.pipe z).state = (s.pipe z).state)
    (hin : (s'.pipe z).inActive = (s.pipe z).inActive)
    (hdelay : (s.pipe z).state = .active → (s'.pipe z).delay = true → (s.pipe z).delay = true)
    (hpeer : (s'.pipe z.peer).state = .termReqSent1 → (s.pipe z.peer).state = .termReqSent1)
    (hpend : pending (s'.mail z.peer) = pending (s.mail z.peer))
    (hmail : .activateRead ∈ s.mail z → .activateRead ∈ s'.mail z)
    (hread : (s.pipe z).state.reading = true → ∀ m ∈ (s.inbox z).readable,
      m ∈ (s'.inbox z).readable)
    (hasleep : (s.pipe z).state.reading = true → (s.inbox z).asleep = true →
      .activateRead ∈ s'.mail z ∨ (s'.inbox z).asleep = true) : Listening s' z where
  secured he := by
    have he' : Expecting s z := by
      rcases he with e | ⟨e, hd, hp⟩
      · exact .inl (hst ▸ e)
      · exact .inr ⟨hst ▸ e, hdelay (hst ▸ e) hd, hpeer hp⟩
    obtain ⟨h1, h2⟩ := h.secured he'
    exact ⟨hpend.trans h1, hread he'.reading _ h2⟩
  awake hr hi := by
    rw [hst] at hr
    rw [hin] at hi
    rcases h.awake hr hi with hm | ha
    · exact .inl (hmail hm)
    · exact hasleep hr ha

end Listening

theorem Attentive.of_sides (hx : Listening s x) (hp : Listening s x.peer) : Attentive s := by
  intro z
  rcases x.eq_or_eq_peer z with rfl | rfl
  · exact hx
  · exact hp

/-- Nobody reads any more. -/
theorem Attentive.of_silent (hx : (s.pipe x).state.reading = false)
    (hp : (s.pipe x.peer).state.reading = false) : Attentive s :=
  .of_sides (.of_not_reading hx) (.of_not_reading hp)

/-! ## Steps that leave the readers alone -/

/-- `x` changes fields that its reading and its termination do not depend on. -/
structure Undisturbed (x : Side) (s s' : PipePair) : Prop where
  state : (s'.pipe x).state = (s.pipe x).state
  inActive : (s'.pipe x).inActive = (s.pipe x).inActive
  inPipe : (s'.pipe x).inPipe = (s.pipe x).inPipe
  delay : (s.pipe x).state = .active → (s'.pipe x).delay = true → (s.pipe x).delay = true
  peer : s'.pipe x.peer = s.pipe x.peer
  heap : s'.heap = s.heap
  pending : ∀ z, pending (s'.mail z) = pending (s.mail z)
  mail : ∀ z, .activateRead ∈ s.mail z → .activateRead ∈ s'.mail z

variable {u : UPipe} {rest : List Command}

theorem Undisturbed.update (hpipe : s'.pipe = update s.pipe x p)
    (hstate : p.state = (s.pipe x).state) (hact : p.inActive = (s.pipe x).inActive)
    (hin : p.inPipe = (s.pipe x).inPipe)
    (hdelay : (s.pipe x).state = .active → p.delay = true → (s.pipe x).delay = true)
    (hheap : s'.heap = s.heap)
    (hpend : ∀ z, PipePair.pending (s'.mail z) = PipePair.pending (s.mail z))
    (hmail : ∀ z, .activateRead ∈ s.mail z → .activateRead ∈ s'.mail z) : Undisturbed x s s' where
  state := by rw [hpipe, update_self, hstate]
  inActive := by rw [hpipe, update_self, hact]
  inPipe := by rw [hpipe, update_self, hin]
  delay := by
    rw [hpipe, update_self]
    exact hdelay
  peer := by rw [hpipe, update_of_ne (Side.peer_ne x)]
  heap := hheap
  pending := hpend
  mail := hmail

theorem Attentive.undisturbed (h : Attentive s) (hu : Undisturbed x s s') : Attentive s' := by
  intro z
  rcases x.eq_or_eq_peer z with rfl | rfl
  · have hbox : s'.inbox z = s.inbox z := by simp only [inbox, hu.inPipe, hu.heap]
    refine (h z).frame hu.state hu.inActive hu.delay ?_ (hu.pending _) (hu.mail _) ?_ ?_
    · rw [hu.peer]
      exact id
    · rw [hbox]
      exact fun _ m hm => hm
    · rw [hbox]
      exact fun _ ha => .inr ha
  have hbox : s'.inbox x.peer = s.inbox x.peer := by simp [inbox, hu.peer, hu.heap]
  refine (h x.peer).frame (by rw [hu.peer]) (by rw [hu.peer]) (by rw [hu.peer]; exact fun _ => id)
    ?_ (hu.pending _) (hu.mail _) ?_ ?_
  · rw [Side.peer_peer, hu.state]
    exact id
  · rw [hbox]
    exact fun _ m hm => hm
  · rw [hbox]
    exact fun _ ha => .inr ha

/-- `x` takes messages from its queue: its peer goes on as before. -/
theorem listening_peer (h : Listening s x.peer) (hs : Sound s)
    (hst : (s.pipe x).state.reading = true) (u : UPipe) :
    Listening (s.store (s.pipe x).inPipe u) x.peer := by
  have hbox : (s.pipe x.peer).state.reading = true →
      (s.store (s.pipe x).inPipe u).inbox x.peer = s.inbox x.peer := by
    intro hr
    rw [inbox_store,
      if_neg (hs.inPipe_ne_inPipe (hs.alive_of_reading hst) (hs.alive_of_reading hr))]
  refine h.frame rfl rfl (fun _ => id) id rfl id ?_ ?_
  · intro hr m _
    rwa [hbox hr]
  · intro hr ha
    rw [hbox hr]
    exact .inr ha

/-- `x` takes messages from its queue, but not the delimiter. -/
theorem listening_reads (h : Attentive s) (hs : Sound s) (hmay : (s.pipe x).mayRead = true)
    (hdel : Msg.initDelimiter ∈ (s.inbox x).readable → Msg.initDelimiter ∈ u.readable) :
    Attentive (s.store (s.pipe x).inPipe u) := by
  intro z
  obtain ⟨hin, hst⟩ := Pipe.mayRead_iff.mp hmay
  rcases x.eq_or_eq_peer z with rfl | rfl
  · refine ⟨fun he => ?_, fun _ hi => ?_⟩
    · obtain ⟨h1, h2⟩ := (h z).secured he
      refine ⟨h1, ?_⟩
      rw [inbox_store, if_pos rfl]
      exact hdel h2
    · rw [store_pipe, hin] at hi
      cases hi
  · exact listening_peer (h x.peer) hs hst u

/-- `x` changes its outbound queue, without taking messages from its reader. -/
theorem listening_writes (h : Attentive s) (hs : Sound s) (hd : s.deallocated x = 0)
    (hq : (s.pipe x).outPipe = some q) (b : Bool)
    (hread : ∀ m ∈ (s.heap q).readable, m ∈ u.readable)
    (hasleep : (s.heap q).asleep = true → u.asleep = true ∨ b = true) :
    Attentive ((s.store q u).postIf b x.peer .activateRead) := by
  have hmail : ∀ z, .activateRead ∈ s.mail z →
      .activateRead ∈ ((s.store q u).postIf b x.peer .activateRead).mail z := fun z hz =>
    mem_mail_postIf (s.store q u) b x.peer .activateRead hz
  have hpend := pending_postIf (s.store q u) b x.peer (c := .activateRead) rfl
  have hbox : ∀ z, ((s.store q u).postIf b x.peer .activateRead).inbox z =
      if (s.pipe z).inPipe = q then u else s.inbox z := by
    intro z
    rw [← inbox_store]
    simp [inbox]
  intro z
  rcases x.eq_or_eq_peer z with rfl | rfl
  · -- `x` reads from another queue
    have hne : (s.pipe z).inPipe ≠ q := (hs.inPipe_ne_outPipe hd hq).symm
    refine (h z).frame (by simp) (by simp) (by simp) (by simp) (hpend _) (hmail _) ?_ ?_
    · rw [hbox, if_neg hne]
      exact fun _ m hm => hm
    · rw [hbox, if_neg hne]
      exact fun _ ha => .inr ha
  refine (h x.peer).frame (by simp) (by simp) (by simp) (by simp) (hpend _) (hmail _) ?_ ?_
  · intro _ m hm
    rw [hbox]
    split
    · rename_i e
      apply hread
      rw [← e]
      exact hm
    · exact hm
  · intro _ ha
    rw [hbox]
    split
    · rename_i e
      rcases hasleep (e ▸ ha) with hu | rfl
      · exact .inr hu
      · left
        simp [postIf]
    · exact .inr ha

/-! ## Steps that change what a reader waits for -/

/-- The end that an acknowledgement or a `pipe_term` was for does not read any more. -/
theorem Sound.peer_not_reading (h : Sound s) (hx : (s.pipe x).state.heard = true) :
    (s.pipe x.peer).state.reading = false := by
  have hasked : (s.pipe x.peer).state.asked = true := by
    by_contra hne
    have := (h.handshake x).not_heard (Bool.eq_false_iff.mpr hne)
    rw [hx] at this
    cases this
  cases hst : (s.pipe x.peer).state <;> simp_all [asked, reading]

theorem Sound.not_reading_of_released (h : Sound s)
    (hz : released (s.pipe z).state (s.deallocated z) = true) :
    (s.pipe z).state.reading = false := by
  by_contra hne
  have hr : (s.pipe z).state.reading = true := by simpa using hne
  rw [released, h.alive_of_reading hr, acked_of_reading hr] at hz
  cases hz

/-- The conditions under which `hiccup` and `terminate` do not get into each other's
way. A `hiccup` drops the delimiter of a peer that has called `terminate`; a
`terminate` writes its delimiter into a queue that a `hiccup` on its way will replace.
Both are harmless if the end that would wait for the delimiter does not wait. -/
def NoCrossing (s : PipePair) : Action → Prop
  | .hiccup x => (s.pipe x).state = .active → (s.pipe x).delay = true →
      (s.pipe x.peer).state ≠ .termReqSent1
  | .terminate x _ => (s.pipe x).state = .active ∨ (s.pipe x).state = .delimiterReceived →
      (s.pipe x.peer).state = .active → (s.pipe x.peer).delay = true → pending (s.mail x) = []
  | _ => True

attribute [local simp] inbox postIf_mail Expecting

section
variable (h : Attentive s)
include h

section
variable (hs : Sound s)
include hs

theorem listening_hiccup
    (hguard : s.NoCrossing (.hiccup x)) (u : UPipe) (hst : (s.pipe x).state = .active) :
    Attentive (((s.create u).setPipe x
      { s.pipe x with inPipe := s.created, inActive := true }).post x.peer
        (.hiccup s.created)) := by
  intro z
  rcases x.eq_or_eq_peer z with rfl | rfl
  · refine ⟨fun he => ?_, fun _ hi => ?_⟩
    · -- a peer in `term_req_sent1` is what the condition excludes
      rcases he with e | ⟨-, hd, hp⟩
      · simp [hst] at e
      · exact absurd (by simpa using hp) (hguard hst (by simpa using hd))
    · simp at hi
  have hbox : (s.pipe x.peer).state.reading = true →
      (((s.create u).setPipe x { s.pipe x with inPipe := s.created, inActive := true }).post
        x.peer (.hiccup s.created)).inbox x.peer = s.inbox x.peer := by
    intro hr
    have hlt := (hs.ownership.allocated.live (hs.inPipe_mem (hs.alive_of_reading hr))).1
    simp [Nat.ne_of_lt hlt]
  refine (h x.peer).frame (by simp) (by simp) (by simp) (by simp) (by simp) ?_ ?_ ?_
  · exact mem_mail_post _ _ _
  · intro hr m _
    rwa [hbox hr]
  · intro hr ha
    rw [hbox hr]
    exact .inr ha

theorem listening_close (hn : NoConflate s)
    (hd : s.deallocated x = 0) (hguard : s.NoCrossing (.terminate x delay))
    (hst : (s.pipe x).state = .active ∨ (s.pipe x).state = .delimiterReceived)
    (hq : (s.pipe x).outPipe = some q) : Attentive ((((s.post x.peer .pipeTerm).setPipe x
      { s.pipe x with delay := delay, state := .termReqSent1, outActive := false }).store q
        (sealed (s.heap q))).postIf (sealWakes (s.heap q)) x.peer .activateRead) := by
  intro z
  obtain ⟨hread, -, hwakes⟩ := sealed_spec (hn.heap q)
  rcases x.eq_or_eq_peer z with rfl | rfl
  · apply Listening.of_not_reading
    simp [reading]
  have hbox : ((((s.post x.peer .pipeTerm).setPipe x
      { s.pipe x with delay := delay, state := .termReqSent1, outActive := false }).store q
        (sealed (s.heap q))).postIf (sealWakes (s.heap q)) x.peer .activateRead).inbox x.peer =
      if (s.pipe x.peer).inPipe = q then sealed (s.heap q) else s.inbox x.peer := by
    simp [update_apply]
  refine ⟨fun he => ?_, fun hr hi => ?_⟩
  · have hasked : (s.pipe x).state.asked = false := by rcases hst with e | e <;> rw [e] <;> rfl
    have hheard := (hs.handshake.out x).not_heard hasked
    rcases he with e | ⟨e, hdelay, -⟩
    · -- the peer cannot be waiting yet
      simp only [postIf_pipe, store_pipe, setPipe_pipe, post_pipe,
        update_of_ne (Side.peer_ne x)] at e
      rw [e] at hheard
      cases hheard
    simp only [postIf_pipe, store_pipe, setPipe_pipe, post_pipe,
      update_of_ne (Side.peer_ne x)] at e hdelay
    have hpend := hguard hst e hdelay
    rcases hs.attached_or_fresh hq with ⟨hatt, -⟩ | ⟨hmem, -⟩
    · refine ⟨by simpa using hpend, ?_⟩
      rw [hbox, if_pos hatt, hread]
      simp
    · rw [hpend] at hmem
      cases hmem
  · rw [hbox]
    rcases (h x.peer).awake (by simpa using hr) (by simpa using hi) with hm | ha
    · left
      exact mem_mail_postIf _ _ _ _ (mem_mail_post _ _ _ hm)
    split
    · rename_i e
      -- the reader is asleep, so the flush wakes it
      have hwake : sealWakes (s.heap q) = true := by
        rw [hwakes, ← e]
        exact ha
      left
      simp [hwake]
    · exact .inr ha

theorem listening_swap (hd : s.deallocated x = 0) (hmail : s.mail x = .hiccup q' :: rest)
    (hq : (s.pipe x).outPipe = some q) (u : UPipe) (hstate : p.state = (s.pipe x).state)
    (hin : p.inActive = (s.pipe x).inActive) (hpipe : p.inPipe = (s.pipe x).inPipe)
    (hdelay : p.delay = (s.pipe x).delay) (e : Side → List PipeEvent) :
    Attentive (((((s.popMail x).store q u).delete q).setPipe x p).withEvents e) := by
  intro z
  rcases x.eq_or_eq_peer z with rfl | rfl
  · have hne : (s.pipe z).inPipe ≠ q := (hs.inPipe_ne_outPipe hd hq).symm
    have hbox : (((((s.popMail z).store q u).delete q).setPipe z p).withEvents e).inbox z =
        s.inbox z := by
      simp [hpipe, hne]
    refine (h z).frame (by simpa using hstate) (by simpa using hin) (by simp [hdelay]) (by simp)
      (by simp) ?_ ?_ ?_
    · exact mem_mail_popMail hmail (by simp)
    · rw [hbox]
      exact fun _ m hm => hm
    · rw [hbox]
      exact fun _ ha => .inr ha
  · -- the reader on the other side has already moved on to a new queue
    have hpend : pending (s.mail x) ≠ [] := by simp [hmail]
    have hmem : (s.pipe x.peer).inPipe ∈ pending (s.mail x) := by
      rcases hs.attached_or_fresh hq with ⟨-, hnil⟩ | ⟨hmem, -⟩
      · exact absurd hnil hpend
      · exact hmem
    have hne := hs.ownership.outPipe_ne hs.handshake hq hmem
    have hbox : (((((s.popMail x).store q u).delete q).setPipe x p).withEvents e).inbox x.peer =
        s.inbox x.peer := by
      simp [hne]
    refine ⟨fun he => ?_, fun hr hi => ?_⟩
    · have he' : Expecting s x.peer := by simpa [hstate] using he
      have := ((h x.peer).secured he').1
      rw [Side.peer_peer] at this
      exact absurd this hpend
    · rw [hbox]
      simpa using (h x.peer).awake (by simpa using hr) (by simpa using hi)

theorem listening_wait (hmail : s.mail x = .pipeTerm :: rest) (hst : (s.pipe x).state = .active)
    (hdelay : (s.pipe x).delay = true)
    (hs' : Sound ((s.popMail x).setPipe x { s.pipe x with state := .waitingForDelimiter })) :
    Attentive ((s.popMail x).setPipe x { s.pipe x with state := .waitingForDelimiter }) := by
  intro z
  rcases x.eq_or_eq_peer z with rfl | rfl
  · -- the peer has sent `pipe_term`, and `x` has not
    have hlink := hs.handshake z
    rw [hmail] at hlink
    have hasked : (s.pipe z.peer).state.asked = true := by
      by_contra hne
      exact hlink.no_term (Bool.eq_false_iff.mpr hne) mem_cons_self
    have hheard := (hs.handshake.out z).not_heard (by rw [hst]; rfl)
    have hpeer : (s.pipe z.peer).state = .termReqSent1 := by
      cases hp : (s.pipe z.peer).state <;> simp_all [asked, heard]
    have hbox : ((s.popMail z).setPipe z
        { s.pipe z with state := .waitingForDelimiter }).inbox z = s.inbox z := by
      simp
    refine ⟨fun _ => ?_, fun _ hi => ?_⟩
    · rw [hbox]
      simpa using (h z).secured (.inr ⟨hst, hdelay, hpeer⟩)
    · rw [hbox]
      rcases (h z).awake (by rw [hst]; rfl) (by simpa using hi) with hm | ha
      · exact .inl (mem_mail_popMail hmail (by simp) hm)
      · exact .inr ha
  · apply Listening.of_not_reading
    exact hs'.peer_not_reading (by simp [heard])

section
variable (hmay : (s.pipe x).mayRead = true)
include hmay

/-- `x` finds its queue empty and turns passive. -/
theorem listening_sleep
    (hcred : ∀ c ∈ (s.inbox x).readable, c.isCredential = true) (hasleep : u.asleep = true) :
    Attentive ((s.store (s.pipe x).inPipe u).setPipe x { s.pipe x with inActive := false }) := by
  have hnone : Msg.initDelimiter ∉ (s.inbox x).readable := by
    intro hm
    simpa using hcred _ hm
  apply Attentive.of_sides (x := x)
  · refine ⟨fun he => ?_, fun _ _ => .inr (by simpa using hasleep)⟩
    exact absurd ((h x).secured (by simpa using he)).2 hnone
  · have h1 := listening_peer (h x.peer) hs (Pipe.mayRead_iff.mp hmay).2 u
    refine h1.frame (by simp) (by simp) (by simp) (by simp) rfl id ?_ ?_
    · simp
    · intro _ ha
      right
      simpa using ha

/-- `x` takes a message, and perhaps credentials before it. -/
theorem listening_take (hskip : ∀ c ∈ skipped, c.isCredential = true) (hm : m.isDelimiter = false)
    (hc : Consumes (s.inbox x) (skipped ++ [m]) u) (b : Bool) (n : UInt64) :
    Attentive (((s.store (s.pipe x).inPipe u).setPipe x ((s.pipe x).countRead m)).postIf b x.peer
      (.activateWrite n)) := by
  have h1 : Attentive (s.store (s.pipe x).inPipe u) := by
    apply listening_reads h hs hmay
    intro hdel
    rw [hc.readable, mem_append, mem_append, mem_singleton] at hdel
    rcases hdel with (hdel | rfl) | hdel
    · exact absurd (hskip _ hdel) (by simp)
    · simp at hm
    · exact hdel
  exact h1.undisturbed (x := x) ⟨by simp, by simp, by simp, by simp, by simp, by simp,
    pending_postIf _ _ _ rfl, fun _ hz => mem_mail_postIf
      ((s.store (s.pipe x).inPipe u).setPipe x ((s.pipe x).countRead m)) _ _ _ hz⟩

theorem listening_delimiter (u : UPipe) :
    Attentive ((s.store (s.pipe x).inPipe u).setPipe x
      { s.pipe x with state := .delimiterReceived }) := by
  apply Attentive.of_sides (x := x)
  · apply Listening.of_not_reading
    simp [reading]
  · have h1 := listening_peer (h x.peer) hs (Pipe.mayRead_iff.mp hmay).2 u
    refine h1.frame (by simp) (by simp) (by simp) (by simp) rfl id ?_ ?_
    · simp
    · intro _ ha
      right
      simpa using ha

end

end

theorem listening_wake (hmail : s.mail x = .activateRead :: rest) (e : Side → List PipeEvent) :
    Attentive (((s.popMail x).setPipe x
      { s.pipe x with inActive := (s.pipe x).inActive || (s.pipe x).state.reading }).withEvents
      e) := by
  apply Attentive.of_sides (x := x)
  · refine ⟨fun he => ?_, fun hr hi => ?_⟩
    · simpa using (h x).secured (by simpa using he)
    · have hr' : (s.pipe x).state.reading = true := by simpa using hr
      simp [hr'] at hi
  · refine (h x.peer).frame (by simp) (by simp) (by simp) (by simp) ?_ (by simp) ?_ ?_
    · rw [Side.peer_peer]
      exact pending_pop hmail rfl x
    · simp
    · intro _ ha
      right
      simpa using ha

end

/-- An acknowledgement has arrived at `x`: the peer has stopped reading. -/
theorem Sound.not_reading_of_ack (h : Sound s)
    (hmail : s.mail x = .pipeTermAck :: rest) : (s.pipe x.peer).state.reading = false := by
  have hlink := h.handshake x
  rw [hmail] at hlink
  exact h.not_reading_of_released hlink.of_ack.1

/-- Every step that meets the condition keeps what the readers rely on. -/
theorem listening_outcome (h : Attentive s) (hs : Sound s) (hn : NoConflate s)
    (hd : s.deallocated a.side = 0) (hs' : Sound s') (hguard : s.NoCrossing a)
    (ho : Outcome s a r s') : Attentive s' := by
  cases ho with
  | idle => exact h
  | look hmay _ _ hc =>
    refine listening_reads h hs hmay ?_
    rw [hc.readable]
    exact id
  | sleep _ hmay hcred _ hasleep => exact listening_sleep h hs hmay hcred hasleep
  | take hmay hskip _ hm hc => exact listening_take h hs hmay hskip hm hc _ _
  | delimiter _ hmay => exact listening_delimiter h hs hmay _
  | @lastDelimiter x =>
    -- from here on neither end reads
    apply Attentive.of_silent (x := x)
    · simp [reading]
    · exact hs'.peer_not_reading (by simp [heard])
  | full =>
    exact h.undisturbed (.update rfl rfl rfl rfl (fun _ => id) rfl (fun _ => rfl) fun _ => id)
  | @put x m q _ _ _ _ hq =>
    have h1 := listening_writes h hs hd hq (u := (s.heap q).write m m.hasMore) false
      (by rw [readable_write (hn.heap q)]; exact fun _ => id)
      (by rw [asleep_write]; exact .inl)
    exact h1.undisturbed (.update rfl rfl rfl rfl (fun _ => id) rfl (fun _ => rfl) fun _ => id)
  | @unput x q hq =>
    obtain ⟨-, -, hread, -, -, hasl⟩ := (s.heap q).unwriteAll_spec
    exact listening_writes h hs hd hq false
      (by rw [hread]; exact fun _ => id) (by rw [hasl]; exact .inl)
  | @publish x q _ hq =>
    obtain ⟨hfst, -, hread, -, -, hasl⟩ := flush_spec (hn.heap q)
    refine listening_writes h hs hd hq _ ?_ ?_
    · rw [hread]
      exact fun _ => mem_append_left _
    · rw [hfst, hasl]
      intro ha
      cases (s.heap q).ready.isEmpty <;> simp [ha]
  | setNodelay =>
    -- without `delay` no delimiter is waited for
    exact h.undisturbed (.update rfl rfl rfl rfl (fun _ e => absurd e Bool.false_ne_true) rfl
      (fun _ => rfl) fun _ => id)
  | hiccup hst => exact listening_hiccup h hs hguard _ hst
  | @ignored x delay hst =>
    have hne : (s.pipe x).state ≠ .active := by
      intro e
      rw [e] at hst
      cases hst
    exact h.undisturbed
      (.update rfl rfl rfl rfl (fun e => absurd e hne) rfl (fun _ => rfl) fun _ => id)
  | close hst hq => exact listening_close h hs hn hd hguard hst hq
  | @closeAgain x q hst hq =>
    obtain ⟨hread, -, hwakes⟩ := sealed_spec (hn.heap q)
    have h1 := listening_writes h hs hd hq (sealWakes (s.heap q))
      (by rw [hread]; simp_all) (by rw [hwakes]; exact .inr)
    have hne : (s.pipe x).state ≠ .active := by simp [hst]
    exact h1.undisturbed (x := x) ⟨by simp, by simp, by simp, by simp [hne], by simp,
      by simp, fun z => by simp,
      fun z hz => by simpa using hz⟩
  | @giveUp x q hst =>
    apply Attentive.of_silent (x := x)
    · simp [reading]
    · simpa using hs.peer_not_reading (by rw [hst]; rfl)
  | marks =>
    exact h.undisturbed
      (.update rfl rfl rfl rfl (fun _ => id) rfl (pending_post rfl) fun _ => mem_mail_post _ _ _)
  | @stats x =>
    exact h.undisturbed (x := x) ⟨rfl, rfl, rfl, fun _ => id, rfl, rfl,
      pending_post rfl, fun _ => mem_mail_post _ _ _⟩
  | wake hmail => exact listening_wake h hmail _
  | credit hmail | remark hmail =>
    exact h.undisturbed (.update rfl rfl rfl rfl (fun _ => id) rfl (pending_pop hmail rfl)
      fun _ => mem_mail_popMail hmail (by simp))
  | @swap x q q' rest u e hmail hq =>
    refine listening_swap h hs hd hmail hq u ?_ ?_ ?_ ?_ e <;> rfl
  | wait hmail hst hdelay => exact listening_wait h hs hmail hst hdelay hs'
  | @answer x rest st hmail hst =>
    have hst' : st.heard = true ∧ st.reading = false := by
      rcases hst with ⟨-, rfl⟩ | ⟨-, rfl⟩ <;> decide
    apply Attentive.of_silent (x := x)
    · simpa using hst'.2
    · exact hs'.peer_not_reading (by simpa using hst'.1)
  | @answerLast x rest u e hmail hst =>
    apply Attentive.of_silent (x := x)
    · simp [hst, reading]
    · simpa using hs.not_reading_of_ack hmail
  | @finish x rest u e hmail hst =>
    apply Attentive.of_silent (x := x)
    · exact hs.not_reading_of_released (by simp [released, hst])
    · exact hs.not_reading_of_ack hmail
  | @peerStats x n rest e hmail =>
    exact h.undisturbed (x := x) ⟨rfl, rfl, rfl, fun _ => id, rfl, rfl,
      pending_pop hmail rfl, fun _ => mem_mail_popMail hmail (by simp)⟩

/-! ## Runs -/

/-- The invariant of runs in which `hiccup` and `terminate` do not cross. -/
structure Orderly (s : PipePair) : Prop where
  sound : Sound s
  noConflate : NoConflate s
  attentive : Attentive s

theorem orderly_start (hwm₀ hwm₁ : Int) : Orderly (start hwm₀ hwm₁ false false) where
  sound := sound_start _ _ _ _
  noConflate := noConflate_start _ _
  attentive z := by
    have hst : ∀ z, ((start hwm₀ hwm₁ false false).pipe z).state = .active := by
      intro z
      cases z <;> rfl
    refine ⟨fun he => ?_, fun _ hi => ?_⟩
    · rcases he with e | ⟨-, -, e⟩ <;> rw [hst] at e <;> cases e
    · cases z <;> cases hi

theorem Orderly.outcome (h : Orderly s) (hd : s.deallocated a.side = 0) (hguard : s.NoCrossing a)
    (ho : Outcome s a r s') : Orderly s' :=
  have hsound := h.sound.outcome hd ho
  ⟨hsound, h.noConflate.outcome ho,
    listening_outcome h.attentive h.sound h.noConflate hd hsound hguard ho⟩

section
variable (h : Orderly s) (hst : (s.pipe x).state = .waitingForDelimiter)
include h hst

/-- Reading on, an active reader that waits for the delimiter gets to it. -/
theorem Orderly.reads_delimiter (hin : (s.pipe x).inActive = true) :
    ∃ (msgs : List Msg) (t u : PipePair),
      Exec Step s (msgs.map fun m => (.read x, .message (some m))) t ∧
      Step t (.read x, .message none) u ∧ (u.pipe x).state = .termAckSent := by
  -- induction on the number of messages in front of the reader
  generalize hn : (s.inbox x).readable.length = n
  induction n using Nat.strong_induction_on generalizing s with
  | _ n ih =>
    have hdel := ((h.attentive x).secured (.inl hst)).2
    have hreading : (s.pipe x).state.reading = true := by rw [hst]; rfl
    have hd := h.sound.alive_of_reading hreading
    obtain ⟨o, s', hread, ho⟩ := h.sound.read_outcome hd
    have hstep : Step s (.read x, .message o) s' := ⟨hd, by simp only [step, hread]; rfl⟩
    have hnext := h.outcome (a := .read x) hd trivial ho
    cases ho with
    | idle hidle =>
      cases hidle with
      | noMessage hno hmay =>
        cases hno
        rw [Bool.eq_false_iff] at hmay
        exact absurd (Pipe.mayRead_iff.mpr ⟨hin, hreading⟩) hmay
      | refused hno => cases hno
    | full hno => cases hno
    | sleep hno _ hcred =>
      cases hno
      simpa using hcred _ hdel
    | delimiter hno _ _ _ _ hst' =>
      cases hno
      rw [hst] at hst'
      cases hst'
    | lastDelimiter hno =>
      cases hno
      exact ⟨[], s, _, .nil s, hstep, by simp⟩
    | @take _ skipped m u hmay _ _ _ hc =>
      have hlen : u.readable.length < n := by
        rw [← hn, hc.readable]
        simp
        omega
      obtain ⟨msgs, t, v, hexec, hlast, hfin⟩ := ih _ hlen hnext (by simpa using hst)
        (by simpa using hin) (by simp)
      exact ⟨m :: msgs, t, v, .cons hstep hexec, hlast, hfin⟩

/-- A reader that waits for the delimiter and is passive gets a wake-up, and all commands
on the way to it leave it waiting. -/
theorem Orderly.wakes (hin : (s.pipe x).inActive = false) :
    ∃ s', Step s (.deliver x, .done) s' ∧ Orderly s' ∧
      (s'.pipe x).state = .waitingForDelimiter ∧ s.mail x ≠ [] ∧ s'.mail x = (s.mail x).tail := by
  have hdel := ((h.attentive x).secured (.inl hst)).2
  have hreading : (s.pipe x).state.reading = true := by rw [hst]; rfl
  have hd := h.sound.alive_of_reading hreading
  have hmem : Command.activateRead ∈ s.mail x := by
    rcases (h.attentive x).awake hreading hin with hm | ha
    · exact hm
    · have hnil := readable_of_asleep (h.noConflate.heap _) ha
      rw [inbox, hnil] at hdel
      cases hdel
  have hne : s.mail x ≠ [] := ne_nil_of_mem hmem
  obtain ⟨s', hdeliver, ho⟩ := h.sound.deliver_outcome hne
  have hstep : Step s (.deliver x, .done) s' := ⟨hne, by simp only [step, hdeliver]; rfl⟩
  have hnext := h.outcome (a := .deliver x) hd trivial ho
  have hkeeps : (s'.pipe x).state = .waitingForDelimiter ∧ s'.mail x = (s.mail x).tail := by
    cases ho with
    | wake | credit | swap | remark | peerStats => simp [hst]
    | wait _ hst' | answerLast _ hst' | finish _ hst' =>
      rw [hst] at hst'
      cases hst'
    | answer _ hst' => simp [hst] at hst'
    | idle hidle =>
      cases hidle with
      | noMessage hno | refused hno => cases hno
    | sleep hno | delimiter hno | lastDelimiter hno | full hno => cases hno
  exact ⟨s', hstep, hnext, hkeeps.1, hne, hkeeps.2⟩

end

/-- What is ahead of an end in `waiting_for_delimiter`. -/
structure DelimiterAhead (s : PipePair) (x : Side) : Prop where
  /-- The delimiter is in the queue the end reads from, and flushed. -/
  queued : Msg.initDelimiter ∈ (s.inbox x).readable
  /-- Reading to the end gets to it: after some deliveries to the end, none if it is
  active for reading already, `read` returns messages and then takes the delimiter. -/
  reached : ∃ (n : Nat) (msgs : List Msg) (t u : PipePair),
    ((s.pipe x).inActive = true → n = 0) ∧
    Exec Step s (List.replicate n (.deliver x, .done) ++
      msgs.map fun m => (.read x, .message (some m))) t ∧
    Step t (.read x, .message none) u ∧ (u.pipe x).state = .termAckSent

theorem Orderly.delimiterAhead (h : Orderly s) (hst : (s.pipe x).state = .waitingForDelimiter) :
    DelimiterAhead s x := by
  refine ⟨((h.attentive x).secured (.inl hst)).2, ?_⟩
  -- induction on the number of commands in flight to the end
  generalize hn : (s.mail x).length = n
  induction n using Nat.strong_induction_on generalizing s with
  | _ n ih =>
    cases hin : (s.pipe x).inActive with
    | true =>
      obtain ⟨msgs, t, u, hexec, hlast, hfin⟩ := h.reads_delimiter hst hin
      exact ⟨0, msgs, t, u, fun _ => rfl, by simpa using hexec, hlast, hfin⟩
    | false =>
      obtain ⟨s', hstep, hnext, hst', hne, hmail⟩ := h.wakes hst hin
      have hlen : (s'.mail x).length < n := by
        have := length_pos_iff.mpr hne
        simp only [hmail, length_tail]
        omega
      obtain ⟨k, msgs, t, u, -, hexec, hlast, hfin⟩ := ih _ hlen hnext hst' rfl
      refine ⟨k + 1, msgs, t, u, nofun, ?_, hlast, hfin⟩
      exact .cons hstep hexec

/-- **No lost delimiter**, in runs in which `hiccup` and `terminate` do not cross. -/
theorem delimiter_not_lost {hwm₀ hwm₁ : Int} {tr : List (Action × Reply)}
    (h : Exec (Guarded Step fun s l => l.1.protocol = true ∧ s.NoCrossing l.1)
      (start hwm₀ hwm₁ false false) tr s)
    (hst : (s.pipe x).state = .waitingForDelimiter) : DelimiterAhead s x := by
  refine Orderly.delimiterAhead (h.invariant Orderly ?_ (orderly_start _ _)) hst
  rintro b ⟨act, rep⟩ c hb ⟨hstep, hprotocol, hguard⟩
  have hprudent := prudent_of_protocol (s := b) hprotocol
  exact hb.outcome (hb.sound.alive_of_enabled hstep.1) hguard
    (hb.sound.outcome_of_step hstep hprudent)

instance (s : PipePair) (a : Action) : Decidable (s.NoCrossing a) := by
  rcases a <;> dsimp only [NoCrossing] <;> infer_instance

/-- A `hiccup` that has been processed before `terminate` is called. -/
theorem delimiter_not_lost_after_hiccup :
    ∃ tr s, Exec (Guarded Step fun s l => l.1.protocol = true ∧ s.NoCrossing l.1)
        (start 1 1 false false) tr s ∧
      (s.pipe .first).state = .waitingForDelimiter ∧ DelimiterAhead s .first := by
  refine exists_exec_with step_of_next (fun s => (s.pipe .first).state = .waitingForDelimiter)
    [.hiccup .first, .checkRead .first, .deliver .second, .write .second .init,
      .terminate .second true, .deliver .first, .deliver .first] (by decide +kernel) ?_
  intro _ _ hexec hst
  exact ⟨hst, delimiter_not_lost hexec hst⟩

/-- The second end terminates, the first one calls `hiccup` before it hears of it. The
delimiter goes away with the old queue, and the first end waits for it with nothing
left in its queue or in flight. -/
theorem crossing_hiccup_loses_delimiter :
    ∃ tr s, Exec (Guarded Step fun _ l => l.1.protocol = true) (start 1 1 false false) tr s ∧
      (s.pipe .first).state = .waitingForDelimiter ∧ (s.inbox .first).readable = [] ∧
      (s.inbox .first).ready = [] ∧ (s.inbox .first).unfinished = [] ∧
      s.mail .first = [] ∧ s.mail .second = [] :=
  exists_exec
    [.terminate .second true, .hiccup .first, .deliver .second, .deliver .first] (by decide +kernel)

end PipePair
end LibZmq
