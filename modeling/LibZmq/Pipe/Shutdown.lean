import LibZmq.Pipe.Progress

/-!
# Shutdown of a pipe pair

Results about whole runs of a pair, from `pipepair` to the deallocation of both
ends.

* `shutdown_protocol`: whatever the two owners do and in whatever order commands
  arrive, no assertion of `pipe_t` fails, each end is deallocated at most once,
  and in the end each queue has been deleted exactly once.
* `commands_reach_living_ends`: no command is sent to a deallocated end, provided
  the two calls that send without looking at the state, `send_hwms_to_peer` and
  `send_stats_to_peer`, are not made after the acknowledgement. Without this
  condition the property fails (`command_to_dead_end`).
-/

namespace LibZmq

namespace PipePair

open LibZmq.Core

variable {s : PipePair} {a : Action} {tr : List (Action × Reply)} {x : Side}

/-- The calls that take part in the shutdown protocol: all but those that change
watermarks or ask for statistics. -/
def Action.protocol : Action → Bool
  | .updateHwms _ _ _ | .sendStatsToPeer _ => false
  | _ => true

theorem prudent_of_protocol (h : a.protocol = true) : s.Prudent a := by
  cases a <;> trivial

/-- Runs in which watermarks and statistics are only sent before the acknowledgement
keep the invariant. -/
theorem sound_of_exec
    (h : Exec (Guarded Step fun s l => s.Prudent l.1) (start hwm₀ hwm₁ conflate₀ conflate₁) tr s) :
    Sound s := by
  refine h.invariant Sound ?_ (sound_start _ _ _ _)
  rintro a ⟨act, r⟩ b hsound ⟨hstep, hprudent⟩
  exact hsound.step hstep hprudent

/-- What the shutdown protocol guarantees in a state. -/
structure ShutdownSafe (s : PipePair) : Prop where
  /-- Nothing that can happen next runs into a fault: no assertion fails (that of
  `process_delimiter` included), no null pointer, deleted queue or deleted end is
  used. -/
  no_fault : ∀ a : Action, a.protocol = true → s.Enabled a → ∃ r s', s.step a = .ok (r, s')
  /-- `process_pipe_term` finds one of the three states it asserts. -/
  term : ∀ x rest, s.mail x = .pipeTerm :: rest →
    (s.pipe x).state = .active ∨ (s.pipe x).state = .delimiterReceived ∨
      (s.pipe x).state = .termReqSent1
  /-- `process_pipe_term_ack` finds one of the three states it asserts. -/
  ack : ∀ x rest, s.mail x = .pipeTermAck :: rest →
    (s.pipe x).state = .termReqSent1 ∨ (s.pipe x).state = .termAckSent ∨
      (s.pipe x).state = .termReqSent2
  /-- `process_hiccup` finds a queue. -/
  hiccup : ∀ x q rest, s.mail x = .hiccup q :: rest → (s.pipe x).outPipe ≠ none
  /-- Each end is deallocated at most once. -/
  once : ∀ x, s.deallocated x ≤ 1
  /-- In the end every queue has been deleted exactly once. -/
  queues : (∀ x, s.deallocated x = 1) → ∀ q < s.created, s.deleted q = 1

theorem Sound.shutdownSafe (h : Sound s) : ShutdownSafe s where
  no_fault a ha he := by
    obtain ⟨r, s', hstep, -⟩ := h.step_outcome he (prudent_of_protocol ha)
    exact ⟨r, s', hstep⟩
  term x rest hmail := by
    have hlink := h.handshake x
    rw [hmail] at hlink
    have hheard := hlink.not_heard_of_term
    cases hst : (s.pipe x).state <;> simp_all [PipeState.heard]
  ack x rest hmail := by
    have hlink := h.handshake x
    rw [hmail] at hlink
    have hclosing := h.closing_of_ack (hlink.alive_of_mem List.mem_cons_self) hmail
    cases hst : (s.pipe x).state <;> simp_all [PipeState.closing]
  hiccup x q rest hmail := by
    obtain ⟨q', hq'⟩ := h.outPipe_of_hiccup hmail
    simp [hq']
  once x := (h.handshake x).deallocated_le_one
  queues hdead q hq := by
    refine h.ownership.allocated.gone hq fun x => ?_
    -- both ends have let go, and no reader is left
    have hnone : (s.pipe x.peer).outPipe = none :=
      (h.ownership.outPipe_none x.peer).mpr (by simp [released, hdead])
    simp [inbound, hnone, hdead]

/-- **Pipe-pair shutdown.**  Every interleaving of the calls of the two owners with
the deliveries of commands leads to a state that is safe in the sense of
`ShutdownSafe`. -/
theorem shutdown_protocol {hwm₀ hwm₁ : Int} {conflate₀ conflate₁ : Bool}
    (h : Exec (Guarded Step fun _ l => l.1.protocol = true)
      (start hwm₀ hwm₁ conflate₀ conflate₁) tr s) : ShutdownSafe s := by
  refine Sound.shutdownSafe (sound_of_exec (h.mono ?_))
  rintro a l b ⟨hstep, hprotocol⟩
  exact ⟨hstep, prudent_of_protocol hprotocol⟩

/-- A run to the end of both pipe ends, with a `hiccup` that crosses a `terminate`. -/
theorem shutdown_protocol_to_the_end :
    ∃ tr s, Exec (Guarded Step fun _ l => l.1.protocol = true) (start 1 1 false false) tr s ∧
      (∀ x, s.deallocated x = 1) ∧ s.created = 3 ∧ ShutdownSafe s := by
  refine exists_exec_with step_of_next (fun s => (∀ x, s.deallocated x = 1) ∧ s.created = 3)
    [.hiccup .first, .write .second .init, .flush .second, .terminate .second true,
      .deliver .first, .deliver .second, .terminate .first false, .deliver .second,
      .deliver .first] (by decide +kernel) ?_
  rintro _ _ hexec ⟨hdead, hcreated⟩
  exact ⟨hdead, hcreated, shutdown_protocol hexec⟩

/-! ## Commands and the ends they are for -/

/-- Commands go to ends that are there. -/
structure EndsAlive (s : PipePair) : Prop where
  /-- No call sends a command to a deallocated peer, and no command is delivered to a
  deallocated end; in the model both are faults. -/
  no_fault : ∀ a : Action, s.Prudent a → s.Enabled a → ∃ r s', s.step a = .ok (r, s')
  /-- An end is not deallocated while a command to it is in flight. -/
  no_mail : ∀ x, s.deallocated x ≠ 0 → s.mail x = []

/-- **No command to a dead pipe**, in runs in which `send_hwms_to_peer` and
`send_stats_to_peer` are called only by ends that have not yet acknowledged. -/
theorem commands_reach_living_ends {hwm₀ hwm₁ : Int} {conflate₀ conflate₁ : Bool}
    (h : Exec (Guarded Step fun s l => s.Prudent l.1) (start hwm₀ hwm₁ conflate₀ conflate₁) tr s) :
    EndsAlive s := by
  have hsound := sound_of_exec h
  refine ⟨fun a hp he => ?_, fun x hd => (hsound.handshake x).dead_empty hd⟩
  obtain ⟨r, s', hstep, -⟩ := hsound.step_outcome he hp
  exact ⟨r, s', hstep⟩

instance (s : PipePair) (a : Action) : Decidable (s.Prudent a) := by
  rcases a <;> dsimp only [Prudent] <;> infer_instance

/-- A watermark change and a statistics query in the middle of a shutdown. -/
theorem commands_reach_living_ends_in_shutdown :
    ∃ tr s, Exec (Guarded Step fun s l => s.Prudent l.1) (start 1 1 false false) tr s ∧
      s.deallocated .second = 1 ∧ EndsAlive s := by
  refine exists_exec_with step_of_next (fun s => s.deallocated .second = 1)
    [.setNodelay .first, .terminate .second true, .updateHwms .first 2 2,
      .sendStatsToPeer .second, .deliver .first, .deliver .first, .deliver .second,
      .deliver .second] (by decide +kernel) ?_
  intro _ _ hexec hdead
  exact ⟨hdead, commands_reach_living_ends hexec⟩

/-- The first end has acknowledged and still changes its watermarks. If the second end
is already gone, the command goes to a deallocated end; if it is not, it is deallocated
by the acknowledgement while the command is in flight. -/
theorem command_to_dead_end :
    (∃ tr s, Exec Step (start 1 1 false false) tr s ∧ s.Enabled (.updateHwms .first 2 2) ∧
        s.step (.updateHwms .first 2 2) = .error .deadPeer) ∧
      ∃ tr s, Exec Step (start 1 1 false false) tr s ∧ s.deallocated .second = 1 ∧
        s.mail .second = [.pipeHwm 2 2] := by
  have hnext : ∀ s a l t, next (fun _ _ => True) s a = some (l, t) → Step s l t :=
    fun _ _ _ _ h => (step_of_next _ _ _ _ h).1
  obtain ⟨⟨tr, s⟩, hreplay, henabled, hfault⟩ : ∃ p,
      replay (next fun _ _ => True) (start 1 1 false false)
        [.setNodelay .first, .terminate .second true, .deliver .first, .deliver .second] = some p ∧
      p.2.Enabled (.updateHwms .first 2 2) ∧
      p.2.step (.updateHwms .first 2 2) = .error .deadPeer :=
    ⟨_, rfl, rfl, rfl⟩
  refine ⟨⟨tr, s, exec_of_replay hnext _ hreplay, henabled, hfault⟩, ?_⟩
  exact exists_exec_of_replay hnext
    [.setNodelay .first, .terminate .second true, .deliver .first, .updateHwms .first 2 2,
      .deliver .second] (by decide +kernel)

/-- **Where the shutdown comes to rest.**  If it has begun and no command is in flight, it is over,
or one end has still to find the delimiter. -/
theorem shutdown_at_rest {hwm₀ hwm₁ : Int} {conflate₀ conflate₁ : Bool}
    (h : Exec (Guarded Step fun s l => s.Prudent l.1) (start hwm₀ hwm₁ conflate₀ conflate₁) tr s)
    (hmail : ∀ x, s.mail x = [])
    (hst : (s.pipe x).state ≠ .active ∧ (s.pipe x).state ≠ .delimiterReceived) :
    s.deallocated x = 1 ∧ s.deallocated x.peer = 1 ∨
      s.deallocated x = 0 ∧ s.deallocated x.peer = 0 ∧
        ((s.pipe x).state = .waitingForDelimiter ∧ (s.pipe x.peer).state = .termReqSent1 ∨
          (s.pipe x).state = .termReqSent1 ∧ (s.pipe x.peer).state = .waitingForDelimiter) := by
  have hlink := (sound_of_exec h).handshake
  obtain ⟨hterms, hacks, -, -, -, hdead⟩ := hmail x ▸ hlink x
  obtain ⟨hterms', hacks', -, -, -, hdead'⟩ := hmail x.peer ▸ hlink.out x
  -- nothing is in flight, so each end has heard what the other one has sent
  rw [List.count_nil, Nat.zero_add] at hterms hterms' hacks hacks'
  cases e : (s.pipe x).state <;> cases e' : (s.pipe x.peer).state <;>
    simp [e, e', PipeState.heard, PipeState.asked] at hst hterms hterms' <;>
    simp [e, e', released, PipeState.acked, PipeState.closing] at hacks hacks' hdead hdead' ⊢ <;>
    grind [Bool.toNat_eq_one]

/-- The last acknowledgement has arrived. -/
theorem shutdown_at_rest_over : ∃ tr s,
    Exec (Guarded Step fun s l => s.Prudent l.1) (start 1 1 false false) tr s ∧
      s.deallocated .first = 1 := by
  refine exists_exec_with step_of_next
    (fun s => (∀ x, s.mail x = []) ∧ (s.pipe .first).state = .termAckSent)
    [.setNodelay .first, .terminate .second true, .deliver .first, .deliver .second,
      .deliver .first] (by decide +kernel) ?_
  rintro _ s hexec ⟨hmail, hst⟩
  have := shutdown_at_rest hexec hmail (x := .first) (by simp [hst])
  grind

end PipePair
end LibZmq
