import LibZmq.Socket.Lb

/-!
# The active pipes of a load balancer

A load balancer and its pipes both remember which pipes can be written to: the load balancer
by their place in the array, a pipe by `_out_active`. A pipe that becomes writable again is
reported once, and the load balancer then makes it active.

* `active_pipes_agree`: the two agree, and every step is carried out, as long as a message
  that is begun does not find its pipe full (`Roomy`).
* `active_pipes_disagree`: a watermark that is lowered in the middle of a message makes the
  two disagree, and a later report leads past the end of the array.
-/

namespace LibZmq

open LibZmq.Core PipePair

namespace LbNet

variable {n n' : LbNet} {cs cs' : Channels}

/-- In the middle of a message the current pipe has room, if it can be written to at all. -/
def Roomy (n : LbNet) : Act → Prop
  | .sendpipe _ => n.lb.more = true → n.lb.dropping = false →
      ∀ p, n.lb.pipes.items.get? n.lb.pipes.current = some p →
        (n.channels p).pipe.state = .active → (n.channels p).pipe.checkHwm = true
  | .attach _ | .pipe _ _ | .hasOut => True

/-- The array and the pipes agree about which pipes are active. -/
structure InStep (n : LbNet) : Prop where
  active : n.lb.pipes.active ≤ n.lb.pipes.items.size
  current : n.lb.pipes.current < max 1 n.lb.pipes.active
  /-- An inactive pipe will report when it becomes writable. -/
  inactive : ∀ p ∈ n.lb.pipes.items, n.lb.pipes.active ≤ n.lb.pipes.items.index p →
    (n.channels p).pipe.state = .active → (n.channels p).pipe.outActive = false
  /-- An active pipe never does. -/
  activated : ∀ p a ev cs, n.Enabled (.pipe p a) → n.channels.act p a = .ok (ev, cs) →
    .writeActivated ∈ ev →
      p ∈ n.lb.pipes.items ∧ n.lb.pipes.active ≤ n.lb.pipes.items.index p
  /-- No position is out of range. -/
  inRange : ∀ a, n.Enabled a → n.next a ≠ .error .outOfRange

/-- The place of pipe `p` agrees with its field. -/
def Agrees (l : ActiveArray PipeId) (p : PipeId) (u : Pipe) : Prop :=
  u.state = .active → (u.outActive = true ↔ (p ∈ l.items → l.IsActive p))

/-- Only the place of `p` and its end have changed. -/
theorem agrees_update (h : ∀ q, Agrees l q (cs q).pipe)
    (hmem : ∀ q, q ≠ p → (q ∈ l'.items ↔ q ∈ l.items))
    (hact : ∀ q, q ≠ p → (l'.IsActive q ↔ l.IsActive q)) (hothers : ∀ q, q ≠ p → cs' q = cs q)
    (hself : Agrees l' p (cs' p).pipe) (q : PipeId) : Agrees l' q (cs' q).pipe := by
  rcases eq_or_ne q p with rfl | hne
  · exact hself
  intro hst
  rw [hothers q hne] at hst ⊢
  rw [hmem q hne, hact q hne]
  exact h q hst

theorem agrees_taken (h : Agrees l p u) (ho : Offered u u' true) : Agrees l p u' := by
  obtain ⟨hst, hout, -⟩ := ho.taken.mp rfl
  intro hst'
  rw [ho.outActive hst']
  exact hout ▸ h hst

/-- Pipes that refuse a message and become inactive. -/
theorem agrees_skips (hs : Lb.Skips l cs l' cs') (h : ∀ q, Agrees l q (cs q).pipe) (q : PipeId) :
    Agrees l' q (cs' q).pipe := by
  induction hs generalizing q with
  | refl => exact h q
  | @skip l l₁ _ cs cs₁ _ p hp ho hl _ ih =>
    refine ih (agrees_update h (fun _ _ => hl.mem) (fun r hr => ?_) ho.others ?_) q
    · rw [hl.active, and_iff_left hr]
    · intro hst
      rw [ho.offered.outActive hst]
      have hpassive : ¬ (p ∈ l₁.items → l₁.IsActive p) := fun hact =>
        (hl.active.mp (hact (hl.mem.mpr hp.1.1))).2 rfl
      simp [hpassive]

structure Consistent (n : LbNet) : Prop where
  ranged : Lb.Ranged n.lb.pipes n.channels
  current : n.lb.dropping = false → n.lb.more = true → ∃ p, n.lb.pipes.IsCurrent p
  agrees : ∀ p, Agrees n.lb.pipes p (n.channels p).pipe

theorem agrees_sends (h : n.Consistent) (hs : n.lb.Sends n.channels m st b cs)
    (hroom : n.Roomy (.sendpipe m)) (q : PipeId) : Agrees b.pipes q (cs q).pipe := by
  -- a part that is taken leaves its pipe active
  have htaken : ∀ {l cs₁ cs₂ p}, Lb.Skips n.lb.pipes n.channels l cs₁ → cs₁.Writes cs₂ p m →
      ∀ q, Agrees l q (cs₂ q).pipe := by
    intro l cs₁ cs₂ p hskips hw
    have h₁ := agrees_skips hskips h.agrees
    exact agrees_update h₁ (fun _ _ => .rfl) (fun _ _ => .rfl) hw.others
      (agrees_taken (h₁ p) hw.offered)
  cases hs with
  | drop => exact h.agrees q
  | again _ _ hskips => exact agrees_skips hskips h.agrees q
  | @abandon cs₁ _ p hdrop hmore hp ho hpipe hcalls =>
    -- the pipe has not refused the part because it is full, so it is on its way out
    have hothers : ∀ q, q ≠ p → cs q = n.channels q := fun q hq =>
      (hcalls.others q hq).trans (ho.others q hq)
    refine agrees_update h.agrees (fun _ _ => .rfl) (fun _ _ => .rfl) hothers (fun hst => ?_) q
    rw [hpipe, ho.offered.state] at hst
    exact absurd ⟨hst, (h.agrees p hst).mpr fun _ => hp.1, hroom hmore hdrop p hp.get? hst⟩
      ho.not_writable
  | part _ _ hskips _ hw => exact htaken hskips hw q
  | @last l cs₁ cs₂ _ p _ _ _ hskips hp hw _ hpipe hcalls =>
    refine agrees_update (htaken hskips hw) (fun _ _ => .rfl) (fun _ _ => .rfl) hcalls.others ?_ q
    rw [hpipe]
    exact htaken hskips hw p

theorem Consistent.moves (h : n.Consistent) (hm : n.Moves a n') (hroom : n.Roomy a) :
    n'.Consistent := by
  refine ⟨hm.ranged h.ranged, hm.exists_current h.ranged h.current, ?_⟩
  cases hm with
  | @attach p l hp hg hj =>
    refine agrees_update (p := p) h.agrees (fun q hq => ?_) (fun q hq => ?_) (fun _ _ => rfl)
      fun hst => ?_
    · rw [hj.mem, or_iff_left hq]
    · rw [hj.active, or_iff_left hq]
    · rw [(h.agrees p hst).mpr fun hmem => absurd hmem hp]
      simp [hj.active]
  | @pipe p a _ b cs hen hc hears =>
    have hothers : ∀ q, q ≠ p → cs q = n.channels q := fun q hq => hc.channel_of_ne hq
    cases hears with
    | nothing _ hk =>
      refine agrees_update h.agrees (fun _ _ => .rfl) (fun _ _ => .rfl) hothers fun hst => ?_
      obtain ⟨hst', hout⟩ := hk hst
      rw [hout]
      exact h.agrees p hst'
    | activated hp hout hst hout' _ hl =>
      have hpassive : ¬ n.lb.pipes.IsActive p := by
        intro hact
        have hyes := (h.agrees p hst).mpr fun _ => hact
        rw [hout] at hyes
        cases hyes
      obtain ⟨l₁, hl₁, hj⟩ := ActiveArray.activate_spec h.ranged.placed hp hpassive
      rw [hl] at hl₁
      cases hl₁
      refine agrees_update h.agrees (fun q hq => ?_) (fun q hq => ?_) hothers fun _ => ?_
      · rw [hj.mem, or_iff_left hq]
      · rw [hj.active, or_iff_left hq]
      · rw [hout']
        simp [hj.active]
    | terminated hp _ _ _ hst hf =>
      refine agrees_update h.agrees (fun q hq => ?_) (fun q hq => ?_) hothers fun e => absurd e hst
      · rw [hf.mem, and_iff_left hq]
      · rw [hf.active, and_iff_left hq]
  | sendpipe _ hs => exact agrees_sends h hs hroom
  | midway => exact h.agrees
  | hasOut _ hskips hlast =>
    have h₁ := agrees_skips hskips h.agrees
    rcases hlast with rfl | ⟨p, -, ho⟩
    · exact h₁
    · exact agrees_update h₁ (fun _ _ => .rfl) (fun _ _ => .rfl) ho.others
        (agrees_taken (h₁ p) ho.offered)

theorem consistent_initial (hwm₀ hwm₁ : PipeId → Int) : (initial hwm₀ hwm₁).Consistent where
  ranged := ⟨ActiveArray.placed_empty, nofun⟩
  current _ := nofun
  agrees _ _ := iff_of_true rfl nofun

/-- An active pipe does not report that it has become writable. -/
theorem Consistent.not_full (h : n.Consistent) (hp : n.lb.pipes.IsActive p)
    (hst : (n.channels p).pipe.state = .active) : (n.channels p).pipe.outActive ≠ false := by
  rw [(h.agrees p hst).mpr fun _ => hp]
  simp

theorem Consistent.inStep (h : n.Consistent) : n.InStep where
  active := h.ranged.placed.active
  current := by
    have := h.ranged.placed.current
    omega
  inactive p hp hge hst := by
    have hno : ¬ (p ∈ n.lb.pipes.items → n.lb.pipes.IsActive p) := fun hact =>
      absurd (hact hp).2 (Nat.not_lt.mpr hge)
    simpa [hno] using h.agrees p hst
  activated p a ev cs hen hact hmem := by
    obtain ⟨r, hc, rfl⟩ := Channels.act_called hen.1 hact
    split at hmem
    · rename_i hside
      have hp := (hen.2.1 hside).1
      refine ⟨hp, Nat.le_of_not_lt fun hlt => ?_⟩
      obtain ⟨u, hu⟩ := hc.viewed
      have hnews : (n.channels p).pair.news a.side a = [.writeActivated] := by
        rw [hside]
        rcases news_cases (n.channels p).pair .first a with hnil | ⟨e, he⟩
        · rw [hnil] at hmem
          cases hmem
        · rw [he, List.mem_singleton] at hmem
          rw [he, hmem]
      obtain ⟨hout, hst, -⟩ := hu.activatedOut hnews
      rw [hside] at hout hst
      exact h.not_full ⟨hp, hlt⟩ hst hout
    · cases hmem
  inRange a hen herr := by
    cases a with
    | attach =>
      obtain ⟨n', hok, -⟩ := attach_moves h.ranged hen
      rw [herr] at hok
      cases hok
    | sendpipe =>
      rcases sendpipe_moves h.ranged hen h.current with ⟨⟨f, hfail⟩, -⟩ | ⟨n', hok, -⟩
      · rw [herr] at hfail
        cases hfail
      · rw [herr] at hok
        cases hok
    | hasOut =>
      obtain ⟨n', hok, -⟩ := hasOut_moves h.ranged
      rw [herr] at hok
      cases hok
    | pipe =>
      rcases pipe_moves h.ranged hen with ⟨f, hfail⟩ | ⟨n', hok, -⟩ | ⟨hact, hout, hst, -⟩
      · rw [herr] at hfail
        cases hfail
      · rw [herr] at hok
        cases hok
      · exact h.not_full hact hst hout

/-- **A load balancer and its pipes agree** about which pipes are active, in runs in which
no message finds its pipe full when it is already begun. -/
theorem active_pipes_agree {hwm₀ hwm₁ : PipeId → Int} {tr : List Act}
    (h : Exec (Guarded Step Roomy) (initial hwm₀ hwm₁) tr n) : n.InStep := by
  refine (h.invariant Consistent ?_ (consistent_initial hwm₀ hwm₁)).inStep
  rintro b act c hb ⟨⟨hen, hnext⟩, hroom⟩
  exact hb.moves (moves_of_next hb.ranged hen hb.current hnext) hroom

instance (n : LbNet) : (a : Act) → Decidable (n.Roomy a)
  | .sendpipe _ =>
      match hp : n.lb.pipes.items.get? n.lb.pipes.current with
      | none => .isTrue fun _ _ p e => by rw [hp] at e; cases e
      | some p => decidable_of_iff (n.lb.more = true → n.lb.dropping = false →
          (n.channels p).pipe.state = .active → (n.channels p).pipe.checkHwm = true)
          ⟨fun h hmore hdrop q e => by rw [hp] at e; cases e; exact h hmore hdrop,
            fun h hmore hdrop => h hmore hdrop p hp⟩
  | .attach _ | .pipe _ _ | .hasOut => .isTrue trivial

/-- A pipe is full, is reported again and gets the next message. -/
theorem active_pipes_agree_when_full :
    ∃ tr n, Exec (Guarded Step Roomy) (initial (fun _ => 1) fun _ => 1) tr n ∧
      (n.channels 0).sent = [[part, single 1], [part, single 2]] ∧ n.InStep := by
  refine exists_exec_with guarded_of_attempt
    (fun n => (n.channels 0).sent = [[part, single 1], [part, single 2]])
    [.attach 0, .sendpipe part, .sendpipe (single 1), .sendpipe part, .hasOut,
      .pipe 0 (.read .second), .pipe 0 (.read .second), .pipe 0 (.deliver .first),
      .pipe 0 (.deliver .first), .sendpipe part, .sendpipe (single 2)] (by decide +kernel) ?_
  intro _ _ hexec hsent
  exact ⟨hsent, active_pipes_agree hexec⟩

/-- The watermark is lowered between two parts, so that the pipe is full. It stays active,
though it will report that it is writable. When it does, there is no place for it. -/
theorem active_pipes_disagree :
    ∃ tr n, Exec Step (initial (fun _ => 9) fun _ => 9) tr n ∧
      n.lb.pipes.items.items = [0] ∧ n.lb.pipes.active = 1 ∧
      (n.channels 0).pipe.state = .active ∧ (n.channels 0).pipe.outActive = false ∧
      n.Enabled (.pipe 0 (.deliver .first)) ∧
      n.next (.pipe 0 (.deliver .first)) = .error .outOfRange := by
  refine exists_exec_with step_of_attempt
    (fun n => n.lb.pipes.items.items = [0] ∧ n.lb.pipes.active = 1 ∧
      (n.channels 0).pipe.state = .active ∧ (n.channels 0).pipe.outActive = false ∧
      n.Enabled (.pipe 0 (.deliver .first)) ∧
      failure? (n.next (.pipe 0 (.deliver .first))) = some .outOfRange)
    [.attach 0, .sendpipe (single 1), .sendpipe (single 2), .sendpipe part,
      .pipe 0 (.updateHwms .first 1 1), .sendpipe lastPart,
      -- the peer learns of the new watermark, reads and says so
      .pipe 0 (.deliver .second), .pipe 0 (.read .second)] (by decide +kernel) ?_
  rintro _ n _ ⟨hitems, hactive, hst, hout, hen, hfails⟩
  exact ⟨hitems, hactive, hst, hout, hen, failure?_eq_some.mp hfails⟩

end LbNet
end LibZmq
