import LibZmq.Socket.Lb

/-!
# A load balancer sends messages as a whole

Every message that is passed to `sendpipe` part by part goes to one pipe as a whole, or is
dropped as a whole.

* `load_balancing`: this is so in every run in which the current pipe keeps its place while
  a message is being written (`Undisturbed`).
* `load_balancing_fails`: when another pipe goes away in the middle of a message, the rest
  of it may go to the wrong pipe.
-/

namespace LibZmq

open LibZmq.Core PipePair

namespace LbNet

variable {n n' : LbNet} {cs cs' : Channels} {p : PipeId}

/-- The watermarks of a pipe are not changed any more when it has acknowledged the
termination. -/
def Ordinary (n : LbNet) : Act → Prop
  | .pipe p a => (n.channels p).pair.Prudent a
  | .attach _ | .sendpipe _ | .hasOut => True

/-- What may happen while a message is being written. If its pipe stands at the end of the
active ones, no other active pipe is removed but the one at the beginning. -/
def Undisturbed (n : LbNet) : Act → Prop
  | .pipe p a => n.lb.more = true → n.lb.dropping = false → a = .deliver .first →
      ((n.channels p).pair.mail .first).head? = some .pipeTermAck →
      n.lb.pipes.items.index p < n.lb.pipes.current →
      n.lb.pipes.current + 1 = n.lb.pipes.active → n.lb.pipes.items.index p = 0
  | .attach _ | .sendpipe _ | .hasOut => True

/-- The messages that have gone to pipe `p`. -/
def routedTo (p : PipeId) (routes : List (Option PipeId × List Msg)) : List (List Msg) :=
  (routes.filter fun r => r.1 = some p).map Prod.snd

/-- Messages are sent or dropped as a whole. -/
structure KeepsWhole (n : LbNet) : Prop where
  /-- Every message that was passed on has gone to one pipe as a whole, and was flushed there
  once, or it has gone nowhere. -/
  routed : ∃ routes, routes.map Prod.snd = n.messages ∧ ∀ p,
    (n.channels p).sent = routedTo p routes ∧
      (n.channels p).flushes = (routedTo p routes).length
  /-- Only the current pipe holds parts of a message that is not complete. -/
  unfinished : ∀ p q, ¬ (n.channels p).gone → (n.channels p).pipe.outPipe = some q →
    ((n.channels p).pair.heap q).unfinished = [] ∨
      n.lb.more = true ∧ n.lb.dropping = false ∧
        n.lb.pipes.items.get? n.lb.pipes.current = some p ∧
        ((n.channels p).pair.heap q).unfinished = n.opened
  /-- What a peer reads are these messages. -/
  whole : ∀ p, Whole (n.channels p).pair .first ((n.channels p).log .first)
  /-- No assertion fails, and no position is out of range. -/
  sendpipe : ∀ m, n.Enabled (.sendpipe m) → ∃ n', n.next (.sendpipe m) = .ok n'
  hasOut : ∃ n', n.next .hasOut = .ok n'

/-! ## What stays the same -/

/-- The pair is in order, and its history tells what was written. -/
def Intact (c : Channel) : Prop := c.Healthy ∧ c.Follows .first

/-- Nothing has been written. -/
structure SameLogs (cs cs' : Channels) : Prop where
  unwritten : ∀ q, (cs q).Unwritten (cs' q)
  intact : ∀ q, Intact (cs q) → Intact (cs' q)

theorem SameLogs.refl (cs : Channels) : SameLogs cs cs := ⟨fun _ => .refl _, fun _ => id⟩

theorem SameLogs.trans (h : SameLogs cs cs') (h' : SameLogs cs' cs'') : SameLogs cs cs'' :=
  ⟨fun q => (h.unwritten q).trans (h'.unwritten q), fun q hq => h'.intact q (h.intact q hq)⟩

variable {sent messages : List (List Msg)} {begun opened : List Msg} {m : Msg}

theorem intact_calls (hc : cs.Calls cs' p sent begun k) (h : Intact (cs p)) : Intact (cs' p) :=
  ⟨hc.healthy h.1, hc.follows h.1 h.2⟩

theorem sameLogs_offers (ho : cs.Offers cs' p taken) : SameLogs cs cs' := by
  refine ⟨fun q => ?_, fun q => ?_⟩ <;> rcases eq_or_ne q p with rfl | hne
  · exact ⟨ho.sent, ho.flushes, .inl ho.begun, fun hst => ho.kept.state ▸ hst, ho.kept.gone.mpr⟩
  · rw [ho.others q hne]
    exact .refl _
  · exact intact_calls ho.toCalls
  · rw [ho.others q hne]
    exact id

theorem sameLogs_skips (hs : Lb.Skips l cs l' cs') : SameLogs cs cs' := by
  induction hs with
  | refl => exact .refl _
  | skip _ ho _ _ ih => exact (sameLogs_offers ho).trans ih

/-! ## The invariant -/

/-- The history of the pipes says where the messages have gone. -/
def Routed (cs : Channels) (messages : List (List Msg)) : Prop :=
  ∃ routes, routes.map Prod.snd = messages ∧ ∀ p,
    (cs p).sent = routedTo p routes ∧ (cs p).flushes = (routedTo p routes).length

theorem Routed.unwritten (h : Routed cs messages) (hu : ∀ q, (cs q).Unwritten (cs' q)) :
    Routed cs' messages := by
  obtain ⟨routes, hmap, hroutes⟩ := h
  refine ⟨routes, hmap, fun p => ?_⟩
  rw [(hu p).sent, (hu p).flushes]
  exact hroutes p

attribute [local simp] pass routedTo

theorem Routed.drop (h : Routed cs messages) (msg : List Msg) : Routed cs (messages ++ [msg]) := by
  obtain ⟨routes, hmap, hroutes⟩ := h
  refine ⟨routes ++ [(none, msg)], by simp [hmap], fun p => ?_⟩
  have hsame : routedTo p (routes ++ [(none, msg)]) = routedTo p routes := by
    simp
  rw [hsame]
  exact hroutes p

theorem Routed.send (h : Routed cs messages)
    (hothers : ∀ q, q ≠ p → (cs' q).sent = (cs q).sent ∧ (cs' q).flushes = (cs q).flushes)
    (hsent : (cs' p).sent = (cs p).sent ++ [msg])
    (hflushes : (cs' p).flushes = (cs p).flushes + 1) : Routed cs' (messages ++ [msg]) := by
  obtain ⟨routes, hmap, hroutes⟩ := h
  refine ⟨routes ++ [(some p, msg)], by simp [hmap], fun q => ?_⟩
  rcases eq_or_ne q p with rfl | hne
  · have hmore : routedTo q (routes ++ [(some q, msg)]) = routedTo q routes ++ [msg] := by
      simp
    rw [hmore, hsent, hflushes, (hroutes q).1, (hroutes q).2]
    simp
  have hsame : routedTo q (routes ++ [(some p, msg)]) = routedTo q routes := by
    simp [Ne.symm hne]
  rw [hsame, (hothers q hne).1, (hothers q hne).2]
  exact hroutes q

/-- No pipe holds parts of a message that is not complete, but `c`. -/
def OnlyBegun (cs : Channels) (c : Option PipeId) : Prop :=
  ∀ p, some p ≠ c → ¬ (cs p).gone → (cs p).begun = []

theorem OnlyBegun.unwritten (h : OnlyBegun cs c) (hu : ∀ q, (cs q).Unwritten (cs' q)) :
    OnlyBegun cs' c := by
  intro q hq hg
  rcases (hu q).begun with hbegun | ⟨hnil, -⟩
  · rw [hbegun]
    exact h q hq (mt (hu q).gone hg)
  · exact hnil

/-- The parts `opened` of a message have gone to `c`. -/
structure Carries (cs : Channels) (opened : List Msg) (c : PipeId) : Prop where
  /-- If the rest can be written at all, it will make up a whole message. -/
  active : (cs c).pipe.state = .active →
    (cs c).pipe.outActive = true ∧ (cs c).begun = opened
  begun : (cs c).begun = [] ∨ (cs c).begun = opened

/-- The message that is being written is in the current pipe or is dropped. -/
def Carried (b : Lb) (cs : Channels) (opened : List Msg) : Prop :=
  (b.more = true ∧ b.dropping = false ∧ ∃ c, b.pipes.IsCurrent c ∧ Carries cs opened c ∧
      OnlyBegun cs (some c)) ∨
    ((b.more = false ∨ b.dropping = true) ∧ OnlyBegun cs none)

/-- A pipe goes on to hold the parts that it has got, unless it is on its way out. -/
theorem Carries.unwritten (h : Carries cs opened c) (hu : (cs c).Unwritten (cs' c))
    (hk : KeepsOut (cs c).pipe (cs' c).pipe) : Carries cs' opened c := by
  refine ⟨fun hst => ?_, ?_⟩
  · obtain ⟨hst', hbegun⟩ := hu.active hst
    obtain ⟨hout, hopened⟩ := h.active hst'
    exact ⟨(hk hst).2.trans hout, hbegun.trans hopened⟩
  · rcases hu.begun with hbegun | ⟨hnil, -⟩
    · rw [hbegun]
      exact h.begun
    · exact .inl hnil

structure Atomic (n : LbNet) : Prop where
  ranged : Lb.Ranged n.lb.pipes n.channels
  intact : ∀ p, Intact (n.channels p)
  routed : Routed n.channels n.messages
  between : n.lb.more = false → n.lb.dropping = false → n.opened = []
  carried : Carried n.lb n.channels n.opened

theorem Carried.exists_current (h : Carried b cs opened)
    (hdrop : b.dropping = false) (hmore : b.more = true) : ∃ p, b.pipes.IsCurrent p := by
  rcases h with ⟨-, -, c, hc, -⟩ | ⟨hno | hno, -⟩
  · exact ⟨c, hc⟩
  · exact absurd (hno.symm.trans hmore) (by simp)
  · exact absurd (hno.symm.trans hdrop) (by simp)

/-- Between two messages every pipe is at the end of a message. -/
theorem Carried.onlyBegun (h : Carried b cs opened)
    (hno : b.more = false ∨ b.dropping = true) : OnlyBegun cs none := by
  rcases h with ⟨hmore, hdrop, -⟩ | ⟨-, hb⟩
  · simp [hmore, hdrop] at hno
  · exact hb

/-! ## Steps of the pipes -/

theorem undivided_of_enabled (hen : n.Enabled (.pipe p a)) :
    Undivided .first ((n.channels p).pair, (n.channels p).log .first) a := by
  obtain ⟨-, hfirst, hhic, hnext⟩ := hen
  cases a with
  | write =>
    rintro rfl
    cases (hfirst rfl).2
  | hiccup =>
    rintro rfl
    exact absurd rfl hhic
  | deliver =>
    rintro rfl h
    rw [hnext rfl] at h
    cases h
  | _ => trivial

section pipe
variable (h : n.Atomic) (hen : n.Enabled (.pipe p a)) (hc : n.channels.Called cs p (a, r))
include h hen hc

theorem intact_called (hprudent : (n.channels p).pair.Prudent a) (q : PipeId) : Intact (cs q) := by
  rcases eq_or_ne q p with rfl | hne
  · obtain ⟨hh, hf⟩ := h.intact q
    exact ⟨hc.healthy hh hprudent, hc.follows hh hf hprudent (undivided_of_enabled hen)⟩
  · rw [hc.channel_of_ne hne]
    exact h.intact q

theorem carried_hears (hears : n.lb.Hears n.channels p a b cs)
    (hund : n.Undisturbed (.pipe p a)) : Carried b cs n.opened := by
  have hu := hc.unwritten fun hside => (hen.2.1 hside).2
  have hb := fun {c} (hb : OnlyBegun n.channels c) => hb.unwritten hu
  have hcarries : ∀ c, Carries n.channels n.opened c →
      (c = p → KeepsOut (n.channels p).pipe (cs p).pipe) → Carries cs n.opened c := by
    intro c hcar hk
    refine hcar.unwritten (hu c) ?_
    rcases eq_or_ne c p with rfl | hne
    · exact hk rfl
    · rw [hc.channel_of_ne hne]
      exact .refl _
  cases hears with
  | nothing _ hk =>
    rcases h.carried with ⟨hmore, hdrop, c, hcur, hcar, honly⟩ | ⟨hno, honly⟩
    · exact .inl ⟨hmore, hdrop, c, hcur, hcarries c hcar fun _ => hk, hb honly⟩
    · exact .inr ⟨hno, hb honly⟩
  | activated hp hout hst _ _ hl =>
    rcases h.carried with ⟨hmore, hdrop, c, hcur, hcar, honly⟩ | ⟨hno, honly⟩
    · -- the current pipe is writable and has nothing to report
      have hne : c ≠ p := by
        rintro rfl
        have := (hcar.active hst).1
        rw [hout] at this
        cases this
      obtain ⟨-, -, hcurrent⟩ := ActiveArray.placed_of_activate h.ranged.placed hp hl
      exact .inl ⟨hmore, hdrop, c, hcurrent hcur hne,
        hcarries c hcar fun e => absurd e hne, hb honly⟩
    · exact .inr ⟨hno, hb honly⟩
  | terminated hp ha hhead hg _ hf =>
    rcases h.carried with ⟨hmore, hdrop, c, hcur, hcar, honly⟩ | ⟨hno, honly⟩
    · rcases eq_or_ne c p with rfl | hne
      · -- the rest of the message is dropped
        refine .inr ⟨.inr (if_pos ⟨hcur.2, hmore⟩), fun q _ hq => ?_⟩
        refine hb honly q ?_ hq
        rintro ⟨⟩
        exact hq hg
      have hidx : n.lb.pipes.items.index p ≠ n.lb.pipes.current := fun e =>
        hne (IndexedArray.eq_of_index_eq hcur.1.1 hp (hcur.2.trans e.symm))
      refine .inl ⟨hmore, ?_, c, hf.current hcur hne fun hact hlast => ?_,
        hcarries c hcar fun e => absurd e hne, hb honly⟩
      · simp only [hidx]
        exact hdrop
      · have hlt := hact.2
        exact hund hmore hdrop ha hhead (by omega) hlast
    · refine .inr ⟨hno.imp_right fun hdrop => ?_, hb honly⟩
      split
      · rfl
      · exact hdrop

end pipe

/-! ## Sending -/

/-- What was written so far is what the user has passed on. -/
theorem Atomic.begun_eq (h : n.Atomic) (hdrop : n.lb.dropping = false)
    (hsame : n.lb.more = true → l = n.lb.pipes ∧ cs = n.channels)
    (hs : Lb.Skips n.lb.pipes n.channels l cs) (hp : l.IsCurrent p)
    (hst : (cs p).pipe.state = .active) : (cs p).begun = n.opened ∧ OnlyBegun cs (some p) := by
  have hlogs := sameLogs_skips hs
  rcases h.carried with ⟨hmore, -, c, hcur, hcar, honly⟩ | ⟨hno, honly⟩
  · obtain ⟨rfl, rfl⟩ := hsame hmore
    obtain rfl := hcur.unique hp
    exact ⟨(hcar.active hst).2, honly⟩
  have hmore : n.lb.more = false := hno.resolve_right (by simp [hdrop])
  have honly' := honly.unwritten hlogs.unwritten
  refine ⟨?_, fun q _ hg => honly' q (by simp) hg⟩
  rw [h.between hmore hdrop]
  exact honly' p (by simp) ((hs.ranged h.ranged).alive hp.1.1)

/-- A part that is dropped belongs to a message that goes nowhere. -/
theorem Routed.pass_drop (h : Routed cs n.messages)
    (hst : st ≠ .again) : Routed cs (n.pass m st).messages := by
  have hdrop := h.drop (n.opened ++ [m])
  cases st with
  | again => exact absurd rfl hst
  | _ => cases hm : m.hasMore <;> simpa [hm]

theorem pass_opened (hst : st ≠ .again) (hm : m.hasMore = false) : (n.pass m st).opened = [] := by
  cases st with
  | again => exact absurd rfl hst
  | _ => simp [hm]

/-- After a refused part nothing of its message is left. -/
theorem onlyBegun_abandon (h : n.Atomic) (hdrop : n.lb.dropping = false)
    (hmore : n.lb.more = true) (hp : n.lb.pipes.IsCurrent p) (ho : n.channels.Offers cs₁ p false)
    (hc : cs₁.Calls cs p (cs₁ p).sent [] (cs₁ p).flushes) : OnlyBegun cs none := by
  intro q _ hg
  rcases eq_or_ne q p with rfl | hne
  · exact hc.begun
  rw [hc.others q hne, ho.others q hne] at hg ⊢
  rcases h.carried with ⟨-, -, c, hcur, -, honly⟩ | ⟨hno, -⟩
  · obtain rfl := hcur.unique hp
    exact honly q (by simpa using hne) hg
  · simp [hmore, hdrop] at hno

theorem all_intact_calls (hc : cs.Calls cs' p sent begun k) (h : ∀ q, Intact (cs q)) (q : PipeId) :
    Intact (cs' q) := by
  rcases eq_or_ne q p with rfl | hne
  · exact intact_calls hc (h q)
  · rw [hc.others q hne]
    exact h q

theorem Routed.calls (h : Routed cs messages)
    (hc : cs.Calls cs' p (cs p).sent begun (cs p).flushes) : Routed cs' messages := by
  obtain ⟨routes, hmap, hroutes⟩ := h
  refine ⟨routes, hmap, fun q => ?_⟩
  rcases eq_or_ne q p with rfl | hne
  · rw [hc.sent, hc.flushes]
    exact hroutes q
  · rw [hc.others q hne]
    exact hroutes q

theorem OnlyBegun.calls (h : OnlyBegun cs (some p)) (hc : cs.Calls cs' p sent begun k) :
    OnlyBegun cs' (some p) := by
  intro q hq hg
  have hne : q ≠ p := by simpa using hq
  rw [hc.others q hne] at hg ⊢
  exact h q hq hg

theorem OnlyBegun.none (h : OnlyBegun cs (some p)) (hp : (cs p).begun = []) :
    OnlyBegun cs none := by
  intro q _ hg
  rcases eq_or_ne q p with rfl | hne
  · exact hp
  · exact h q (by simpa using hne) hg

/-- What a call of `sendpipe` leaves behind. -/
def Passed (n : LbNet) (m : Msg) (st : SendStatus) (b : Lb) (cs : Channels) : Prop :=
  (∀ p, Intact (cs p)) ∧ Routed cs (n.pass m st).messages ∧
    (b.more = false → b.dropping = false → (n.pass m st).opened = []) ∧
    Carried b cs (n.pass m st).opened

section
variable (h : n.Atomic) (hdrop : n.lb.dropping = false)
  (hsame : n.lb.more = true → l = n.lb.pipes ∧ cs₁ = n.channels)
  (hskips : Lb.Skips n.lb.pipes n.channels l cs₁) (hp : l.IsCurrent p)
include h hdrop hsame hskips hp

theorem Atomic.part (hw : cs₁.Writes cs p m) (hm : m.hasMore = true) :
    n.Passed m (.done (some p)) { n.lb with pipes := l, more := true } cs := by
  have hlogs := sameLogs_skips hskips
  have hi := fun q => hlogs.intact q (h.intact q)
  have hcalls := hw.toCalls
  simp only [hm] at hcalls
  obtain ⟨hbegun, honly⟩ := h.begun_eq hdrop hsame hskips hp hw.writable.1
  have hopened : (n.pass m (.done (some p))).opened = n.opened ++ [m] := by simp [hm]
  refine ⟨all_intact_calls hcalls hi, ?_, nofun, .inl ⟨rfl, hdrop, p, hp, ?_, honly.calls hcalls⟩⟩
  · simpa [hm] using (h.routed.unwritten hlogs.unwritten).calls hcalls
  · rw [hopened, ← hbegun]
    exact ⟨fun _ => ⟨hw.outActive, hcalls.begun⟩, .inr hcalls.begun⟩

theorem Atomic.last (hw : cs₁.Writes cs₂ p m) (hm : m.hasMore = false)
    (hflush : cs₂.Calls cs p (cs₂ p).sent (cs₂ p).begun ((cs₂ p).flushes + 1)) :
    n.Passed m (.done (some p))
      { n.lb with pipes := { l with current := k }, more := false } cs := by
  have hlogs := sameLogs_skips hskips
  have hi := fun q => hlogs.intact q (h.intact q)
  have hcalls := hw.toCalls
  simp only [hm, Bool.false_eq_true, if_false] at hcalls
  obtain ⟨hbegun, honly⟩ := h.begun_eq hdrop hsame hskips hp hw.writable.1
  refine ⟨all_intact_calls hflush (all_intact_calls hcalls hi), ?_,
    fun _ _ => pass_opened (by simp) hm,
    .inr ⟨.inl rfl, ((honly.calls hcalls).calls hflush).none ?_⟩⟩
  · have hsend : Routed cs (n.messages ++ [n.opened ++ [m]]) :=
      (h.routed.unwritten hlogs.unwritten).send
      (fun q hq => by rw [hflush.others q hq, hcalls.others q hq]; exact ⟨rfl, rfl⟩)
      (by rw [hflush.sent, hcalls.sent, hbegun]) (by rw [hflush.flushes, hcalls.flushes])
    simpa [hm] using hsend
  · rw [hflush.begun, hcalls.begun]

end

theorem Atomic.sends (h : n.Atomic) (hs : n.lb.Sends n.channels m st b cs) :
    n.Passed m st b cs := by
  cases hs with
  | drop hdrop =>
    refine ⟨h.intact, h.routed.pass_drop (by simp), fun hmore _ => pass_opened (by simp) hmore,
      .inr ⟨?_, h.carried.onlyBegun (.inr hdrop)⟩⟩
    exact (Bool.eq_false_or_eq_true m.hasMore).symm
  | again hdrop hmore hskips =>
    have hlogs := sameLogs_skips hskips
    refine ⟨fun p => hlogs.intact p (h.intact p), h.routed.unwritten hlogs.unwritten,
      fun _ _ => h.between hmore hdrop, .inr ⟨.inl hmore, ?_⟩⟩
    exact (h.carried.onlyBegun (.inl hmore)).unwritten hlogs.unwritten
  | abandon hdrop hmore hp ho _ hcalls =>
    have hlogs := sameLogs_offers ho
    exact ⟨all_intact_calls hcalls fun q => hlogs.intact q (h.intact q),
      ((h.routed.unwritten hlogs.unwritten).calls hcalls).pass_drop (by simp),
      fun _ hm => pass_opened (by simp) hm,
      .inr ⟨.inl rfl, onlyBegun_abandon h hdrop hmore hp ho hcalls⟩⟩
  | part hdrop hsame hskips hp hw hm => exact h.part hdrop hsame hskips hp hw hm
  | last hdrop hsame hskips hp hw hm _ hflush => exact h.last hdrop hsame hskips hp hw hm hflush

/-! ## Runs -/

theorem Atomic.moves (h : n.Atomic) (hm : n.Moves a n') (hord : n.Ordinary a)
    (hund : n.Undisturbed a) : n'.Atomic := by
  have hr := hm.ranged h.ranged
  cases hm with
  | attach _ _ hj =>
    refine { h with ranged := hr, carried := h.carried.imp_left ?_ }
    rintro ⟨hmore, hdrop, c, hcur, hrest⟩
    exact ⟨hmore, hdrop, c, hj.current hcur, hrest⟩
  | pipe hen hc hears =>
    have hrouted := h.routed.unwritten (hc.unwritten fun hside => (hen.2.1 hside).2)
    refine ⟨hr, intact_called h hen hc hord, hrouted, ?_, carried_hears h hen hc hears hund⟩
    cases hears with
    | nothing | activated => exact h.between
    | terminated =>
      intro hmore hdrop
      split at hdrop
      · cases hdrop
      · exact h.between hmore hdrop
  | sendpipe _ hs =>
    obtain ⟨hf, hrouted, hbetween, hcarried⟩ := h.sends hs
    exact ⟨hr, hf, hrouted, hbetween, hcarried⟩
  | midway => exact h
  | @hasOut l cs₁ cs hmore hskips hlast =>
    have hlogs : SameLogs n.channels cs := by
      have hlogs := sameLogs_skips hskips
      rcases hlast with rfl | ⟨p, -, ho⟩
      · exact hlogs
      · exact hlogs.trans (sameLogs_offers ho)
    exact ⟨hr, fun p => hlogs.intact p (h.intact p), h.routed.unwritten hlogs.unwritten, h.between,
      .inr ⟨.inl hmore, (h.carried.onlyBegun (.inl hmore)).unwritten hlogs.unwritten⟩⟩

/-- The load balancer does not notice that pipes are read. -/
theorem Atomic.quiet (h : Atomic ⟨b, cs, messages, opened⟩) (hq : ∀ q, (cs q).Quiet (cs' q)) :
    Atomic ⟨b, cs', messages, opened⟩ where
  ranged := ⟨h.ranged.placed, fun hp hg => h.ranged.alive hp ((hq _).alive hg)⟩
  intact p := ⟨(hq p).healthy (h.intact p).1, (hq p).told (h.intact p).1 (h.intact p).2⟩
  routed := h.routed.unwritten fun q => (hq q).toUnwritten
  between := h.between
  carried := by
    have hb := fun {c} (hb : OnlyBegun cs c) => hb.unwritten fun q => (hq q).toUnwritten
    rcases h.carried with ⟨hmore, hdrop, c, hcur, hcar, honly⟩ | ⟨hno, honly⟩
    · exact .inl ⟨hmore, hdrop, c, hcur, hcar.unwritten (hq c).toUnwritten (hq c).keepsOut,
        hb honly⟩
    · exact .inr ⟨hno, hb honly⟩

theorem atomic_initial (hwm₀ hwm₁ : PipeId → Int) : (initial hwm₀ hwm₁).Atomic where
  ranged := ⟨ActiveArray.placed_empty, nofun⟩
  intact _ := ⟨Channel.healthy_start .., Channel.follows_start ..⟩
  routed := ⟨[], rfl, fun _ => ⟨rfl, rfl⟩⟩
  between _ _ := rfl
  carried := .inr ⟨.inl rfl, fun _ _ _ => rfl⟩

theorem Atomic.keepsWhole (h : n.Atomic) : n.KeepsWhole where
  routed := h.routed
  unfinished p q hg hq := by
    rw [((h.intact p).2.lane q hq).unfinished]
    rcases h.carried with ⟨hmore, hdrop, c, hcur, hcar, honly⟩ | ⟨-, honly⟩
    · rcases eq_or_ne p c with rfl | hne
      · exact hcar.begun.imp_right fun hb => ⟨hmore, hdrop, hcur.get?, hb⟩
      · exact .inl (honly p (by simpa using hne) hg)
    · exact .inl (honly p (by simp) hg)
  whole p := (h.intact p).2.whole (h.intact p).1.sound
  sendpipe m hen := by
    rcases sendpipe_moves h.ranged hen h.carried.exists_current with ⟨-, hsick⟩ | ⟨n', hn', -⟩
    · exact absurd (fun p => (h.intact p).1) hsick
    · exact ⟨n', hn'⟩
  hasOut := by
    obtain ⟨n', hn', -⟩ := hasOut_moves h.ranged
    exact ⟨n', hn'⟩

/-- **Load balancing keeps messages whole**, in runs in which the current pipe keeps its
place while a message is being written. -/
theorem load_balancing {hwm₀ hwm₁ : PipeId → Int} {tr : List Act}
    (h : Exec (Guarded (Guarded Step Ordinary) Undisturbed) (initial hwm₀ hwm₁) tr n) :
    n.KeepsWhole := by
  refine (h.invariant Atomic ?_ (atomic_initial hwm₀ hwm₁)).keepsWhole
  rintro b act c hb ⟨⟨⟨hen, hnext⟩, hord⟩, hund⟩
  exact hb.moves (moves_of_next hb.ranged hen hb.carried.exists_current hnext) hord hund

instance (n : LbNet) (a : Act) : Decidable (n.Ordinary a) := by
  rcases a <;> dsimp only [Ordinary] <;> infer_instance

instance (n : LbNet) (a : Act) : Decidable (n.Undisturbed a) := by
  rcases a <;> dsimp only [Undisturbed] <;> infer_instance

/-- The peer of pipe `0` terminates in the middle of a message, and the message is dropped.
The next one goes to pipe `1`. -/
theorem load_balancing_peer_terminates :
    ∃ tr n, Exec (Guarded (Guarded Step Ordinary) Undisturbed) (initial (fun _ => 9) fun _ => 9)
        tr n ∧
      n.messages = [[part, lastPart], [part, single 3]] ∧ (n.channels 0).sent = [] ∧
        (n.channels 1).sent = [[part, single 3]] ∧ n.KeepsWhole := by
  have hrun : ∃ tr n, Exec (Guarded Step fun n a => n.Ordinary a ∧ n.Undisturbed a)
        (initial (fun _ => 9) fun _ => 9) tr n ∧
      n.messages = [[part, lastPart], [part, single 3]] ∧ (n.channels 0).sent = [] ∧
        (n.channels 1).sent = [[part, single 3]] :=
    exists_exec_of_replay guarded_of_attempt
      [.attach 0, .attach 1, .hasOut, .sendpipe part, .pipe 0 (.terminate .second true),
        .pipe 0 (.deliver .first), .sendpipe lastPart, .sendpipe part, .sendpipe (single 3)]
      (by decide +kernel)
  obtain ⟨tr, n, hexec, hmsgs, h₀, h₁⟩ := hrun
  have hexec : Exec (Guarded (Guarded Step Ordinary) Undisturbed) _ tr n :=
    hexec.mono fun _ _ _ ⟨hstep, hord, hund⟩ => ⟨⟨hstep, hord⟩, hund⟩
  exact ⟨tr, n, hexec, hmsgs, h₀, h₁, load_balancing hexec⟩

/-- The array is `[0, 1, 2]`, and a message to pipe `2` is being written when pipe `1` goes
away. Pipe `2` takes its place, the cursor goes back to the beginning, and the last part
goes to pipe `0`. The next message is written behind the part that is left in pipe `2`. -/
theorem load_balancing_fails :
    ∃ tr n, Exec (Guarded Step Ordinary) (initial (fun _ => 9) fun _ => 9) tr n ∧
      n.messages = [[single 1], [single 4], [part, lastPart], [single 3]] ∧
      (n.channels 0).sent = [[single 1], [lastPart]] ∧
      (n.channels 2).sent = [[part, single 3]] ∧ ¬ Routed n.channels n.messages := by
  refine exists_exec_with guarded_of_attempt
    (fun n => n.messages = [[single 1], [single 4], [part, lastPart], [single 3]] ∧
      (n.channels 0).sent = [[single 1], [lastPart]] ∧ (n.channels 2).sent = [[part, single 3]])
    [.attach 0, .attach 1, .attach 2, .sendpipe (single 1), .sendpipe (single 4), .sendpipe part,
      -- the end of pipe `1` and its peer agree to terminate
      .pipe 1 (.setNodelay .second), .pipe 1 (.terminate .first false),
      .pipe 1 (.deliver .second), .pipe 1 (.deliver .first),
      .sendpipe lastPart, .sendpipe (single 3)] (by decide +kernel) ?_
  rintro _ n _ ⟨hmsgs, h₀, h₂⟩
  refine ⟨hmsgs, h₀, h₂, ?_⟩
  rintro ⟨routes, hmap, hroutes⟩
  -- no message consists of the last part alone
  have hmem : [lastPart] ∈ routedTo 0 routes := by
    rw [← (hroutes 0).1, h₀]
    exact .tail _ (.head _)
  have hmsg : [lastPart] ∈ n.messages := by
    obtain ⟨r, hr, he⟩ := List.mem_map.mp hmem
    rw [← hmap, ← he]
    exact List.mem_map_of_mem (List.mem_filter.mp hr).1
  rw [hmsgs] at hmsg
  revert hmsg
  decide

end LbNet
end LibZmq
