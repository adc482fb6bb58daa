import LibZmq.Pipe.Accounting

/-!
# Watermarks

The writer stops when `_hwm` messages are outstanding; the reader reports whenever its
count is a multiple of `_lwm`, which is half of the writer's `_hwm`.

* `fixed_watermarks`: with watermarks that do not change, the queue is bounded, messages
  are accepted as a whole, and a writer is never left behind by a reader that has read
  everything.
* `adjusted_watermarks`: the same for watermarks that `setsockopt` changes on the way, if
  the reader's next report comes in time for the new ones (`InTime`).
* `adjusted_watermarks_stall`: otherwise the writer can be stuck for good.
-/

namespace LibZmq

namespace PipePair

open LibZmq.Core UPipe LibZmq.PipePair.Action CInt Function

variable {s s' : PipePair} {w x : Side}

/-! ## The two marks -/

/-- A high watermark that `compute_lwm` can handle. -/
def Proper (hwm : Int) : Prop := 0 < hwm ∧ hwm < CInt.max

instance (hwm : Int) : Decidable (Proper hwm) := inferInstanceAs (Decidable (_ ∧ _))

namespace Proper

theorem toNat_le (h : Proper hwm) : hwm.toNat ≤ max.toNat := by
  have := h.2
  omega

theorem computeLwm (h : Proper hwm) :
    0 < Pipe.computeLwm hwm ∧ (Pipe.computeLwm hwm).toNat ≤ hwm.toNat := by
  have h1 := h.1
  have h2 : hwm < 2147483647 := h.2
  have hfits : Fits (hwm + 1) := ⟨by omega, by omega⟩
  rw [Pipe.computeLwm, wrap_of_fits hfits, Int.tdiv_eq_ediv_of_nonneg (by omega)]
  omega

/-- The writer stops at `hwm`, as long as its counters are not too far apart. -/
theorem full_iff (h : Proper hwm) (hn : n ≤ max.toNat) : Full hwm n ↔ hwm.toNat ≤ n := by
  have h1 := h.1
  have hle := h.toNat_le
  have hmax : max.toNat < 2 ^ 64 := by decide
  -- neither side of the comparison of `check_hwm` is large enough to wrap
  rw [Full, Nat.mod_eq_of_lt (by omega), Nat.mod_eq_of_lt (by omega)]
  exact and_iff_right h1

end Proper

/-- How many messages a reader that has read `n` has still to read until it reports. The
count is reported when it is a multiple of `lwm` and when it wraps around. -/
def untilReport (lwm : Int) (n : UInt64) : ℕ :=
  min (lwm.toNat - n.toNat % lwm.toNat) (2 ^ 64 - n.toNat)

theorem due_untilReport (h0 : 0 < lwm) (hlt : lwm.toNat < 2 ^ 64) (n : ℕ) :
    0 < untilReport lwm (UInt64.ofNat n) ∧ untilReport lwm (UInt64.ofNat n) ≤ lwm.toNat ∧
      Due lwm (n + untilReport lwm (UInt64.ofNat n)) := by
  have hpos : 0 < lwm.toNat := by omega
  simp only [untilReport, Due, UInt64.toNat_ofNat', Nat.mod_eq_of_lt hlt, h0, true_and]
  generalize lwm.toNat = l at hpos hlt ⊢
  have hm := Nat.mod_lt (n % 2 ^ 64) hpos
  refine ⟨by omega, by omega, ?_⟩
  rcases Nat.lt_or_ge (l - n % 2 ^ 64 % l) (2 ^ 64 - n % 2 ^ 64) with hcase | hcase
  · -- the next multiple comes before the wrap
    rw [Nat.min_eq_left hcase.le]
    have hsum : (n + (l - n % 2 ^ 64 % l)) % 2 ^ 64 = n % 2 ^ 64 + (l - n % 2 ^ 64 % l) := by
      omega
    have hdiv := Nat.mod_add_div (n % 2 ^ 64) l
    rw [hsum, show n % 2 ^ 64 + (l - n % 2 ^ 64 % l) = l * (n % 2 ^ 64 / l + 1) by
      rw [Nat.mul_succ]; omega]
    exact Nat.mul_mod_right _ _
  -- the count wraps first, and zero is a multiple of everything
  · rw [Nat.min_eq_right hcase]
    have hzero : (n + (2 ^ 64 - n % 2 ^ 64)) % 2 ^ 64 = 0 := by omega
    rw [hzero, Nat.zero_mod]

/-- Among `hwm` messages one is reported. -/
theorem Proper.dense (h : Proper hwm) (n : ℕ) :
    ∃ d, n < d ∧ d ≤ n + hwm.toNat ∧ Due (Pipe.computeLwm hwm) d := by
  obtain ⟨h0, hle⟩ := h.computeLwm
  have hmax : max.toNat < 2 ^ 64 := by decide
  have hle' := h.toNat_le
  obtain ⟨hpos, hk, hdue⟩ := due_untilReport h0 (by omega) n
  exact ⟨_, by omega, by omega, hdue⟩

/-! ## One step of the flow control -/

/-- No queue is on its way to a writer. -/
def NoHiccup (s : PipePair) : Prop := ∀ z, pending (s.mail z) = []

theorem NoHiccup.outcome (hno : NoHiccup s) (h : Working s) (ho : Outcome s a r s')
    (hop : Operating a) (ha : ∀ x, a ≠ .hiccup x) : NoHiccup s' := by
  intro z
  have h' := h.outcome ho hop
  obtain ⟨q, hq⟩ := h'.steady.exists_outPipe h'.sound z
  apply (ho.flow h.sound (h.steady.alive h.sound _) h.noConflate z).pending_nil _ _ (hno z)
  · simp [hq]
  · intro hg
    exact ha _ (signal_hiccuped hg).1

/-- Without a `hiccup` the pair takes the steps of a flow control that loses nothing. -/
theorem Represents.lossless (hv : Represents s w v) (hord : v.Ordered)
    (h : Working s) (hno : NoHiccup s) (ho : Outcome s a r s') (hop : Operating a) :
    ∃ v', v.Step (Full (s.pipe w).hwm) (Due (s.pipe w.peer).lwm) False v' ∧ Represents s' w v' := by
  -- a queue is replaced only when a `hiccup` is delivered
  have hnot : signal s w (a, r) ≠ .swapped := by
    intro hg
    have hnext := (signal_swapped hg).2
    rw [hiccupNext_of_pending_nil (hno w)] at hnext
    cases hnext
  obtain ⟨v', hstep, hv'⟩ := hv.outcome hord h.sound h.noConflate h.steady ho hop
    fun hg => absurd hg hnot
  exact ⟨v', hstep.lossless hnot, hv'⟩

/-! ## Fixed watermarks -/

/-- Calls that carry messages from one end to the other, and nothing else. -/
def Carrying : Action → Prop
  | .hiccup _ | .terminate _ _ | .updateHwms _ _ _ => False
  | .write _ m => m.isCredential = false
  | _ => True

theorem Carrying.operating (h : Carrying a) : Operating a := by
  cases a with
  | terminate | write => exact h
  | _ => trivial

/-- What a writer with the high watermark `hwm` can rely on. -/
structure Flowing (s : PipePair) (w : Side) (hwm : Int) : Prop where
  /-- No more than `hwm` messages are written beyond the last count the writer has seen. -/
  bounded : ((s.pipe w).msgsWritten - (s.pipe w).peersMsgsRead).toNat ≤ hwm.toNat
  unread_le : s.unread w ≤ hwm.toNat
  /-- A message that was begun can be continued. -/
  whole : s.MidMessage w → ∀ m, m.isDelimiter = false →
    ∃ s', s.step (.write w m) = .ok (.flag true, s')
  /-- A reader that has read everything does not leave the writer behind. -/
  awake : s.unread w = 0 → (∀ n, .activateWrite n ∉ s.mail w) →
    (s.pipe w).checkHwm = true ∧ (s.pipe w).outActive = true

/-- The invariant behind `Flowing`. -/
structure Steered (s : PipePair) (w : Side) (hwm : Int) : Prop where
  working : Working s
  noHiccup : NoHiccup s
  noHwms : ∀ z, hwmsInFlight (s.mail z) = []
  hwm_eq : (s.pipe w).hwm = hwm
  lwm_eq : (s.pipe w.peer).lwm = Pipe.computeLwm hwm
  totals : ∃ v, Represents s w v ∧ v.Ordered ∧ v.outstanding ≤ hwm.toNat ∧
    v.Live (Due (Pipe.computeLwm hwm)) hwm.toNat ∧ v.Committed (Full hwm)

theorem Steered.outcome (h : Steered s w hwm) (hp : Proper hwm)
    (ho : Outcome s a r s') (ha : Carrying a) : Steered s' w hwm := by
  have hop := ha.operating
  obtain ⟨hsame, hmarks⟩ := ho.sameMarks h.noHwms (by rintro _ _ _ rfl; exact ha)
  have hno : NoHiccup s' := by
    apply h.noHiccup.outcome h.working ho hop
    rintro x rfl
    exact ha
  -- the rest is what the flow control with unbounded counters preserves
  obtain ⟨v, hv, hord, hle, hlive, hcom⟩ := h.totals
  obtain ⟨v', hstep, hv'⟩ := hv.lossless hord h.working h.noHiccup ho hop
  rw [h.hwm_eq, h.lwm_eq] at hstep
  have hfull := hp.full_iff (hle.trans hp.toNat_le)
  refine ⟨h.working.outcome ho hop, hno, hmarks, (hsame w).hwm.trans h.hwm_eq,
    (hsame w.peer).lwm.trans h.lwm_eq, v', hv',
    hord.step hstep, ?_, ?_, ?_⟩
  · apply hstep.outstanding_le hord _ hle
    intro hroom
    exact Nat.lt_of_not_le fun hge => hroom (hfull.mpr hge)
  · exact hlive.step hstep hord hfull.mp hp.dense
  -- fewer outstanding messages cannot make a writer full that was not
  · apply hcom.step hstep hord
    intro k hk hcond
    exact hfull.mpr (((hp.full_iff (hk.trans (hle.trans hp.toNat_le))).mp hcond).trans hk)

/-- An active writer below its high watermark gets the message accepted. -/
theorem Working.write_accepted (h : Working s) (hact : (s.pipe w).outActive = true)
    (hroom : (s.pipe w).checkHwm = true) (hm : m.isDelimiter = false) :
    ∃ s', s.step (.write w m) = .ok (.flag true, s') := by
  obtain ⟨r, s', hstep, ho⟩ := h.sound.step_outcome (a := .write w m)
    ⟨h.steady.alive h.sound w, hm⟩ trivial
  -- of all outcomes of a `write` only `put` is possible
  cases ho with
  | idle hidle =>
    cases hidle with
    | noMessage hno => cases hno
    | refused hno hcond =>
      cases hno
      simp [hact, h.steady.active w] at hcond
  | sleep hno | delimiter hno | lastDelimiter hno => cases hno
  | full hno _ _ hfull =>
    cases hno
    rw [hroom] at hfull
    cases hfull
  | put => exact ⟨_, hstep⟩

/-- The writer may write when nothing is outstanding in the totals. -/
theorem Represents.ready (hv : Represents s w v) (hord : v.Ordered)
    (hstop : v.stopped = false) (hroom : ¬ Full (s.pipe w).hwm v.outstanding) :
    (s.pipe w).checkHwm = true ∧ (s.pipe w).outActive = true := by
  refine ⟨?_, by rw [hv.outActive, hstop]; rfl⟩
  exact (checkHwm_iff hv.written hv.seen (hord.seen_le.trans hord.read_le)).mpr hroom

/-- Everything has been read and reported. -/
theorem Represents.ready_of_drained (hv : Represents s w v) (hord : v.Ordered)
    (hp : Proper (s.pipe w).hwm) (hle : v.outstanding ≤ max.toNat)
    (hlive : v.Live (Due (s.pipe w.peer).lwm) (s.pipe w).hwm.toNat) (h0 : s.unread w = 0)
    (hnone : PipePair.reports (s.mail w) = []) :
    (s.pipe w).checkHwm = true ∧ (s.pipe w).outActive = true := by
  have hread : v.read = v.written := by rw [hv.unread, h0, Nat.add_zero]
  have hnil : v.reports = [] := by simpa [hnone] using hv.reports
  obtain ⟨hlt, hstop⟩ := hlive.not_stalled hord hread hnil
  apply hv.ready hord hstop
  rw [hp.full_iff hle]
  exact Nat.not_le_of_lt hlt

theorem Steered.flowing (h : Steered s w hwm) (hp : Proper hwm) : Flowing s w hwm := by
  obtain ⟨v, hv, hord, hle, hlive, hcom⟩ := h.totals
  have hseen := hord.seen_le
  have hread := hord.read_le
  refine ⟨?_, ?_, ?_, ?_⟩
  · rw [hv.written, hv.seen, ← UInt64.ofNat_sub (hseen.trans hread)]
    exact (Nat.mod_le _ _).trans hle
  · have hsum := hv.unread
    rw [CreditWindow.outstanding] at hle
    omega
  -- in the middle of a message the writer has not stopped since its first part
  · intro hmid m hm
    obtain ⟨hstop, hroom⟩ := hcom (hv.begun hmid)
    rw [← h.hwm_eq] at hroom
    obtain ⟨hcheck, hact⟩ := hv.ready hord hstop hroom
    exact h.working.write_accepted hact hcheck hm
  · intro h0 hnone
    rw [← h.lwm_eq, ← h.hwm_eq] at hlive
    exact hv.ready_of_drained hord (h.hwm_eq ▸ hp) (hle.trans hp.toNat_le) hlive h0
      (reports_eq_nil hnone)

theorem live_noTotals (hp : Proper hwm) : noTotals.Live (Due (Pipe.computeLwm hwm)) hwm.toNat := by
  obtain ⟨d, h1, h2, h3⟩ := hp.dense 0
  exact ⟨⟨d, h1, h3, .inl h2⟩, .inl rfl⟩

theorem steered_start {hwm : Side → Int} (hp : Proper (hwm w)) :
    Steered (start (hwm .first) (hwm .second) false false) w (hwm w) where
  working := working_start _ _
  noHiccup z := by cases z <;> rfl
  noHwms z := by cases z <;> rfl
  hwm_eq := by cases w <;> rfl
  lwm_eq := by cases w <;> rfl
  totals := ⟨noTotals, represents_start _ _ w, ordered_noTotals, Nat.zero_le _, live_noTotals hp,
    fun hbegun => by cases hbegun⟩

/-- **Bounded occupancy and no stall with fixed watermarks**: `w` has the high watermark
`hwm w` and its peer the low watermark that goes with it. -/
theorem fixed_watermarks (hwm : Side → Int) (hp : Proper (hwm w)) {tr : List (Action × Reply)}
    (h : Exec (Guarded Step fun _ l => Carrying l.1)
      (start (hwm .first) (hwm .second) false false) tr s) : Flowing s w (hwm w) := by
  refine Steered.flowing (h.invariant (Steered · w (hwm w)) ?_ (steered_start hp)) hp
  rintro b ⟨act, rep⟩ c hb ⟨hstep, hcar⟩
  exact hb.outcome hp (hb.working.outcome_of_step hstep) hcar

instance (a : Action) : Decidable (Carrying a) := by
  rcases a <;> dsimp only [Carrying] <;> infer_instance

/-- A writer with room for one message has written it and has been refused the next one;
the reader has read it, and its report has arrived. -/
theorem fixed_watermarks_of_one :
    ∃ tr s, Exec (Guarded Step fun _ l => Carrying l.1) (start 1 1 false false) tr s ∧
      (s.pipe .first).peersMsgsRead = 1 ∧ Flowing s .first 1 := by
  refine exists_exec_with step_of_next (fun s => (s.pipe .first).peersMsgsRead = 1)
    [.write .first .init, .flush .first, .write .first .init, .read .second, .deliver .first]
    (by decide +kernel) ?_
  intro _ _ hexec hseen
  exact ⟨hseen, fixed_watermarks (fun _ => 1) (by decide) hexec⟩

/-! ## Watermarks that change -/

/-- The calls on a pair between a socket, at the end `x`, and a session. `setsockopt` on
the socket sets new watermarks at its own end and sends them to the other one. -/
def Adjusting (x : Side) : Action → Prop
  | .hiccup _ | .terminate _ _ => False
  | .updateHwms y inhwm outhwm => y = x ∧ Proper inhwm ∧ Proper outhwm
  | .write _ m => m.isCredential = false
  | _ => True

theorem Adjusting.operating (h : Adjusting x a) : Operating a := by
  cases a with
  | terminate | write => exact h
  | _ => trivial

/-- The reader's next report comes in time: before the writer has to stop, or with one of
the messages that are already there. And a writer that has stopped will get a report. -/
def InTime (s : PipePair) (w : Side) : Prop :=
  let unreported :=
    (s.pipe w.peer).msgsRead - (reports (s.mail w)).getLastD (s.pipe w).peersMsgsRead
  let next := untilReport (s.pipe w.peer).lwm (s.pipe w.peer).msgsRead
  (unreported.toNat + next ≤ (s.pipe w).hwm.toNat ∨ next ≤ s.unread w) ∧
    ((s.pipe w).outActive = true ∨ reports (s.mail w) ≠ [] ∨ next ≤ s.unread w)

instance (s : PipePair) (w : Side) : Decidable (s.InTime w) := inferInstanceAs (Decidable (_ ∧ _))

/-- The watermarks that come next, if no others are behind them. -/
def lastHwms : List Command → Option (Int × Int)
  | .pipeHwm inhwm outhwm :: rest => if hwmsInFlight rest = [] then some (inhwm, outhwm) else none
  | _ => none

/-- Whenever both ends come to agree on new watermarks, the reports are in time for them. -/
def Timely (s : PipePair) : Action → Prop
  | .deliver y => ∀ m ∈ lastHwms (s.mail y),
      (s.setPipe y ((s.pipe y).setHwms m.1 m.2)).InTime y ∧
        (s.setPipe y ((s.pipe y).setHwms m.1 m.2)).InTime y.peer
  | _ => True

/-- Totals that meet `InTime` are those of a flow control that does not stall. -/
theorem InTime.live (h : s.InTime w) (hv : Represents s w v) (hord : v.Ordered)
    (hle : v.outstanding ≤ max.toNat) (h0 : 0 < (s.pipe w.peer).lwm)
    (hlt : (s.pipe w.peer).lwm.toNat < 2 ^ 64) :
    v.Live (Due (s.pipe w.peer).lwm) (s.pipe w).hwm.toNat := by
  have hlast : (reports (s.mail w)).getLastD (s.pipe w).peersMsgsRead =
      UInt64.ofNat v.lastReport := by
    rw [hv.reports, hv.seen, CreditWindow.lastReport, List.getLastD_map]
  -- the two counts are less than `2^64` apart, so the difference of the counters is theirs
  have hdiff : (UInt64.ofNat v.read - UInt64.ofNat v.lastReport).toNat = v.read - v.lastReport := by
    rw [← UInt64.ofNat_sub hord.lastReport_le]
    apply UInt64.toNat_ofNat_of_lt'
    have hmax : max.toNat < UInt64.size := by decide
    have hseen := hord.seen_le_lastReport
    have hread := hord.read_le
    rw [CreditWindow.outstanding] at hle
    omega
  obtain ⟨hpos, -, hdue⟩ := due_untilReport h0 hlt v.read
  obtain ⟨hreport, hwake⟩ := h
  rw [hlast, hv.read] at hreport
  rw [hv.read] at hwake
  have hsum := hv.unread
  -- the next report is the witness of both parts of `Live`
  refine ⟨⟨v.read + untilReport (s.pipe w.peer).lwm (UInt64.ofNat v.read), by omega, hdue, ?_⟩, ?_⟩
  · omega
  · rcases hwake with hact | hrep | hnext
    · left
      simpa [hv.outActive] using hact
    · right
      left
      intro hnil
      exact hrep (by rw [hv.reports, hnil]; rfl)
    · exact .inr (.inr ⟨_, by omega, by omega, hdue⟩)

/-- The invariant of such a pair: the marks of the two ends match once the ones in flight
have arrived, and then nobody waits for ever. -/
structure Adjusted (x : Side) (s : PipePair) : Prop where
  working : Working s
  noHiccup : NoHiccup s
  oneWay : hwmsInFlight (s.mail x) = []
  noBoost : ∀ z, (s.pipe z).inHwmBoost = -1 ∧ (s.pipe z).outHwmBoost = -1
  proper : ∀ z, Proper (s.pipe z).hwm
  inFlight : ∀ m ∈ hwmsInFlight (s.mail x.peer), Proper m.1 ∧ Proper m.2
  /-- The last marks in flight are those of the socket. -/
  last : ∀ m ∈ (hwmsInFlight (s.mail x.peer)).getLast?,
    m.1 = (s.pipe x).hwm ∧ (s.pipe x).lwm = Pipe.computeLwm m.2
  agree : hwmsInFlight (s.mail x.peer) = [] →
    ∀ z, (s.pipe z.peer).lwm = Pipe.computeLwm (s.pipe z).hwm
  totals : ∀ w, ∃ v, Represents s w v ∧ v.Ordered ∧ v.outstanding ≤ CInt.max.toNat ∧
    (hwmsInFlight (s.mail x.peer) = [] → v.Live (Due (s.pipe w.peer).lwm) (s.pipe w).hwm.toNat)

/-- Without boosts `set_hwms` takes the marks as they are. -/
theorem setHwms_noBoost {p : Pipe} (hp : p.inHwmBoost = -1 ∧ p.outHwmBoost = -1) (hi : Proper i)
    (ho : Proper o) : (p.setHwms i o).lwm = Pipe.computeLwm i ∧ (p.setHwms i o).hwm = o := by
  have hsum : ∀ {n : Int}, Proper n →
      (if n ≤ 0 ∨ (-1 : Int) = 0 then 0 else wrap (n + max (-1) 0)) = n := by
    intro n hn
    have h1 := hn.1
    have h2 : n < 2147483647 := hn.2
    rw [if_neg (by omega), show n + max (-1) 0 = n by omega]
    exact wrap_of_fits ⟨by omega, by omega⟩
  rw [Pipe.setHwms_lwm, Pipe.setHwms_hwm, hp.1, hp.2, hsum hi, hsum ho]
  exact ⟨rfl, rfl⟩

/-- Only the ends, the queues and the reports matter. -/
theorem InTime.congr {t : PipePair} (h : t.InTime w) (hpipe : s.pipe = t.pipe)
    (hheap : s.heap = t.heap) (hrep : reports (s.mail w) = reports (t.mail w)) : s.InTime w := by
  have hunread : s.unread w = t.unread w := by rw [unread, outbox, hpipe, hheap]; rfl
  unfold InTime
  rw [hpipe, hrep, hunread]
  exact h

namespace Adjusted

section
variable (h : Adjusted x s) (ho : Outcome s a r s') (ha : Adjusting x a)
include h ho ha

theorem noHiccup_outcome : NoHiccup s' := by
  apply h.noHiccup.outcome h.working ho ha.operating
  rintro y rfl
  exact ha

/-- A step, as long as the marks stay as they are. -/
theorem totals_outcome (w : Side) : ∃ v, Represents s' w v ∧ v.Ordered ∧ v.outstanding ≤ max.toNat ∧
      (hwmsInFlight (s.mail x.peer) = [] →
        v.Live (Due (s.pipe w.peer).lwm) (s.pipe w).hwm.toNat) := by
  obtain ⟨v, hv, hord, hle, hlive⟩ := h.totals w
  obtain ⟨v', hstep, hv'⟩ := hv.lossless hord h.working h.noHiccup ho ha.operating
  have hp := h.proper w
  have hfull := hp.full_iff hle
  refine ⟨v', hv', hord.step hstep, ?_, ?_⟩
  · apply hstep.outstanding_le hord _ hle
    intro hroom
    have hlt : v.outstanding < (s.pipe w).hwm.toNat :=
      Nat.lt_of_not_le fun hge => hroom (hfull.mpr hge)
    exact hlt.trans_le hp.toNat_le
  · intro hnone
    have hdense := hp.dense
    rw [← h.agree hnone w] at hdense
    exact (hlive hnone).step hstep hord hfull.mp hdense

theorem same (hmarks : ∀ z, SameMarks (s.pipe z) (s'.pipe z))
    (hmail : ∀ z, hwmsInFlight (s'.mail z) = hwmsInFlight (s.mail z)) : Adjusted x s' where
  working := h.working.outcome ho ha.operating
  noHiccup := h.noHiccup_outcome ho ha
  oneWay := (hmail x).trans h.oneWay
  noBoost z := by
    rw [(hmarks z).inHwmBoost, (hmarks z).outHwmBoost]
    exact h.noBoost z
  proper z := by
    rw [(hmarks z).hwm]
    exact h.proper z
  inFlight := by
    rw [hmail]
    exact h.inFlight
  last := by
    rw [hmail, (hmarks x).hwm, (hmarks x).lwm]
    exact h.last
  agree hnone z := by
    rw [hmail] at hnone
    rw [(hmarks z).hwm, (hmarks z.peer).lwm]
    exact h.agree hnone z
  totals w := by
    rw [(hmarks w).hwm, (hmarks w.peer).lwm, hmail]
    exact h.totals_outcome ho ha w

end

/-- The socket sets new marks and sends them to the session. -/
theorem update (h : Adjusted x s) (ho : Outcome s (.updateHwms x i o) r s')
    (ha : Adjusting x (.updateHwms x i o))
    (hs' : s' = (s.setPipe x ((s.pipe x).setHwms i o)).post x.peer (.pipeHwm o i)) :
    Adjusted x s' := by
  obtain ⟨-, hi, hop⟩ := ha
  obtain ⟨hlwm, hhwm⟩ := setHwms_noBoost (h.noBoost x) hi hop
  have hmail : hwmsInFlight (s'.mail x.peer) = hwmsInFlight (s.mail x.peer) ++ [(o, i)] := by
    simp [hs', hwmsInFlight, Command.hwms]
  have hpipe : s'.pipe = Function.update s.pipe x ((s.pipe x).setHwms i o) := by rw [hs']; rfl
  -- with marks in flight nothing is promised about stalls
  have hne : hwmsInFlight (s'.mail x.peer) ≠ [] := by simp [hmail]
  refine ⟨h.working.outcome ho trivial, h.noHiccup_outcome ho ⟨rfl, hi, hop⟩, ?_, ?_, ?_, ?_, ?_,
    fun hnone => absurd hnone hne, ?_⟩
  · rw [hs', post_mail, update_of_ne (Side.ne_peer x)]
    exact h.oneWay
  · intro z
    rw [hpipe, update_apply]
    split
    · exact h.noBoost x
    · exact h.noBoost z
  · intro z
    rw [hpipe, update_apply]
    split
    · rw [hhwm]
      exact hop
    · exact h.proper z
  · intro m hm
    rw [hmail, List.mem_append, List.mem_singleton] at hm
    rcases hm with hm | rfl
    · exact h.inFlight m hm
    · exact ⟨hop, hi⟩
  · intro m hm
    rw [hmail, List.getLast?_concat, Option.mem_some_iff] at hm
    rw [hpipe, update_self, hlwm, hhwm, ← hm]
    exact ⟨rfl, rfl⟩
  · intro w
    obtain ⟨v, hv, hord, hle, -⟩ := h.totals_outcome ho ⟨rfl, hi, hop⟩ w
    exact ⟨v, hv, hord, hle, fun hnone => absurd hnone hne⟩

theorem deliver {rest : List Command} (h : Adjusted x s) (ho : Outcome s (.deliver x.peer) r s')
    (htime : s.Timely (.deliver x.peer)) (hhead : s.mail x.peer = .pipeHwm i o :: rest)
    (hs' : s' = (s.popMail x.peer).setPipe x.peer ((s.pipe x.peer).setHwms i o)) :
    Adjusted x s' := by
  have hbefore : hwmsInFlight (s.mail x.peer) = (i, o) :: hwmsInFlight rest := by rw [hhead]; rfl
  have hmail : hwmsInFlight (s'.mail x.peer) = hwmsInFlight rest := by simp [hs', hhead]
  have hpipe : s'.pipe = Function.update s.pipe x.peer ((s.pipe x.peer).setHwms i o) := by
    rw [hs']
    rfl
  have hin := h.inFlight
  have hlast := h.last
  rw [hbefore] at hin hlast
  obtain ⟨hi, hop⟩ := hin (i, o) List.mem_cons_self
  obtain ⟨hlwm, hhwm⟩ := setHwms_noBoost (h.noBoost x.peer) hi hop
  have hx : s'.pipe x = s.pipe x := by rw [hpipe, update_of_ne (Side.ne_peer x)]
  have hpeer : s'.pipe x.peer = (s.pipe x.peer).setHwms i o := by rw [hpipe, update_self]
  -- the last marks in flight were those of the socket, so now both ends have them
  have hagree : hwmsInFlight rest = [] →
      ∀ z, (s'.pipe z.peer).lwm = Pipe.computeLwm (s'.pipe z).hwm := by
    intro hnil z
    obtain ⟨h1, h2⟩ := hlast (i, o) (by simp [hnil])
    rcases x.eq_or_eq_peer z with rfl | rfl
    · rw [hpeer, hx, hlwm, h1]
    · rw [Side.peer_peer, hpeer, hx, hhwm, h2]
  have hproper : ∀ z, Proper (s'.pipe z).hwm := by
    intro z
    rw [hpipe, update_apply]
    split
    · rw [hhwm]
      exact hop
    · exact h.proper z
  refine ⟨h.working.outcome ho trivial, h.noHiccup_outcome ho trivial, ?_, ?_, hproper, ?_, ?_,
    fun hnone => hagree (hmail ▸ hnone), ?_⟩
  · rw [hs', setPipe_mail, popMail_mail, update_of_ne (Side.ne_peer x)]
    exact h.oneWay
  · intro z
    rw [hpipe, update_apply]
    split
    · exact h.noBoost x.peer
    · exact h.noBoost z
  · rw [hmail]
    exact fun m hm => hin m (List.mem_cons_of_mem _ hm)
  · intro m hm
    rw [hmail] at hm
    rw [hx]
    apply hlast m
    cases hrest : hwmsInFlight rest with
    | nil => simp [hrest] at hm
    | cons => simpa [hrest] using hm
  -- the condition on the run is used here, and only for the last marks in flight
  · intro w
    obtain ⟨v, hv, hord, hle, -⟩ := h.totals_outcome ho trivial w
    refine ⟨v, hv, hord, hle, fun hnone => ?_⟩
    rw [hmail] at hnone
    obtain ⟨hwriter, hreader⟩ := htime (i, o) (by simp [lastHwms, hhead, hnone])
    have hrep : ∀ z, reports (s'.mail z) = reports (s.mail z) := by
      rw [hs']
      exact filterMap_pop hhead rfl
    have hin' : s'.InTime w := by
      rcases x.peer.eq_or_eq_peer w with rfl | rfl
      · exact hwriter.congr hpipe (by rw [hs']; rfl) (hrep _)
      · exact hreader.congr hpipe (by rw [hs']; rfl) (hrep _)
    obtain ⟨h0, hlt⟩ := (hproper w).computeLwm
    rw [← hagree hnone w] at h0 hlt
    have hmax : max.toNat < 2 ^ 64 := by decide
    exact hin'.live hv hord hle h0 ((hlt.trans (hproper w).toNat_le).trans_lt hmax)

theorem outcome (h : Adjusted x s) (ho : Outcome s a r s') (ha : Adjusting x a)
    (htime : s.Timely a) : Adjusted x s' := by
  cases ho.remarks with
  | same hmarks hmail => exact h.same ho ha hmarks hmail
  | update hs' =>
    obtain rfl := ha.1
    exact h.update ho ha hs'
  | @deliver y i o rest hhead hs' =>
    rcases x.eq_or_eq_peer y with rfl | rfl
    -- the session sends no marks
    · have hnone := h.oneWay
      rw [hhead] at hnone
      cases hnone
    · exact h.deliver ho htime hhead hs'

end Adjusted

theorem adjusted_start (h₀ : Proper hwm₀) (h₁ : Proper hwm₁) (x : Side) :
    Adjusted x (start hwm₀ hwm₁ false false) where
  working := working_start _ _
  noHiccup z := by cases z <;> rfl
  oneWay := by cases x <;> rfl
  noBoost z := by cases z <;> exact ⟨rfl, rfl⟩
  proper z := by
    cases z
    · exact h₀
    · exact h₁
  inFlight m hm := by cases x <;> cases hm
  last m hm := by cases x <;> cases hm
  agree _ z := by cases z <;> rfl
  totals w := by
    refine ⟨noTotals, represents_start _ _ w, ordered_noTotals, Nat.zero_le _, fun _ => ?_⟩
    cases w
    · exact live_noTotals h₀
    · exact live_noTotals h₁

/-- **No stall across watermark changes**, if the reports are in time whenever both ends
have come to agree on new watermarks: when everything has been read and no command is in
flight, the writer can write. -/
theorem adjusted_watermarks {hwm₀ hwm₁ : Int} (h₀ : Proper hwm₀) (h₁ : Proper hwm₁)
    {tr : List (Action × Reply)}
    (h : Exec (Guarded Step fun s l => Adjusting x l.1 ∧ s.Timely l.1)
      (start hwm₀ hwm₁ false false) tr s)
    (hnone : ∀ z, s.mail z = []) (h0 : s.unread w = 0) :
    (s.pipe w).checkHwm = true ∧ (s.pipe w).outActive = true := by
  have hinv : Adjusted x s := by
    refine h.invariant (Adjusted x) ?_ (adjusted_start h₀ h₁ x)
    rintro b ⟨act, rep⟩ c hb ⟨hstep, ha, htime⟩
    exact hb.outcome (hb.working.outcome_of_step hstep) ha htime
  obtain ⟨v, hv, hord, hle, hlive⟩ := hinv.totals w
  apply hv.ready_of_drained hord (hinv.proper w) hle (hlive _) h0
  · rw [hnone]
    rfl
  · rw [hnone]
    rfl

instance (x : Side) (a : Action) : Decidable (Adjusting x a) := by
  rcases a <;> dsimp only [Adjusting] <;> infer_instance

instance (s : PipePair) (a : Action) : Decidable (s.Timely a) := by
  rcases a <;> dsimp only [Timely] <;> infer_instance

/-- Room for four messages is cut down to two when one has been read. -/
theorem adjusted_watermarks_of_two :
    ∃ tr s, Exec (Guarded Step fun s l => Adjusting .first l.1 ∧ s.Timely l.1)
        (start 4 4 false false) tr s ∧
      (∀ z, s.mail z = []) ∧ s.unread .first = 0 ∧ (s.pipe .first).hwm = 2 ∧
      (s.pipe .first).checkHwm = true ∧ (s.pipe .first).outActive = true := by
  refine exists_exec_with step_of_next
    (fun s => (∀ z, s.mail z = []) ∧ s.unread .first = 0 ∧ (s.pipe .first).hwm = 2)
    [.write .first .init, .flush .first, .read .second, .updateHwms .first 4 2,
      .deliver .second] (by decide +kernel) ?_
  rintro _ _ hexec ⟨hnone, h0, hhwm⟩
  exact ⟨hnone, h0, hhwm, adjusted_watermarks (by decide) (by decide) hexec hnone h0⟩

/-- Two ways to get stuck with an empty queue and no command in flight. A writer that
has room for four messages has written one, which has been read and not reported, when
the room is cut down to one: it is full. Another one has been refused a fifth message
when the room is made larger; the reader reads the rest, but its count is not a multiple
of the new low watermark: the writer stays passive. -/
theorem adjusted_watermarks_stall :
    (∃ tr s, Exec (Guarded Step fun _ l => Adjusting .first l.1) (start 4 4 false false) tr s ∧
      (∀ z, s.mail z = []) ∧ s.unread .first = 0 ∧ (s.pipe .first).checkHwm = false) ∧
    ∃ tr s, Exec (Guarded Step fun _ l => Adjusting .first l.1) (start 4 4 false false) tr s ∧
      (∀ z, s.mail z = []) ∧ s.unread .first = 0 ∧ (s.pipe .first).outActive = false := by
  constructor
  · exact exists_exec
      [.write .first .init, .flush .first, .read .second, .updateHwms .first 4 1,
        .deliver .second] (by decide +kernel)
  · exact exists_exec
      [.write .first .init, .write .first .init, .write .first .init, .write .first .init,
        .flush .first, .write .first .init, .read .second, .updateHwms .first 4 100,
        .deliver .second, .read .second, .read .second, .read .second] (by decide +kernel)

end PipePair
end LibZmq
