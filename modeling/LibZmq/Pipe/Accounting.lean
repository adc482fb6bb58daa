import LibZmq.Core.CreditWindow
import LibZmq.Pipe.Traffic

/-!
# Flow-control accounting

`_msgs_written`, `_msgs_read` and `_peers_msgs_read` of a pair whose ends are both
active. The two ends of one direction refine the flow control of
`LibZmq.Core.CreditWindow`: the counters are the totals modulo `2^64`, the reports
are the `activate_write` commands in flight, and what the writer has written and the
reader has not read is in the writer's queue.

* `Steady` — both ends are active and nothing but ordinary messages is on its way;
* `Credit` — a step seen from the writer and the reports that come to it;
* `Represents` — the totals behind the counters;
* `accounting_exact` — what the counters say, for every run that keeps away from the
  two messages that are not counted alike everywhere.
-/

namespace LibZmq

namespace PipePair

open LibZmq.Core UPipe LibZmq.PipePair.Action Pipe Function List

variable {s s' : PipePair} {a : Action} {r : Reply} {w x : Side} {q : QueueId} {p : Pipe}

/-! ## Pairs in operation -/

/-- The calls of a pair in operation: nobody terminates it, and no credentials are
written. -/
def Operating : Action → Prop
  | .terminate _ _ => False
  | .write _ m => m.isCredential = false
  | _ => True

/-- A message that is neither credentials nor a delimiter. -/
def Regular (m : Msg) : Prop := m.isCredential = false ∧ m.isDelimiter = false

theorem eq_nil_of_regular (hreg : ∀ c ∈ l, Regular c)
    (hskip : ∀ c ∈ l, c.isCredential = true ∨ c.isDelimiter = true) : l = [] := by
  rw [eq_nil_iff_forall_not_mem]
  intro c hc
  rcases hskip c hc with e | e <;> simp_all [Regular]

/-- Both ends are active, and only regular messages are on their way. -/
structure Steady (s : PipePair) : Prop where
  active : ∀ x, (s.pipe x).state = .active
  regular : ∀ w, Carries Regular s w

theorem steady_start (hwm₀ hwm₁ : Int) : Steady (start hwm₀ hwm₁ false false) where
  active x := by cases x <;> rfl
  regular := carries_start

/-- What a reader can see is in the writer's queue. -/
theorem Sound.mem_complete (h : Sound s) (hq : (s.pipe x.peer).outPipe = some q)
    (hm : m ∈ (s.inbox x).readable) : m ∈ (s.heap q).complete := by
  have hatt := h.attached_or_fresh hq
  rw [Side.peer_peer] at hatt
  rcases hatt with ⟨rfl, -⟩ | ⟨-, hfresh⟩
  · exact mem_append_left _ hm
  · rw [hfresh.readable] at hm
    cases hm

namespace Steady

section
variable (hs : Steady s) (h : Sound s)
include hs h

theorem alive (x : Side) : s.deallocated x = 0 :=
  h.alive_of_reading (by rw [hs.active x]; rfl)

theorem exists_outPipe (w : Side) : ∃ q, (s.pipe w).outPipe = some q :=
  h.ownership.exists_outPipe (hs.alive h w) (by rw [hs.active w]; rfl)

theorem not_term : s.mail x ≠ .pipeTerm :: rest := by
  intro hmail
  apply (h.handshake x).no_term
  · rw [hs.active]
    rfl
  · simp [hmail]

theorem not_ack : s.mail x ≠ .pipeTermAck :: rest := by
  intro hmail
  apply (h.handshake x).no_ack
  · rw [hs.active, hs.alive h]
    rfl
  · simp [hmail]

theorem regular_of_consumes (hc : Consumes (s.inbox x) l u) : ∀ m ∈ l, Regular m := by
  -- what the reader takes was in the writer's queue
  obtain ⟨q, hq⟩ := hs.exists_outPipe h x.peer
  intro m hm
  refine (hs.regular _ q hq).1 m (h.mem_complete hq ?_)
  rw [hc.readable]
  exact mem_append_left _ hm

theorem not_delimiter (hc : Consumes (s.inbox x) (skipped ++ [d]) u) : d.isDelimiter = false :=
  (hs.regular_of_consumes h hc d (by simp)).2

theorem active_outcome (ho : Outcome s a r s') (hop : Operating a)
    (z : Side) : (s'.pipe z).state = .active := by
  have hx : ∀ {y : Side} {p : Pipe}, p.state = (s.pipe y).state →
      (update s.pipe y p z).state = .active := by
    intro y p hp
    rw [update_apply]
    split
    · rw [hp, hs.active]
    · exact hs.active z
  -- the states change with a delimiter, a `terminate` or a command of the handshake
  cases ho with
  | idle | look | unput | stats | peerStats => exact hs.active z
  | sleep | full | put | setNodelay | hiccup | marks | wake | credit | swap | remark =>
    exact hx rfl
  | take =>
    rw [postIf_pipe]
    exact hx rfl
  | publish =>
    rw [postIf_pipe]
    exact hs.active z
  | delimiter _ _ _ hd hc | lastDelimiter _ _ _ hd hc => cases (hs.not_delimiter h hc).symm.trans hd
  | ignored | close | closeAgain | giveUp => exact hop.elim
  | wait hmail | answer hmail => exact absurd hmail (hs.not_term h)
  | answerLast hmail | finish hmail => exact absurd hmail (hs.not_ack h)

theorem outcome (hn : NoConflate s) (ho : Outcome s a r s') (hop : Operating a) : Steady s' := by
  refine ⟨hs.active_outcome h ho hop, fun w => ?_⟩
  have hf := ho.flow h (hs.alive h _) hn w
  apply hf.carries hn (hs.regular w)
  · intro m hm hd
    rw [(signal_wrote hm).1] at hop
    exact ⟨hop, hd⟩
  · intro hclosed
    obtain ⟨delay, rfl⟩ := signal_closed hclosed
    exact hop

end
end Steady

/-! ## Reports -/

/-- The count that an `activate_write` command carries. -/
def Command.report : Command → Option UInt64
  | .activateWrite n => some n
  | _ => none

/-- The counts in flight, oldest first. -/
def reports (ch : List Command) : List UInt64 := ch.filterMap Command.report

theorem reports_eq_nil (h : ∀ n, .activateWrite n ∉ ch) : reports ch = [] := by
  rw [eq_nil_iff_forall_not_mem]
  intro n hn
  obtain ⟨c, hc, hreport⟩ := mem_filterMap.mp hn
  cases c with
  | activateWrite k => exact h k hc
  | _ => cases hreport

/-- The writer `w` is as before, and so are the reports that come to it. -/
structure SameCredit (s s' : PipePair) (w : Side) : Prop where
  outActive : (s'.pipe w).outActive = (s.pipe w).outActive
  peersMsgsRead : (s'.pipe w).peersMsgsRead = (s.pipe w).peersMsgsRead
  reports : reports (s'.mail w) = reports (s.mail w)

/-- Nothing is written or read, and no queue is replaced. -/
def Signal.quiet : Signal → Bool
  | .silent | .dropped | .hiccuped => true
  | _ => false

/-- A step, seen from the writer `w` and the reports that come to it. -/
inductive Credit (s s' : PipePair) (w : Side) : Signal → Prop where
  | same {g} : g.quiet = true → SameCredit s s' w → Credit s s' w g
  | write {m} : (s.pipe w).outActive = true → (s.pipe w).checkHwm = true → SameCredit s s' w →
      Credit s s' w (.wrote m)
  | stop : (s.pipe w).checkHwm = false → (s'.pipe w).outActive = false →
      (s'.pipe w).peersMsgsRead = (s.pipe w).peersMsgsRead →
      reports (s'.mail w) = reports (s.mail w) → Credit s s' w .silent
  /-- The reader has read something and reports if it is time to. -/
  | read {m} : (s'.pipe w).outActive = (s.pipe w).outActive →
      (s'.pipe w).peersMsgsRead = (s.pipe w).peersMsgsRead →
      reports (s'.mail w) = reports (s.mail w) ++
        (if ((s.pipe w.peer).countRead m).notifyDue then [((s.pipe w.peer).countRead m).msgsRead]
          else []) →
      Credit s s' w (.took m)
  | credit {n} : reports (s.mail w) = n :: reports (s'.mail w) →
      (s'.pipe w).peersMsgsRead = n → (s'.pipe w).outActive = true → Credit s s' w .silent
  | swap : (s'.pipe w).outActive = true →
      (s'.pipe w).peersMsgsRead = (s.pipe w).peersMsgsRead →
      reports (s'.mail w) = reports (s.mail w) → Credit s s' w .swapped

/-- An end keeps what it knows of the reports. -/
theorem credit_update (hact : p.outActive = (s.pipe x).outActive)
    (hpeers : p.peersMsgsRead = (s.pipe x).peersMsgsRead) :
    (update s.pipe x p w).outActive = (s.pipe w).outActive ∧
      (update s.pipe x p w).peersMsgsRead = (s.pipe w).peersMsgsRead := by
  by_cases hw : w = x
  · subst hw
    rw [update_self]
    exact ⟨hact, hpeers⟩
  · rw [update_of_ne hw]
    exact ⟨rfl, rfl⟩

/-- Every step of a pair in operation is one of the listed things for the reports to `w`. -/
theorem Outcome.credited (ho : Outcome s a r s') (h : Sound s) (hs : Steady s) (hop : Operating a)
    (w : Side) : Credit s s' w (signal s w (a, r)) := by
  have hquiet : ∀ {t : PipePair}, (t.pipe w).outActive = (s.pipe w).outActive ∧
      (t.pipe w).peersMsgsRead = (s.pipe w).peersMsgsRead →
      reports (t.mail w) = reports (s.mail w) → (signal s w (a, r)).quiet = true →
      Credit s t w (signal s w (a, r)) := by
    intro t hp hr hg
    exact .same hg ⟨hp.1, hp.2, hr⟩
  cases ho with
  | idle hidle =>
    refine hquiet ⟨rfl, rfl⟩ rfl ?_
    cases hidle with
    | noMessage hno | refused hno => cases hno <;> rfl
    | checkWrite | flush => rfl
    | rollback | hiccup => simp only [signal]; split <;> rfl
  | look => exact hquiet ⟨rfl, rfl⟩ rfl rfl
  | sleep hno | delimiter hno => exact hquiet (credit_update rfl rfl) rfl (by cases hno <;> rfl)
  | @take x skipped m =>
    rcases x.eq_or_eq_peer w with rfl | rfl
    · exact hquiet (by simp) (by simp [postIf_mail]) (by simp [signal, Signal.quiet])
    -- seen from the writer: the report is the last one in flight
    · rw [show signal s x.peer (.read x, .message (some m)) = .took m by simp [signal]]
      refine .read (by simp) (by simp) ?_
      rw [Side.peer_peer, postIf_mail, update_self, setPipe_mail, store_mail, reports,
        filterMap_append]
      split <;> rfl
  | @lastDelimiter x _ _ _ _ _ _ _ _ _ _ hst =>
    rw [hs.active x] at hst
    cases hst
  | @full x a r hno hact hst hfull =>
    rw [show signal s w (a, r) = .silent by cases hno <;> rfl]
    rcases x.eq_or_eq_peer w with rfl | rfl
    -- only the writer itself turns passive
    · exact .stop hfull (by simp) (by simp) rfl
    · exact .same rfl ⟨by simp, by simp, rfl⟩
  | @put x m q hm hact hst hroom =>
    rcases x.eq_or_eq_peer w with rfl | rfl
    · rw [show signal s w (.write w m, .flag true) = .wrote m by simp [signal]]
      exact .write hact hroom ⟨by simp, by simp, rfl⟩
    · exact hquiet (by simp) rfl (by simp [signal, Signal.quiet])
  | unput =>
    refine hquiet ⟨rfl, rfl⟩ rfl ?_
    simp only [signal]
    split <;> rfl
  | publish => exact hquiet ⟨by simp, by simp⟩ (filterMap_postIf _ _ _ rfl _) rfl
  | setNodelay => exact hquiet (credit_update rfl rfl) rfl rfl
  | hiccup =>
    refine hquiet (credit_update rfl rfl) (filterMap_post rfl _) ?_
    simp only [signal]
    split <;> rfl
  | ignored | close | closeAgain | giveUp => exact hop.elim
  | marks => exact hquiet (credit_update rfl rfl) (filterMap_post rfl _) rfl
  | stats => exact hquiet ⟨rfl, rfl⟩ (filterMap_post rfl _) rfl
  | wake hmail | remark hmail =>
    exact hquiet (credit_update rfl rfl) (filterMap_pop hmail rfl _)
      (by rw [signal_deliver hmail rfl]; rfl)
  | @credit x n rest e hmail =>
    rw [signal_deliver hmail rfl]
    rcases x.eq_or_eq_peer w with rfl | rfl
    -- an active end that gets a report can write again
    · refine .credit (n := n) ?_ (by simp) (by simp [hs.active w])
      simp [hmail, reports, Command.report]
    · exact .same rfl ⟨by simp, by simp, by simp⟩
  | @swap x q q' rest u e hmail =>
    rcases x.eq_or_eq_peer w with rfl | rfl
    · rw [show signal s w (.deliver w, .done) = .swapped by
        simp [signal, hiccupNext_cons hmail, Command.hiccupQueue]]
      exact .swap (by simp) (by simp) (filterMap_pop hmail rfl _)
    · exact hquiet (by simp) (filterMap_pop hmail rfl _) (by simp [signal, Signal.quiet])
  | wait hmail | answer hmail => exact absurd hmail (hs.not_term h)
  | answerLast hmail | finish hmail => exact absurd hmail (hs.not_ack h)
  | peerStats hmail =>
    exact hquiet ⟨rfl, rfl⟩ (filterMap_pop hmail rfl _) (by rw [signal_deliver hmail rfl]; rfl)

/-! ## Counting -/

/-- The complete messages in the queue that `w` writes to. -/
def outbox (s : PipePair) (w : Side) : List Msg :=
  match (s.pipe w).outPipe with
  | none => []
  | some q => (s.heap q).complete

/-- The number of messages that `w` has written and its reader has not read. -/
def unread (s : PipePair) (w : Side) : ℕ := (s.outbox w).countP Pipe.counts

/-- `w` has written the first parts of a message and not the last one. -/
def MidMessage (s : PipePair) (w : Side) : Prop :=
  ∃ q, (s.pipe w).outPipe = some q ∧ (s.heap q).unfinished ≠ []

section
variable (hq : (s.pipe w).outPipe = some q)
include hq

theorem outbox_eq : s.outbox w = (s.heap q).complete := by
  rw [outbox, hq]

theorem unread_eq : s.unread w = (s.heap q).complete.countP counts := by
  rw [unread, outbox_eq hq]

theorem midMessage_iff : s.MidMessage w ↔ (s.heap q).unfinished ≠ [] := by
  simp [MidMessage, hq]

end

theorem sub_add_one (n k : UInt64) : n - (k + 1) = n - 1 - k := by grind

/-- `process_hiccup` takes every message that counts off again, if all that it finds do. -/
theorem msgsWritten_discountWritten (p : Pipe) (msgs : List Msg)
    (h : ∀ m ∈ msgs, m.hasMore = true ∨ m.isRoutingId = false) :
    (p.discountWritten msgs).msgsWritten = p.msgsWritten - UInt64.ofNat (msgs.countP counts) := by
  rw [discountWritten_msgsWritten]
  generalize p.msgsWritten = n
  -- one message after the other, as the loop does
  induction msgs generalizing n with
  | nil => simp
  | cons m _ ih =>
    rw [foldl_cons, ih fun c hc => h c (mem_cons_of_mem _ hc)]
    cases hmore : m.hasMore with
    | true => simp [counts, hmore]
    | false =>
      have hm : m.isRoutingId = false := by simpa [hmore] using h m mem_cons_self
      simp [counts, hm, hmore, sub_add_one]

/-- A step, seen from the counters of `w` and of its reader. -/
inductive Tally (s s' : PipePair) (w : Side) : Signal → Prop where
  | same {g} : g.quiet = true → SameCounts s s' w → s'.unread w = s.unread w →
      (s'.MidMessage w → s.MidMessage w) → Tally s s' w g
  | wrote {m} : (s'.pipe w).msgsWritten = ((s.pipe w).countWritten m).msgsWritten →
      (s'.pipe w.peer).msgsRead = (s.pipe w.peer).msgsRead →
      s'.unread w = s.unread w + (if Pipe.counts m then 1 else 0) →
      (s'.MidMessage w → m.hasMore = true) → Tally s s' w (.wrote m)
  | took {m} : (s'.pipe w).msgsWritten = (s.pipe w).msgsWritten →
      (s'.pipe w.peer).msgsRead = ((s.pipe w.peer).countRead m).msgsRead →
      s.unread w = s'.unread w + (if Pipe.counts m then 1 else 0) →
      (s'.MidMessage w → s.MidMessage w) → Tally s s' w (.took m)
  | swapped : (s'.pipe w).msgsWritten = (s.pipe w).msgsWritten - UInt64.ofNat (s.unread w) →
      (s'.pipe w.peer).msgsRead = (s.pipe w.peer).msgsRead → s'.unread w = 0 →
      ¬ s'.MidMessage w → Tally s s' w .swapped

/-- The writer's queue holds no routing id that `process_hiccup` would count. -/
def Countable (s : PipePair) (w : Side) : Prop :=
  ∀ m ∈ s.outbox w, m.hasMore = true ∨ m.isRoutingId = false

theorem Flow.tally (hf : Flow s s' w g) (h : Sound s) (hn : NoConflate s)
    (hs : Steady s) (hout : (s'.pipe w).outPipe ≠ none) (hclosed : g ≠ .closed)
    (hswap : g = .swapped → s.Countable w) : Tally s s' w g := by
  cases hf with
  | gone hnone => exact absurd hnone hout
  | still hq hq' hsame _ hcounts =>
    refine .same rfl hcounts ?_ ?_
    · rw [unread_eq hq, unread_eq hq', hsame.complete]
    · rw [midMessage_iff hq, midMessage_iff hq', hsame.unfinished]
      exact id
  | @take q skipped m hq hq' _ _ hskip _ _ hc hwritten hread =>
    have hcomplete := complete_consumes hc
    -- credentials would have been in the queue
    have hnil : skipped = [] := by
      refine eq_nil_of_regular (fun c hmem => (hs.regular w q hq).1 c ?_) fun c hmem =>
        .inl (hskip c hmem)
      simp [hcomplete, hmem]
    refine .took hwritten (by rw [hread]) ?_ ?_
    · rw [unread_eq hq, unread_eq hq', hcomplete, hnil, nil_append, countP_append,
        countP_singleton, Nat.add_comm]
    · rw [midMessage_iff hq, midMessage_iff hq', hc.unfinished]
      exact id
  | @skip q l hq hq' _ _ hskip hc hcounts =>
    have hcomplete := complete_consumes hc
    have hnil : l = [] := by
      refine eq_nil_of_regular (fun c hmem => (hs.regular w q hq).1 c ?_) hskip
      simp [hcomplete, hmem]
    refine .same rfl hcounts ?_ ?_
    · rw [unread_eq hq, unread_eq hq', hcomplete, hnil, nil_append]
    · rw [midMessage_iff hq, midMessage_iff hq', hc.unfinished]
      exact id
  | @put q m hq _ _ hheap _ hpipe hpeer =>
    have hq' : (s'.pipe w).outPipe = some q := by rw [hpipe]; exact hq
    refine .wrote (by rw [hpipe]) (by rw [hpeer]) ?_ ?_
    · rw [unread_eq hq, unread_eq hq', hheap, complete_write (hn.heap q)]
      cases hmore : m.hasMore with
      | true => simp [counts, hmore]
      | false =>
        -- the parts before the last one do not count
        have hparts : (s.heap q).unfinished.countP counts = 0 := by
          rw [countP_eq_zero]
          intro p hp
          simp [counts, h.contents.unfinished w q hq p hp]
        simp [hparts]
    · rw [midMessage_iff hq', hheap, unfinished_write]
      cases m.hasMore <;> simp
  | drop hq hq' hread hready hunf _ hcounts =>
    refine .same rfl hcounts ?_ ?_
    · rw [unread_eq hq, unread_eq hq', complete, hread, hready, complete]
    · rw [midMessage_iff hq', hunf]
      simp
  | close => exact absurd rfl hclosed
  | detach hq hq' hheap _ hcounts =>
    refine .same rfl hcounts ?_ ?_
    · rw [unread_eq hq, unread_eq hq', hheap]
    · rw [midMessage_iff hq, midMessage_iff hq', hheap]
      exact id
  | swap hq hq' hfresh _ hwritten hpeer =>
    have hall := hswap rfl
    rw [Countable, outbox_eq hq] at hall
    refine .swapped ?_ (by rw [hpeer]) ?_ ?_
    · rw [hwritten, unread_eq hq, msgsWritten_discountWritten _ _ hall]
    · rw [unread_eq hq', complete, hfresh.readable, hfresh.ready]
      rfl
    · rw [midMessage_iff hq', hfresh.unfinished]
      simp

/-! ## The totals behind the counters -/

/-- `_hwm` is reached when `n` messages are outstanding. -/
def Full (hwm : Int) (n : ℕ) : Prop := 0 < hwm ∧ hwm.toNat % 2 ^ 64 ≤ n % 2 ^ 64

/-- `_lwm` makes the reader report when it has read `n` messages. -/
def Due (lwm : Int) (n : ℕ) : Prop := 0 < lwm ∧ n % 2 ^ 64 % (lwm.toNat % 2 ^ 64) = 0

instance (lwm : Int) : DecidablePred (Due lwm) := fun n =>
  inferInstanceAs (Decidable (0 < lwm ∧ n % 2 ^ 64 % (lwm.toNat % 2 ^ 64) = 0))

theorem checkHwm_iff (hw : p.msgsWritten = UInt64.ofNat n) (hp : p.peersMsgsRead = UInt64.ofNat k)
    (hle : k ≤ n) : p.checkHwm = true ↔ ¬ Full p.hwm (n - k) := by
  rw [checkHwm, hw, hp, ← UInt64.ofNat_sub hle]
  simp [Full, UInt64.le_iff_toNat_le, imp_iff_not_or]

theorem notifyDue_iff (hr : p.msgsRead = UInt64.ofNat n) : p.notifyDue = true ↔ Due p.lwm n := by
  rw [notifyDue, hr]
  simp [Due, ← UInt64.toNat_inj]

/-- What a reader sends that has read `n` messages. -/
theorem report_eq (hr : p.msgsRead = UInt64.ofNat n) : (if p.notifyDue then [p.msgsRead] else []) =
      (if Due p.lwm n then [n] else []).map UInt64.ofNat := by
  by_cases hdue : Due p.lwm n
  · rw [if_pos hdue, if_pos ((notifyDue_iff hr).mpr hdue), hr]
    rfl
  · rw [if_neg hdue, if_neg (mt (notifyDue_iff hr).mp hdue)]
    rfl

/-- `v` holds the totals behind the counters of the writer `w` and of its reader. -/
structure Represents (s : PipePair) (w : Side) (v : CreditWindow) : Prop where
  written : (s.pipe w).msgsWritten = UInt64.ofNat v.written
  read : (s.pipe w.peer).msgsRead = UInt64.ofNat v.read
  seen : (s.pipe w).peersMsgsRead = UInt64.ofNat v.seen
  reports : reports (s.mail w) = v.reports.map UInt64.ofNat
  outActive : (s.pipe w).outActive = !v.stopped
  unread : v.written = v.read + s.unread w
  begun : s.MidMessage w → v.begun = true

/-- The totals at the start. -/
def noTotals : CreditWindow :=
  { written := 0, read := 0, seen := 0, reports := [], stopped := false, begun := false }

theorem ordered_noTotals : noTotals.Ordered := ⟨by simp [noTotals], by simp [noTotals], le_rfl⟩

theorem represents_start (hwm₀ hwm₁ : Int) (w : Side) :
    Represents (start hwm₀ hwm₁ false false) w noTotals where
  written := by cases w <;> rfl
  read := by cases w <;> rfl
  seen := by cases w <;> rfl
  reports := by cases w <;> rfl
  outActive := by cases w <;> rfl
  unread := by cases w <;> rfl
  begun := by
    rintro ⟨q, -, hne⟩
    exact absurd (by rw [heap_start, unfinished_new]) hne

section refinement

section
variable (hv : Represents s w v)
include hv

/-- Nothing is written, read or replaced; the writer may get a report, or stop. -/
theorem Represents.quiet (hcounts : SameCounts s s' w) (hunread : s'.unread w = s.unread w)
    (hmid : s'.MidMessage w → s.MidMessage w) (hquiet : g.quiet = true) (hcredit : Credit s s' w g)
    (hroom : (s.pipe w).checkHwm = true ↔ ¬ Full (s.pipe w).hwm v.outstanding) (lossy : Prop) :
    ∃ v', v.Step (Full (s.pipe w).hwm) (Due (s.pipe w.peer).lwm) lossy v' ∧ Represents s' w v' := by
  have hmid' := fun hm => hv.begun (hmid hm)
  have hsum : v.written = v.read + s'.unread w := by rw [hunread, hv.unread]
  cases hcredit with
  | same _ hc =>
    exact ⟨v, .idle, hcounts.written.trans hv.written, hcounts.read.trans hv.read,
      hc.peersMsgsRead.trans hv.seen, hc.reports.trans hv.reports,
      hc.outActive.trans hv.outActive, hsum, hmid'⟩
  | stop hfull hact hpeers hrep =>
    rw [hfull] at hroom
    refine ⟨_, .stop ?_, hcounts.written.trans hv.written, hcounts.read.trans hv.read,
      hpeers.trans hv.seen, hrep.trans hv.reports, hact, hsum, hmid'⟩
    simpa using hroom
  | credit hrep hpeers hact =>
    -- the report at the head of the mailbox is the oldest one of `v`
    have hhead := hv.reports
    rw [hrep] at hhead
    cases hr : v.reports with
    | nil => simp [hr] at hhead
    | cons =>
      rw [hr, map_cons, cons.injEq] at hhead
      exact ⟨_, .credit hr, hcounts.written.trans hv.written, hcounts.read.trans hv.read,
        hpeers.trans hhead.1, hhead.2, hact, hsum, hmid'⟩
  | write | read | swap => cases hquiet

/-- The writer writes a part; only the last one of an ordinary message counts. -/
theorem Represents.wrote
    (hwritten : (s'.pipe w).msgsWritten = ((s.pipe w).countWritten m).msgsWritten)
    (hread : (s'.pipe w.peer).msgsRead = (s.pipe w.peer).msgsRead)
    (hunread : s'.unread w = s.unread w + (if counts m then 1 else 0))
    (hmid : s'.MidMessage w → m.hasMore = true) (hact : (s.pipe w).outActive = true)
    (hroom : ¬ Full (s.pipe w).hwm v.outstanding) (hc : SameCredit s s' w) (lossy : Prop) :
    ∃ v', v.Step (Full (s.pipe w).hwm) (Due (s.pipe w.peer).lwm) lossy v' ∧ Represents s' w v' := by
  have hrun : v.stopped = false := by simpa [hact] using hv.outActive
  cases hm : counts m with
  | true =>
    refine ⟨_, .write hrun hroom, ?_, hread.trans hv.read, hc.peersMsgsRead.trans hv.seen,
      hc.reports.trans hv.reports, hc.outActive.trans hv.outActive, ?_, ?_⟩
    · simp [hwritten, hm, hv.written]
    · simp [hunread, hm, hv.unread, Nat.add_assoc]
    · intro hmore
      simp [counts, hmid hmore] at hm
  | false =>
    refine ⟨_, .writePart m.hasMore hrun hroom, ?_, hread.trans hv.read,
      hc.peersMsgsRead.trans hv.seen, hc.reports.trans hv.reports,
      hc.outActive.trans hv.outActive, ?_, hmid⟩
    · simp [hwritten, hm, hv.written]
    · simp [hunread, hm, hv.unread]

/-- The reader reads a part. It reports whenever its count is due, also when the part has
not changed it. -/
theorem Represents.took (hwritten : (s'.pipe w).msgsWritten = (s.pipe w).msgsWritten)
    (hread : (s'.pipe w.peer).msgsRead = ((s.pipe w.peer).countRead m).msgsRead)
    (hunread : s.unread w = s'.unread w + (if counts m then 1 else 0))
    (hmid : s'.MidMessage w → s.MidMessage w) (hact : (s'.pipe w).outActive = (s.pipe w).outActive)
    (hpeers : (s'.pipe w).peersMsgsRead = (s.pipe w).peersMsgsRead)
    (hrep : PipePair.reports (s'.mail w) = PipePair.reports (s.mail w) ++
      (if ((s.pipe w.peer).countRead m).notifyDue then [((s.pipe w.peer).countRead m).msgsRead]
        else [])) (lossy : Prop) :
    ∃ v', v.Step (Full (s.pipe w).hwm) (Due (s.pipe w.peer).lwm) lossy v' ∧ Represents s' w v' := by
  have hmid' := fun hm => hv.begun (hmid hm)
  cases hm : counts m with
  | true =>
    have hcount : ((s.pipe w.peer).countRead m).msgsRead = UInt64.ofNat (v.read + 1) := by
      simp [hm, hv.read]
    have hsum : v.written = v.read + 1 + s'.unread w := by
      rw [hv.unread, hunread, hm, if_pos rfl]
      omega
    refine ⟨_, .read (by omega), hwritten.trans hv.written, hread.trans hcount,
      hpeers.trans hv.seen, ?_, hact.trans hv.outActive, hsum, hmid'⟩
    rw [hrep, hv.reports, map_append, report_eq hcount]
    rfl
  | false =>
    have hcount : ((s.pipe w.peer).countRead m).msgsRead = UInt64.ofNat v.read := by
      simp [hm, hv.read]
    have hsum : v.written = v.read + s'.unread w := by
      simp [hv.unread, hunread, hm]
    refine ⟨_, .readPart, hwritten.trans hv.written, hread.trans hcount,
      hpeers.trans hv.seen, ?_, hact.trans hv.outActive, hsum, hmid'⟩
    rw [hrep, hv.reports, map_append, report_eq hcount]
    rfl

/-- **The counters refine the flow control of two parties that count without bound.** -/
theorem Represents.outcome (hord : v.Ordered)
    (h : Sound s) (hn : NoConflate s) (hs : Steady s) (ho : Outcome s a r s') (hop : Operating a)
    (hswap : signal s w (a, r) = .swapped → s.Countable w) :
    ∃ v', v.Step (Full (s.pipe w).hwm) (Due (s.pipe w.peer).lwm)
      (signal s w (a, r) = .swapped) v' ∧ Represents s' w v' := by
  have halive := hs.alive h a.side
  have hs' := hs.outcome h hn ho hop
  have htally : Tally s s' w (signal s w (a, r)) := by
    apply (ho.flow h halive hn w).tally h hn hs
    · obtain ⟨q, hq⟩ := hs'.exists_outPipe (h.outcome halive ho) w
      simp [hq]
    · intro hclosed
      obtain ⟨delay, rfl⟩ := signal_closed hclosed
      exact hop
    · exact hswap
  have hcredit := ho.credited h hs hop w
  have hroom : (s.pipe w).checkHwm = true ↔ ¬ Full (s.pipe w).hwm v.outstanding :=
    checkHwm_iff hv.written hv.seen (hord.seen_le.trans hord.read_le)
  generalize signal s w (a, r) = g at htally hcredit ⊢
  cases htally with
  | same hquiet hcounts hunread hmid =>
    exact hv.quiet hcounts hunread hmid hquiet hcredit hroom _
  | wrote hwritten hread hunread hmid =>
    cases hcredit with
    | same hquiet => cases hquiet
    | write hact hcheck hc =>
      exact hv.wrote hwritten hread hunread hmid hact (hroom.mp hcheck) hc _
  | took hwritten hread hunread hmid =>
    cases hcredit with
    | same hquiet => cases hquiet
    | read hact hpeers hrep => exact hv.took hwritten hread hunread hmid hact hpeers hrep _
  | swapped hwritten hread hunread hmid =>
    cases hcredit with
    | same hquiet => cases hquiet
    | swap hact hpeers hrep =>
      -- what was unread has been discarded
      refine ⟨_, .discard rfl, ?_, hread.trans hv.read, hpeers.trans hv.seen,
        hrep.trans hv.reports, hact, ?_, fun hm => absurd hm hmid⟩
      · rw [hwritten, hv.written, hv.unread, UInt64.ofNat_add]
        grind
      · rw [hunread]
        rfl

end
end refinement

/-! ## The watermarks -/

/-- The watermarks that a `pipe_hwm` command carries. -/
def Command.hwms : Command → Option (Int × Int)
  | .pipeHwm inhwm outhwm => some (inhwm, outhwm)
  | _ => none

/-- The watermarks in flight, oldest first. -/
def hwmsInFlight (ch : List Command) : List (Int × Int) := ch.filterMap Command.hwms

/-- The end has kept its watermarks. -/
structure SameMarks (p p' : Pipe) : Prop where
  hwm : p'.hwm = p.hwm
  lwm : p'.lwm = p.lwm
  inHwmBoost : p'.inHwmBoost = p.inHwmBoost
  outHwmBoost : p'.outHwmBoost = p.outHwmBoost

theorem SameMarks.refl (p : Pipe) : SameMarks p p := ⟨rfl, rfl, rfl, rfl⟩

/-- A step, seen from the watermarks. -/
inductive Remarks (s s' : PipePair) : Action → Prop where
  | same {b} : (∀ z, SameMarks (s.pipe z) (s'.pipe z)) →
      (∀ z, hwmsInFlight (s'.mail z) = hwmsInFlight (s.mail z)) → Remarks s s' b
  | update {y i o} : s' = (s.setPipe y ((s.pipe y).setHwms i o)).post y.peer (.pipeHwm o i) →
      Remarks s s' (.updateHwms y i o)
  | deliver {y i o rest} : s.mail y = .pipeHwm i o :: rest →
      s' = (s.popMail y).setPipe y ((s.pipe y).setHwms i o) → Remarks s s' (.deliver y)

/-- Only `set_hwms` changes the watermarks of an end. -/
theorem Outcome.remarks (ho : Outcome s a r s') : Remarks s s' a := by
  have hpipe : ∀ {x : Side} {p : Pipe}, SameMarks (s.pipe x) p →
      ∀ z, SameMarks (s.pipe z) (update s.pipe x p z) := by
    intro x p hp z
    by_cases hz : z = x
    · subst hz
      rw [update_self]
      exact hp
    · rw [update_of_ne hz]
      exact .refl _
  have hstill : ∀ z, SameMarks (s.pipe z) (s.pipe z) := fun z => .refl _
  cases ho with
  | idle | look | unput => exact .same hstill fun _ => rfl
  | sleep | delimiter | full | put | setNodelay | ignored =>
    exact .same (hpipe ⟨rfl, rfl, rfl, rfl⟩) fun _ => rfl
  | take | closeAgain =>
    exact .same (by rw [postIf_pipe]; exact hpipe ⟨rfl, rfl, rfl, rfl⟩) (filterMap_postIf _ _ _ rfl)
  | lastDelimiter | hiccup | giveUp =>
    exact .same (hpipe ⟨rfl, rfl, rfl, rfl⟩) (filterMap_post rfl)
  | publish => exact .same (by rw [postIf_pipe]; exact hstill) (filterMap_postIf _ _ _ rfl)
  | close =>
    exact .same (by rw [postIf_pipe]; exact hpipe ⟨rfl, rfl, rfl, rfl⟩)
      fun z => (filterMap_postIf _ _ _ rfl z).trans (filterMap_post rfl z)
  | marks => exact .update rfl
  | stats => exact .same hstill (filterMap_post rfl)
  | wake hmail | credit hmail | swap hmail | wait hmail =>
    exact .same (hpipe ⟨rfl, rfl, rfl, rfl⟩) (filterMap_pop hmail rfl)
  | answer hmail | answerLast hmail =>
    exact .same (hpipe ⟨rfl, rfl, rfl, rfl⟩)
      fun z => (filterMap_post rfl z).trans (filterMap_pop hmail rfl z)
  | finish hmail | peerStats hmail => exact .same hstill (filterMap_pop hmail rfl)
  | remark hmail => exact .deliver hmail rfl

/-! ## Runs -/

/-- What holds of a pair in operation. -/
structure Working (s : PipePair) : Prop where
  sound : Sound s
  noConflate : NoConflate s
  steady : Steady s

theorem working_start (hwm₀ hwm₁ : Int) : Working (start hwm₀ hwm₁ false false) :=
  ⟨sound_start _ _ _ _, noConflate_start _ _, steady_start _ _⟩

namespace Working

theorem outcome_of_step (h : Working s) (hstep : Step s (a, r) s') : Outcome s a r s' := by
  apply h.sound.outcome_of_step hstep
  cases a with
  | updateHwms x | sendStatsToPeer x =>
    change (s.pipe x).state.acked = false
    rw [h.steady.active x]
    rfl
  | _ => trivial

theorem outcome (h : Working s) (ho : Outcome s a r s') (hop : Operating a) : Working s' :=
  ⟨h.sound.outcome (h.steady.alive h.sound _) ho, h.noConflate.outcome ho,
    h.steady.outcome h.sound h.noConflate ho hop⟩

end Working

/-- The calls that exchange messages: everything but `terminate` and new watermarks. -/
def Action.exchange : Action → Bool
  | .terminate _ _ | .updateHwms _ _ _ => false
  | _ => true

/-- The conditions under which all places count alike. `write` counts credentials and
`read` does not; `process_hiccup` takes routing ids off that `write` has not counted. -/
def Accountable (s : PipePair) : Action → Prop
  | .write _ m => m.isCredential = false
  | .deliver x => s.hiccupNext x = true → s.Countable x
  | _ => True

/-- Nobody changes the marks, if no change is in flight. -/
theorem Outcome.sameMarks (ho : Outcome s a r s') (hnone : ∀ z, hwmsInFlight (s.mail z) = [])
    (ha : ∀ y i o, a ≠ .updateHwms y i o) :
    (∀ z, SameMarks (s.pipe z) (s'.pipe z)) ∧ ∀ z, hwmsInFlight (s'.mail z) = [] := by
  cases ho.remarks with
  | same h1 h2 => exact ⟨h1, fun z => (h2 z).trans (hnone z)⟩
  | update => exact absurd rfl (ha _ _ _)
  | @deliver y _ _ _ hmail =>
    have := hnone y
    rw [hmail] at this
    cases this

theorem operating_of_exchange (h : a.exchange = true) (ha : s.Accountable a) : Operating a := by
  cases a with
  | terminate => cases h
  | write => exact ha
  | _ => trivial

/-- The counters of the writer `w` and its reader after `steps` steps. -/
structure Accounted (s : PipePair) (w : Side) (steps : ℕ) : Prop where
  /-- Written minus read is what is unread, in 64-bit arithmetic. -/
  balance : (s.pipe w).msgsWritten - (s.pipe w.peer).msgsRead = UInt64.ofNat (s.unread w)
  /-- The same in plain numbers, for as long as no counter has gone through `2^64`. -/
  exactly : steps < 2 ^ 64 →
    (s.pipe w).msgsWritten.toNat = (s.pipe w.peer).msgsRead.toNat + s.unread w
  /-- `process_hiccup` never counts below zero. -/
  noWrap : steps < 2 ^ 64 → s.hiccupNext w = true → s.Accountable (.deliver w) →
    (s.outbox w).countP (fun m => !m.hasMore) ≤ (s.pipe w).msgsWritten.toNat
  /-- The reader has read everything, and its count has arrived. -/
  drained : s.unread w = 0 → (s.pipe w).peersMsgsRead = (s.pipe w.peer).msgsRead →
    (s.pipe w).msgsWritten = (s.pipe w).peersMsgsRead
  /-- The same when its count was one to be sent and no report is on its way. -/
  reported : s.unread w = 0 → (s.pipe w.peer).notifyDue = true →
    (∀ n, .activateWrite n ∉ s.mail w) → (s.pipe w).msgsWritten = (s.pipe w).peersMsgsRead

/-- The invariant behind `Accounted`. -/
structure Totals (s : PipePair) (steps : ℕ) : Prop where
  working : Working s
  marks : ∀ z, hwmsInFlight (s.mail z) = []
  totals : ∀ w, ∃ v, Represents s w v ∧ v.Ordered ∧ v.CaughtUp (Due (s.pipe w.peer).lwm) ∧
    v.written ≤ steps

namespace Totals

theorem outcome (h : Totals s n) (ho : Outcome s a r s') (hex : a.exchange = true)
    (hacc : s.Accountable a) : Totals s' (n + 1) := by
  have hop := operating_of_exchange hex hacc
  obtain ⟨hsame, hmarks⟩ := ho.sameMarks h.marks (by rintro _ _ _ rfl; cases hex)
  refine ⟨h.working.outcome ho hop, hmarks, fun w => ?_⟩
  obtain ⟨v, hv, hord, hcaught, hle⟩ := h.totals w
  have hswap : signal s w (a, r) = .swapped → s.Countable w := by
    intro hg
    obtain ⟨rfl, hnext⟩ := signal_swapped hg
    exact hacc hnext
  obtain ⟨v', hstep, hv'⟩ :=
    hv.outcome hord h.working.sound h.working.noConflate h.working.steady ho hop hswap
  refine ⟨v', hv', hord.step hstep, ?_, ?_⟩
  · rw [(hsame w.peer).lwm]
    exact hcaught.step hstep
  · exact (hstep.written_le hord).trans (Nat.succ_le_succ hle)

theorem accounted (h : Totals s n) (w : Side) : Accounted s w n := by
  obtain ⟨v, hv, hord, hcaught, hle⟩ := h.totals w
  have hbalance :
      (s.pipe w).msgsWritten = (s.pipe w.peer).msgsRead + UInt64.ofNat (s.unread w) := by
    rw [hv.written, hv.read, hv.unread, UInt64.ofNat_add]
  have hexact : n < 2 ^ 64 →
      (s.pipe w).msgsWritten.toNat = (s.pipe w.peer).msgsRead.toNat + s.unread w := by
    intro hn
    have hlt : v.written < UInt64.size := hle.trans_lt hn
    rw [hv.written, hv.read, UInt64.toNat_ofNat_of_lt' hlt,
      UInt64.toNat_ofNat_of_lt' (hord.read_le.trans_lt hlt), hv.unread]
  have hdrained : s.unread w = 0 → (s.pipe w).peersMsgsRead = (s.pipe w.peer).msgsRead →
      (s.pipe w).msgsWritten = (s.pipe w).peersMsgsRead := by
    intro h0 hp
    rw [hbalance, hp, h0]
    simp
  refine ⟨?_, hexact, ?_, hdrained, ?_⟩
  · grind
  · intro hn hnext hacc
    have hall : (s.outbox w).countP (fun m => !m.hasMore) = s.unread w := by
      apply countP_congr
      intro m hm
      rcases hacc hnext m hm with e | e <;> simp [counts, e]
    rw [hall, hexact hn]
    exact Nat.le_add_left _ _
  · intro h0 hdue hnone
    apply hdrained h0
    have hnil : v.reports = [] := by
      simpa [reports_eq_nil hnone] using hv.reports
    rw [hv.seen, hv.read, ← hcaught ((notifyDue_iff hv.read).mp hdue),
      CreditWindow.lastReport_nil hnil]

end Totals

theorem totals_start (hwm₀ hwm₁ : Int) : Totals (start hwm₀ hwm₁ false false) 0 where
  working := working_start _ _
  marks z := by cases z <;> rfl
  totals w := ⟨noTotals, represents_start _ _ w, ordered_noTotals, fun _ => rfl, le_rfl⟩

/-- **Flow-control accounting**, in runs in which all places count alike. -/
theorem accounting_exact {hwm₀ hwm₁ : Int} {tr : List (Action × Reply)}
    (h : Exec (Guarded Step fun s l => l.1.exchange = true ∧ s.Accountable l.1)
      (start hwm₀ hwm₁ false false) tr s) (w : Side) : Accounted s w tr.length := by
  apply Totals.accounted
  refine h.invariant_trace (fun l t => Totals t l.length) ?_ (totals_start _ _)
  rintro l b ⟨act, rep⟩ c hb ⟨hstep, hex, hacc⟩
  rw [length_append]
  exact hb.outcome (hb.working.outcome_of_step hstep) hex hacc

instance (s : PipePair) (a : Action) : Decidable (s.Accountable a) := by
  rcases a <;> dsimp only [Accountable, Countable] <;> infer_instance

/-- One message is read and one is lost in a `hiccup`. -/
theorem accounting_exact_after_hiccup :
    ∃ tr s, Exec (Guarded Step fun s l => l.1.exchange = true ∧ s.Accountable l.1)
        (start 2 2 false false) tr s ∧
      (s.pipe .first).msgsWritten = 1 ∧ Accounted s .first tr.length := by
  refine exists_exec_with step_of_next (fun s => (s.pipe .first).msgsWritten = 1)
    [.write .first .init, .flush .first, .read .second, .write .first .init, .hiccup .second,
      .deliver .first, .deliver .first] (by decide +kernel) ?_
  intro _ _ hexec hwritten
  exact ⟨hwritten, accounting_exact hexec .first⟩

/-- A message of `write_credential`, with a user id of one byte. -/
def credential : Msg := { Msg.init with flags := MsgFlag.credential, data := [0] }

/-- A message of `send_routing_id`. -/
def routingId : Msg := { Msg.init with flags := MsgFlag.routingId }

/-- Credentials that have been read stay outstanding, and a routing id that is lost in a
`hiccup` takes `_msgs_written` below zero. In both runs nothing is left in a queue or in
flight. -/
theorem uncounted_messages_drift :
    (∃ tr s, Exec (Guarded Step fun _ l => l.1.exchange = true) (start 1 1 false false) tr s ∧
      s.outbox .first = [] ∧ s.mail .first = [] ∧ s.mail .second = [] ∧
      (s.pipe .first).msgsWritten = 1 ∧ (s.pipe .second).msgsRead = 0 ∧
      (s.pipe .first).checkHwm = false) ∧
    ∃ tr s, Exec (Guarded Step fun _ l => l.1.exchange = true) (start 1 1 false false) tr s ∧
      s.outbox .first = [] ∧ s.mail .first = [] ∧ s.mail .second = [] ∧
      (s.pipe .first).msgsWritten.toNat = 2 ^ 64 - 1 ∧ (s.pipe .second).msgsRead = 0 ∧
      (s.pipe .first).checkHwm = false := by
  constructor
  · exact exists_exec [.write .first credential, .flush .first, .read .second] (by decide +kernel)
  · exact exists_exec [.write .first routingId, .hiccup .second, .deliver .first]
      (by decide +kernel)

end PipePair
end LibZmq
