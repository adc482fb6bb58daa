import LibZmq.Socket.Xpub

/-!
# Delivery to subscribers

A message goes to the pipes that are attached and writable when its first part is sent and
that are subscribed to a prefix of this part; with inverted matching, to those that are not
subscribed. `audience` says so from the outside, with the subscriptions that the peers have
made.

* `exact_delivery`: every part that is accepted is written to its audience and to no other
  pipe, and a part that is refused changes nothing, as long as no refused part has left a pipe
  behind that is marked as matching and not subscribed to the next one (`Settled`).
* `refused_part_misdirects`: a message is delivered to a pipe whose topic was that of an earlier
  message, which was refused because the pipe was full.
-/

namespace LibZmq

open LibZmq.Core PipePair List Finset

/-- A publisher, its pipes and what has been asked of it. -/
structure XpubNet where
  xpub : Xpub
  channels : Channels
  /-- The topics and the pipes that are subscribed to them. -/
  subs : Finset (Bytes × PipeId)
  /-- The parts of the message that is being sent. -/
  opened : List Msg
  /-- The attached pipes that have taken all of them. -/
  recipients : List PipeId

namespace XpubNet

inductive Act where
  | attach (p : PipeId) (subscribeToAll : Bool)
  | pipe (p : PipeId) (a : PipePair.Action)
  | xsend (m : Msg)
  | xrecv
  | setOption (o : Xpub.Opt) (value : Int)
  | setWelcomeMsg (data : Bytes)
  | setInvertMatching (on : Bool)
deriving DecidableEq, Repr

def initial (isPub : Bool) (hwm₀ hwm₁ : PipeId → Int) : XpubNet :=
  { xpub := .new isPub
    channels := fun p => .start (hwm₀ p) (hwm₁ p)
    subs := ∅
    opened := []
    recipients := [] }

/-- The first part `m` of a message selects pipe `q`. -/
def Selects (n : XpubNet) (m : Msg) (q : PipeId) : Prop :=
  n.xpub.invertMatching = false ↔ Xpub.Subscribed n.subs m.data q

instance (n : XpubNet) (m : Msg) (q : PipeId) : Decidable (n.Selects m q) :=
  inferInstanceAs (Decidable (_ ↔ _))

/-- The pipes to which the part `m` has to be written. -/
def audience (n : XpubNet) (m : Msg) : List PipeId :=
  (if n.xpub.moreSend then n.recipients
    else n.xpub.dist.pipes.items.filter fun q => n.Selects m q).filter
      fun q => (n.channels q).Writable

/-- The publisher is told of an event of pipe `p`. -/
def tell (p : PipeId) (n : XpubNet) (e : PipeEvent) : Except Failure XpubNet := do
  let (x, cs, requests) ← n.xpub.handle n.channels p e
  .ok { n with
    xpub := x
    channels := cs
    subs := if e = .pipeTerminated then n.subs.filter fun e => e.2 ≠ p
      else requests.foldl (Request.apply p) n.subs
    recipients := n.recipients.filter fun q => q ∈ x.dist.pipes }

/-- The outcome of `xsend`. -/
def pass (n : XpubNet) (m : Msg) (ok : Bool) (x : Xpub) (cs : Channels) : XpubNet :=
  if ok then
    { n with
      xpub := x
      channels := cs
      opened := if m.hasMore then n.opened ++ [m] else []
      recipients := n.audience m }
  else { n with xpub := x, channels := cs }

def next (n : XpubNet) : Act → Except Failure XpubNet
  | .attach p all => do
      let (x, cs, requests) ← n.xpub.xattachPipe n.channels p all
      .ok { n with
        xpub := x
        channels := cs
        subs := requests.foldl (Request.apply p) (if all then insert ([], p) n.subs else n.subs) }
  | .pipe p a => do
      let (ev, cs) ← n.channels.act p a
      ev.foldlM (tell p) { n with channels := cs }
  | .xsend m => do
      let (ok, x, cs) ← n.xpub.xsend n.channels m
      .ok (n.pass m ok x cs)
  | .xrecv => .ok { n with xpub := n.xpub.xrecv.2 }
  | .setOption o value => .ok { n with xpub := (n.xpub.setOption o value).getD n.xpub }
  | .setWelcomeMsg data => .ok { n with xpub := n.xpub.setWelcomeMsg data }
  | .setInvertMatching on => .ok { n with xpub := { n.xpub with invertMatching := on } }

/-- A pipe is attached once, and lives until the publisher is told that it is terminated. Only
the publisher reads and writes its end, and nobody replaces its queue. The manual mode is not
used. -/
def Enabled (n : XpubNet) : Act → Prop
  | .attach p _ => p ∉ n.xpub.dist.pipes ∧ ¬ (n.channels p).gone
  | .pipe p a => (n.channels p).pair.Enabled a ∧
      (a.side = .first → p ∈ n.xpub.dist.pipes ∧ a.reads = false ∧ a.writes = false) ∧
      a ≠ .hiccup .second ∧
      (a = .deliver .first → (n.channels p).pair.hiccupNext .first = false)
  | .xsend m => m.isDelimiter = false ∧ m.isCredential = false
  | .setOption o _ => o ≠ .manual ∧ o ≠ .manualLastValue
  | .xrecv | .setWelcomeMsg _ | .setInvertMatching _ => True

def Step (n : XpubNet) (a : Act) (n' : XpubNet) : Prop := n.Enabled a ∧ n.next a = .ok n'

/-- A pipe that a refused part has left behind as matching is subscribed to the next message, if
it can be written to. -/
def Settled (n : XpubNet) : Act → Prop
  | .xsend m => n.xpub.moreSend = false → ∀ q, n.xpub.dist.Matching q →
      (n.channels q).Writable → Xpub.Subscribed n.subs m.data q
  | _ => True

/-- The part `m` was written to its audience and to no other pipe. -/
structure Delivered (n : XpubNet) (m : Msg) (n' : XpubNet) : Prop where
  parts : ∀ q, (n'.channels q).parts =
    (n.channels q).parts ++ if q ∈ n.audience m then [m] else []
  /-- The pipes of the audience have the message up to here. -/
  whole : ∀ q ∈ n.audience m, n.opened ++ [m] <:+ (n'.channels q).parts

/-- The part `m` was refused. -/
structure Unaffected (n n' : XpubNet) : Prop where
  channels : n'.channels = n.channels
  subs : n'.subs = n.subs
  opened : n'.opened = n.opened
  audience : ∀ m q, q ∈ n'.audience m ↔ q ∈ n.audience m

variable {n n' : XpubNet} {m : Msg} {p q : PipeId}

theorem mem_audience : q ∈ n.audience m ↔ (n.channels q).Writable ∧
    (if n.xpub.moreSend then q ∈ n.recipients else q ∈ n.xpub.dist.pipes ∧ n.Selects m q) := by
  rw [audience, mem_filter, decide_eq_true_iff, and_comm]
  refine and_congr_right fun _ => ?_
  split
  · rfl
  · rw [mem_filter, decide_eq_true_iff]
    rfl

/-! ## The invariant -/

/-- The trie holds the subscriptions of the attached pipes. -/
structure Topics (n : XpubNet) : Prop where
  represents : n.xpub.subscriptions.Represents n.subs
  subscribers : ∀ e ∈ n.subs, e.2 ∈ n.xpub.dist.pipes
  manual : n.xpub.manual = false

/-- The message that is being sent, if there is one. -/
structure Midway (n : XpubNet) : Prop where
  between : n.xpub.moreSend = false → n.opened = []
  matching : n.xpub.moreSend = true → ∀ q, n.xpub.dist.Matching q ↔ q ∈ n.recipients
  whole : ∀ q ∈ n.recipients, (n.channels q).pipe.state = .active →
    n.opened <:+ (n.channels q).parts

structure Inv (n : XpubNet) : Prop where
  tracks : n.xpub.dist.Tracks n.channels
  more : n.xpub.dist.more = n.xpub.moreSend
  topics : n.Topics
  midway : n.Midway

theorem inv_initial (isPub : Bool) (hwm₀ hwm₁ : PipeId → Int) : (initial isPub hwm₀ hwm₁).Inv where
  tracks := ⟨Dist.nested_new, nofun, fun _ _ => iff_of_true rfl nofun⟩
  more := rfl
  topics := ⟨Mtrie.represents_new, nofun, rfl⟩
  midway := ⟨fun _ => rfl, nofun, nofun⟩

theorem Midway.keep (h : n.Midway) (hopened : n'.opened = n.opened)
    (hmore : n'.xpub.moreSend = n.xpub.moreSend)
    (hmatch : n.xpub.moreSend = true → ∀ q, n'.xpub.dist.Matching q ↔ q ∈ n'.recipients)
    (hparts : n.xpub.moreSend = true → ∀ q ∈ n'.recipients, (n'.channels q).pipe.state = .active →
      q ∈ n.recipients ∧ (n.channels q).pipe.state = .active ∧
        (n'.channels q).parts = (n.channels q).parts) : n'.Midway := by
  refine ⟨fun hno => ?_, fun hyes => hmatch (hmore ▸ hyes), fun q hq hst => ?_⟩
  · rw [hopened]
    exact h.between (hmore ▸ hno)
  · rw [hopened]
    by_cases hmid : n.xpub.moreSend = true
    · obtain ⟨hq', hst', heq⟩ := hparts hmid q hq hst
      rw [heq]
      exact h.whole q hq' hst'
    · rw [h.between (by simpa using hmid)]
      exact nil_suffix

theorem mem_foldl_apply {requests : List Request} {subs : Finset (Bytes × PipeId)}
    (h : e ∈ requests.foldl (Request.apply p) subs) : e ∈ subs ∨ e.2 = p := by
  induction requests generalizing subs with
  | nil => exact .inl h
  | cons r _ ih =>
    rcases ih h with h | h
    · rw [Request.apply] at h
      split at h
      · rcases mem_insert.mp h with rfl | h
        · exact .inr rfl
        · exact .inl h
      · exact .inl (mem_of_mem_erase h)
    · exact .inr h

section
variable (h : n.Inv) {cs : Channels}
include h

theorem Inv.attach {all : Bool} (hen : n.Enabled (.attach p all))
    (hnext : n.next (.attach p all) = .ok n') : n'.Inv := by
  obtain ⟨⟨x, cs', requests⟩, hcall, ⟨⟩⟩ := bind_ok hnext
  obtain ⟨halike, hg, hrep, hothers, hgone, hkeeps⟩ := Xpub.xattachPipe_spec
    h.topics.represents h.topics.manual h.tracks.nested hen.1 hen.2 hcall
  refine ⟨?_, ?_, ⟨hrep, fun e he => ?_, halike.manual.trans h.topics.manual⟩, ?_⟩
  · refine h.tracks.update hg.nested (fun q hq => ?_) (fun q hq => ?_) hothers (fun _ => hgone)
      fun hst => ?_
    · rw [hg.mem, or_iff_left hq]
    · rw [hg.eligible, or_iff_left hq]
    · obtain ⟨hst', hout⟩ := hkeeps hst
      rw [hout, h.tracks.agrees p hst', hg.eligible]
      exact iff_of_true (fun hp => absurd hp hen.1) fun _ => .inr rfl
  · rw [hg.more, h.more]
    exact halike.moreSend.symm
  · rw [hg.mem]
    rcases mem_foldl_apply he with he | he
    · split at he
      · rcases mem_insert.mp he with rfl | he
        · exact .inr rfl
        · exact .inl (h.topics.subscribers e he)
      · exact .inl (h.topics.subscribers e he)
    · exact .inr he
  · refine h.midway.keep rfl halike.moreSend (fun hmid q => ?_) fun hmid q hq hst => ?_
    · rw [hg.matching]
      exact h.midway.matching hmid q
    · have hne : q ≠ p := by
        rintro rfl
        exact hen.1 ((h.midway.matching hmid q).mpr hq).1
      simp only [hothers q hne] at hst ⊢
      exact ⟨hq, hst, trivial⟩

/-- The pipes that match are still there. -/
theorem Inv.mem_recipients {d : Dist} (hmid : n.xpub.moreSend = true)
    (hmem : ∀ q, q ∈ d.pipes ↔ q ∈ n.xpub.dist.pipes) :
    n.xpub.dist.Matching q ↔ q ∈ n.recipients.filter fun q => q ∈ d.pipes := by
  rw [mem_filter, decide_eq_true_iff, hmem, h.midway.matching hmid]
  exact ⟨fun hq => ⟨hq, ((h.midway.matching hmid q).mpr hq).1⟩, And.left⟩

/-- An event that does not change the groups of pipes. -/
theorem Inv.tell {e : PipeEvent} (hp : p ∈ n.xpub.dist.pipes)
    (hw : e ≠ .writeActivated) (ht : e ≠ .pipeTerminated) (hok : tell p n e = .ok n') : n'.Inv := by
  have hreads : ∃ requests, Xpub.Reads n.xpub n.channels p n.subs n'.xpub n'.channels requests ∧
      n' = { n with
        xpub := n'.xpub
        channels := n'.channels
        subs := requests.foldl (Request.apply p) n.subs
        recipients := n.recipients.filter fun q => q ∈ n'.xpub.dist.pipes } := by
    simp only [XpubNet.tell, if_neg ht] at hok
    obtain ⟨⟨x, cs, requests⟩, hcall, ⟨⟩⟩ := bind_ok hok
    refine ⟨requests, ?_, rfl⟩
    cases e with
    | readActivated =>
      exact Xpub.readLoop_spec h.topics.represents h.topics.manual (h.tracks.alive p hp) hcall
    | writeActivated => exact absurd rfl hw
    | pipeTerminated => exact absurd rfl ht
    | hiccuped | statsPublish =>
      cases hcall
      exact .refl h.topics.represents
  obtain ⟨requests, hr, heq⟩ := hreads
  have hdist := hr.alike.dist
  rw [heq]
  refine ⟨?_, ?_, ⟨hr.represents, fun e he => ?_, hr.alike.manual.trans h.topics.manual⟩, ?_⟩
  · simp only [hdist]
    exact h.tracks.keeps hr.others hr.quiet.alive hr.quiet.keepsOut
  · simp only [hdist, hr.alike.moreSend]
    exact h.more
  · simp only [hdist]
    rcases mem_foldl_apply he with he | he
    · exact h.topics.subscribers e he
    · exact he ▸ hp
  · refine h.midway.keep rfl hr.alike.moreSend (fun hmid q => ?_) fun hmid q hq hst => ?_
    · simp only [hdist]
      exact h.mem_recipients hmid fun _ => .rfl
    · refine ⟨mem_of_mem_filter hq, ?_⟩
      rcases eq_or_ne q p with rfl | hne
      · exact ⟨hr.quiet.state hst, hr.quiet.parts hst⟩
      · simp only [hr.others q hne] at hst ⊢
        exact ⟨hst, trivial⟩

section
variable (hothers : ∀ q, q ≠ p → cs q = n.channels q)
  (hparts : (cs p).pipe.state = .active → (cs p).parts = (n.channels p).parts)
include hothers hparts

/-- A pipe has changed, but can be written to as before. -/
theorem Inv.keeps (hgone : (cs p).gone → (n.channels p).gone)
    (hkeeps : KeepsOut (n.channels p).pipe (cs p).pipe) : Inv { n with channels := cs } := by
  refine ⟨h.tracks.keeps hothers hgone hkeeps, h.more, { h.topics with },
    h.midway.keep rfl rfl h.midway.matching fun _ q hq hst => ⟨hq, ?_⟩⟩
  rcases eq_or_ne q p with rfl | hne
  · exact ⟨(hkeeps hst).1, hparts hst⟩
  · simp only [hothers q hne] at hst ⊢
    exact ⟨hst, trivial⟩

theorem Inv.activated (hp : p ∈ n.xpub.dist.pipes) (hgone : ¬ (cs p).gone)
    (hst : (n.channels p).pipe.state = .active) (hout : (n.channels p).pipe.outActive = false)
    (hout' : (cs p).pipe.outActive = true)
    (hok : XpubNet.tell p { n with channels := cs } .writeActivated = .ok n') : n'.Inv := by
  have hpassive : ¬ n.xpub.dist.Eligible p := by
    intro helig
    have := (h.tracks.agrees p hst).mpr fun _ => helig
    rw [hout] at this
    cases this
  obtain ⟨d, hd, hg⟩ := Dist.activated_spec h.tracks.nested hp hpassive
  simp only [XpubNet.tell, Xpub.handle, Xpub.xwriteActivated, hd] at hok
  cases hok
  refine ⟨?_, hg.more.trans h.more, ⟨h.topics.represents, fun e he => ?_, h.topics.manual⟩, ?_⟩
  · refine h.tracks.update hg.nested (fun q _ => hg.mem q) (fun q hq => ?_) hothers (fun _ => hgone)
      fun _ => ?_
    · rw [hg.eligible, or_iff_left hq]
    · rw [hout', hg.eligible]
      simp
  · exact (hg.mem _).mpr (h.topics.subscribers e he)
  · refine h.midway.keep rfl rfl (fun hmid q => ?_) fun hmid q hq hst' =>
      ⟨mem_of_mem_filter hq, ?_⟩
    · rw [hg.matching]
      exact h.mem_recipients hmid hg.mem
    · rcases eq_or_ne q p with rfl | hne
      · exact ⟨hst, hparts hst'⟩
      · simp only [hothers q hne] at hst' ⊢
        exact ⟨hst', trivial⟩

end

theorem Inv.terminated (hp : p ∈ n.xpub.dist.pipes)
    (hothers : ∀ q, q ≠ p → cs q = n.channels q) (hst : (cs p).pipe.state ≠ .active)
    (hok : XpubNet.tell p { n with channels := cs } .pipeTerminated = .ok n') : n'.Inv := by
  obtain ⟨x, hx, halike, hg, hrep⟩ := Xpub.xpipeTerminated_spec
    h.topics.represents h.topics.manual h.tracks.nested hp
  simp only [XpubNet.tell, Xpub.handle, hx] at hok
  cases hok
  refine ⟨?_, ?_, ⟨hrep, fun e he => ?_, halike.manual.trans h.topics.manual⟩, ?_⟩
  · refine h.tracks.update hg.nested (fun q hq => ?_) (fun q hq => ?_) hothers (fun hp' => ?_)
      fun hst' => absurd hst' hst
    · rw [hg.mem, and_iff_left hq]
    · rw [hg.eligible, and_iff_left hq]
    · exact absurd rfl ((hg.mem p).mp hp').2
  · rw [hg.more, h.more]
    exact halike.moreSend.symm
  · obtain ⟨he, hne⟩ := mem_filter.mp he
    exact (hg.mem _).mpr ⟨h.topics.subscribers e he, hne⟩
  · refine h.midway.keep rfl halike.moreSend (fun hmid q => ?_) fun hmid q hq hst' =>
      ⟨mem_of_mem_filter hq, ?_⟩
    · rw [hg.matching, h.midway.matching hmid, mem_filter, decide_eq_true_iff, hg.mem]
      exact and_congr_right fun hq =>
        (and_iff_right ((h.midway.matching hmid q).mpr hq).1).symm
    · have hne : q ≠ p := by
        rintro rfl
        exact hst hst'
      simp only [hothers q hne] at hst' ⊢
      exact ⟨hst', trivial⟩

theorem Inv.pipe (hen : n.Enabled (.pipe p a)) (hnext : n.next (.pipe p a) = .ok n') : n'.Inv := by
  obtain ⟨hpair, hfirst, -, hhic⟩ := hen
  obtain ⟨⟨ev, cs⟩, hact, hnext⟩ := bind_ok hnext
  have hwrites : a.side = .first → a.writes = false := fun hside => (hfirst hside).2.2
  obtain ⟨r, hc, htold, hside⟩ := Channels.act_told hwrites hhic hpair hact
  have hothers : ∀ q, q ≠ p → cs q = n.channels q := fun q hq => hc.channel_of_ne hq
  cases htold with
  | quiet hev hgone hkeeps =>
    have h₁ := h.keeps hothers (hc.unwritten hwrites p).parts hgone.mp hkeeps
    rcases hev with rfl | ⟨e, rfl, hw, ht⟩
    · cases hnext
      exact h₁
    · simp only [foldlM_singleton] at hnext
      exact h₁.tell (hfirst (hside (by simp))).1 hw ht hnext
  | writable hout hst hout' hgone =>
    simp only [foldlM_singleton] at hnext
    have hp := (hfirst (hside (by simp))).1
    exact h.activated hothers (hc.unwritten hwrites p).parts hp
      (fun hg => h.tracks.alive p hp (hgone.mp hg)) hst hout hout' hnext
  | terminated _ _ hst =>
    simp only [foldlM_singleton] at hnext
    exact h.terminated (hfirst (hside (by simp))).1 hothers hst hnext

/-! ## Sending -/

/-- The chosen pipes are the audience exactly if the leftovers do no harm. -/
theorem Inv.settled_iff (m : Msg) :
    n.Settled (.xsend m) ↔ ∀ q, n.xpub.Chosen n.subs m q ∧ (n.channels q).Writable ↔
      q ∈ n.audience m := by
  have heligible : ∀ {q}, n.xpub.dist.Matching q → n.xpub.dist.Eligible q := fun hq =>
    h.tracks.nested.eligible_of_active (h.tracks.nested.active_of_matching hq)
  by_cases hmid : n.xpub.moreSend = true
  · refine iff_of_true (fun hno => absurd hmid (by simp [hno])) fun q => ?_
    rw [mem_audience, Xpub.Chosen, if_pos hmid, if_pos hmid, h.midway.matching hmid, and_comm]
  have hfirst : n.xpub.moreSend = false := by simpa using hmid
  simp only [mem_audience, Xpub.Chosen, Settled, hfirst, Bool.false_eq_true, if_false,
    true_implies, Selects]
  constructor
  · intro hs q
    constructor
    · rintro ⟨⟨he, hchosen⟩, hw⟩
      refine ⟨hw, he.1, hchosen.trans ⟨?_, .inr⟩⟩
      rintro (hq | hq)
      · exact hs q hq hw
      · exact hq
    · rintro ⟨hw, hq, hsel⟩
      refine ⟨⟨h.tracks.eligible_of_writable hq hw, hsel.trans ⟨.inr, ?_⟩⟩, hw⟩
      rintro (hq | hq)
      · exact hs q hq hw
      · exact hq
  · intro hall q hq hw
    have hiff := hall q
    simp only [heligible hq, hq, hq.1, hw] at hiff
    cases hinv : n.xpub.invertMatching with
    | false | true => simpa [hinv] using hiff

end

section sends
variable {x : Xpub} {cs : Channels} {ok : Bool}
  (hg : n.xpub.dist.Groups d (· ∈ n.xpub.dist.pipes) (n.xpub.Chosen n.subs m)
    n.xpub.dist.Active n.xpub.dist.Eligible)
include hg

theorem parts_of_distributes (hd : d.Distributes n.channels m d' cs) (q : PipeId) :
    (n.xpub.Chosen n.subs m q ∧ (n.channels q).Writable →
        (cs q).parts = (n.channels q).parts ++ [m]) ∧
      (¬ (n.xpub.Chosen n.subs m q ∧ (n.channels q).Writable) →
        (cs q).parts = (n.channels q).parts) := by
  constructor
  · rintro ⟨hq, hw⟩
    rw [(hd.each q ((hg.matching q).mpr hq)).parts, if_pos hw]
  · intro hno
    by_cases hq : d.Matching q
    · have hw : ¬ (n.channels q).Writable := fun hw => hno ⟨(hg.matching q).mp hq, hw⟩
      rw [(hd.each q hq).parts, if_neg hw, append_nil]
    · rw [hd.others q hq]

/-- An accepted part is delivered exactly if the leftovers do no harm. -/
theorem Inv.delivered_iff (h : n.Inv) (hs : n.xpub.Sends n.channels m d true x cs) :
    n.Delivered m (n.pass m true x cs) ↔ n.Settled (.xsend m) := by
  cases hs with
  | accepted _ hd =>
    have hparts := parts_of_distributes hg hd
    rw [h.settled_iff]
    constructor
    · intro hdel q
      have hq : (cs q).parts = (n.channels q).parts ++ if q ∈ n.audience m then [m] else [] :=
        hdel.parts q
      constructor
      · intro hleft
        rw [(hparts q).1 hleft] at hq
        by_contra hno
        simp [hno] at hq
      · intro hright
        by_contra hno
        rw [(hparts q).2 hno, if_pos hright] at hq
        simp at hq
    · intro hiff
      have hsame : ∀ q, (cs q).parts =
          (n.channels q).parts ++ if q ∈ n.audience m then [m] else [] := fun q => by
        by_cases hq : q ∈ n.audience m
        · rw [(hparts q).1 ((hiff q).mpr hq), if_pos hq]
        · rw [(hparts q).2 (mt (hiff q).mp hq), if_neg hq, append_nil]
      refine ⟨hsame, fun q hq => ?_⟩
      show n.opened ++ [m] <:+ (cs q).parts
      rw [hsame q, if_pos hq, suffix_append_inj_of_length_eq rfl]
      refine ⟨?_, rfl⟩
      obtain ⟨hw, hwho⟩ := mem_audience.mp hq
      -- in the middle of a message the parts before this one have arrived, too
      by_cases hmid : n.xpub.moreSend = true
      · rw [if_pos hmid] at hwho
        exact h.midway.whole q hwho hw.1
      · rw [h.midway.between (by simpa using hmid)]
        exact nil_suffix

/-- A refused part does not change what will happen to the next one. -/
theorem unaffected_of_refused (hs : n.xpub.Sends n.channels m d false x cs) :
    n.Unaffected (n.pass m false x cs) := by
  cases hs with
  | refused =>
    refine ⟨rfl, rfl, rfl, fun _ q => ?_⟩
    rw [mem_audience, mem_audience]
    simp [pass, Selects, hg.mem]

theorem Inv.pass (h : n.Inv) (hset : n.Settled (.xsend m))
    (hs : n.xpub.Sends n.channels m d ok x cs) : (n.pass m ok x cs).Inv := by
  cases ok with
  | false =>
    cases hs with
    | refused =>
      refine ⟨h.tracks.groups hg, hg.more.trans h.more, ⟨h.topics.represents, fun e he => ?_,
        h.topics.manual⟩, h.midway.keep rfl rfl (fun hmid q => ?_) fun _ q hq hst => ⟨hq, hst, rfl⟩⟩
      · exact (hg.mem _).mpr (h.topics.subscribers e he)
      · refine (hg.matching q).trans ?_
        rw [Xpub.Chosen, if_pos hmid]
        exact h.midway.matching hmid q
  | true =>
    have hdel := (h.delivered_iff hg hs).mpr hset
    have hwho := (h.settled_iff m).mp hset
    cases hs with
    | @accepted d' _ _ hd =>
      have htracks := (h.tracks.groups hg).distributes hd
      refine ⟨?_, ?_, ⟨h.topics.represents, fun e he => ?_, h.topics.manual⟩,
        ⟨fun hlast => ?_, fun hmore q => ?_, fun q hq _ => ?_⟩⟩
      · cases m.hasMore with
        | true => exact htracks
        | false => exact ⟨htracks.nested.unmatch, htracks.alive, htracks.agrees⟩
      · have hmore := hd.more
        cases hm : m.hasMore with
        | true => simpa [pass, hm] using hmore
        | false => simpa [pass, hm, Dist.unmatch] using hmore
      · have hmem : e.2 ∈ d'.pipes :=
          (hd.mem _).mpr ((hg.mem _).mpr (h.topics.subscribers e he))
        cases hm : m.hasMore <;> simpa [pass, Dist.unmatch] using hmem
      · have hm : m.hasMore = false := hlast
        simp [pass, hm]
      · have hm : m.hasMore = true := hmore
        simp only [pass, hm, if_true]
        rw [hd.matching, hg.matching]
        exact hwho q
      · cases hm : m.hasMore with
        | true => simpa [pass, hm] using hdel.whole q hq
        | false => simp [pass, hm]

end sends

/-- A call that changes neither the trie nor the distributor. -/
theorem Inv.same (h : n.Inv) (hsubs : x.subscriptions = n.xpub.subscriptions)
    (hdist : x.dist = n.xpub.dist) (hmore : x.moreSend = n.xpub.moreSend)
    (hmanual : x.manual = n.xpub.manual) : Inv { n with xpub := x } := by
  refine ⟨hdist ▸ h.tracks, ?_, ⟨hsubs ▸ h.topics.represents, hdist ▸ h.topics.subscribers,
    hmanual.trans h.topics.manual⟩, h.midway.keep rfl hmore ?_ fun _ q hq hst => ⟨hq, hst, rfl⟩⟩
  · simp only [hdist, hmore]
    exact h.more
  · simp only [hdist]
    exact h.midway.matching

theorem Inv.step (h : n.Inv) (hs : n.Step a n') (hset : n.Settled a) : n'.Inv := by
  obtain ⟨hen, hnext⟩ := hs
  cases a with
  | attach => exact h.attach hen hnext
  | pipe => exact h.pipe hen hnext
  | xsend =>
    rcases Xpub.xsend_spec h.tracks.nested h.topics.represents h.topics.subscribers
      h.topics.manual h.more hen h.tracks.alive with
      ⟨f, hf⟩ | ⟨d, ok, x, cs, hok, hsends, hg⟩
    · rw [next, hf] at hnext
      cases hnext
    · rw [next, hok] at hnext
      cases hnext
      exact h.pass hg hset hsends
  | xrecv =>
    cases hnext
    apply h.same <;> (unfold Xpub.xrecv; repeat' split) <;> rfl
  | setOption o value =>
    cases hnext
    obtain ⟨hmanual, hlast⟩ := hen
    by_cases hneg : value < 0
    · rw [Xpub.setOption, if_pos hneg]
      exact h
    rw [Xpub.setOption, if_neg hneg]
    cases o with
    | manual => exact absurd rfl hmanual
    | manualLastValue => exact absurd rfl hlast
    | _ => exact h.same rfl rfl rfl rfl
  | setWelcomeMsg | setInvertMatching =>
    cases hnext
    exact h.same rfl rfl rfl rfl

/-- **Messages go to the subscribed pipes exactly.**  In a run in which no refused part has done
harm, a part that is accepted is delivered to its audience exactly if no refused part does harm to
it, and a part that is refused leaves everything as it was. Nothing but the failure of a pipe can
prevent this. -/
theorem exact_delivery {isPub : Bool} {hwm₀ hwm₁ : PipeId → Int} {tr : List Act}
    (h : Exec (Guarded Step Settled) (initial isPub hwm₀ hwm₁) tr n) (hen : n.Enabled (.xsend m)) :
    (∃ f, n.xpub.xsend n.channels m = .error (.pipe f)) ∨
      (∃ x cs, n.xpub.xsend n.channels m = .ok (true, x, cs) ∧
        (n.Delivered m (n.pass m true x cs) ↔ n.Settled (.xsend m))) ∨
      ∃ x cs, n.xpub.xsend n.channels m = .ok (false, x, cs) ∧
        n.Unaffected (n.pass m false x cs) := by
  have hinv := h.invariant Inv (fun b _ c hb hs => hb.step hs.1 hs.2)
    (inv_initial isPub hwm₀ hwm₁)
  rcases Xpub.xsend_spec hinv.tracks.nested hinv.topics.represents hinv.topics.subscribers
    hinv.topics.manual hinv.more hen hinv.tracks.alive with
    hf | ⟨d, ok, x, cs, hok, hsends, hg⟩
  · exact .inl hf
  · cases ok with
    | true => exact .inr (.inl ⟨x, cs, hok, hinv.delivered_iff hg hsends⟩)
    | false => exact .inr (.inr ⟨x, cs, hok, unaffected_of_refused hg hsends⟩)

/-! ## Concrete runs -/

instance (n : XpubNet) (a : Act) : Decidable (n.Enabled a) := by
  rcases a <;> dsimp only [Enabled] <;> infer_instance

instance (n : XpubNet) : (a : Act) → Decidable (n.Settled a)
  | .xsend m => decidable_of_iff (n.xpub.moreSend = false →
      ∀ q ∈ n.xpub.dist.pipes.items.take n.xpub.dist.matching, (n.channels q).Writable →
        Xpub.Subscribed n.subs m.data q)
      (imp_congr_right fun _ => forall_congr' fun _ => imp_congr_left IndexedArray.mem_take_iff)
  | .attach _ _ | .pipe _ _ | .setOption _ _ | .xrecv | .setWelcomeMsg _ | .setInvertMatching _ =>
      .isTrue trivial

/-- Pipe `p` is attached, and its peer subscribes to messages that begin with `b`. -/
def subscriber (p : PipeId) (b : UInt8) : List Act :=
  [.attach p false, .pipe p (.write .second { Msg.init with data := [1, b] }),
    .pipe p (.flush .second), .pipe p (.deliver .first)]

/-- Two subscribers and no messages to be dropped. The first subscriber gets a message and
is full, so that the next one is refused. Then it reads the first message. -/
def refusedOnce : List Act :=
  subscriber 0 65 ++ subscriber 1 66 ++ [.setOption .nodrop 1, .xsend (single 65),
    .xsend (single 65), .pipe 0 (.read .second), .pipe 0 (.deliver .first)]

/-- The publisher accepts the part `m`, and pipe `p` is given it. -/
def Reaches (n : XpubNet) (m : Msg) (p : PipeId) : Prop :=
  ∃ x cs, n.xpub.xsend n.channels m = .ok (true, x, cs) ∧
    (cs p).parts = (n.channels p).parts ++ [m]

instance (n : XpubNet) (m : Msg) (p : PipeId) : Decidable (n.Reaches m p) :=
  decidable_of_iff ((n.xpub.xsend n.channels m).toOption.any (fun r =>
    r.1 && decide ((r.2.2 p).parts = (n.channels p).parts ++ [m])) = true) <| by
      unfold Reaches
      cases n.xpub.xsend n.channels m with
      | error => simp [Except.toOption]
      | ok r =>
        obtain ⟨ok, x, cs⟩ := r
        simp [Except.toOption]

/-- The refused message is sent again and delivered. -/
theorem exact_delivery_after_retry :
    ∃ tr n, Exec (Guarded Step Settled) (initial false (fun _ => 1) fun _ => 1) tr n ∧
      ∃ x cs, n.xpub.xsend n.channels (single 65) = .ok (true, x, cs) ∧
        n.audience (single 65) = [0] ∧ n.Delivered (single 65) (n.pass (single 65) true x cs) := by
  refine exists_exec_with guarded_of_attempt
    (fun n => n.Settled (.xsend (single 65)) ∧ n.audience (single 65) = [0] ∧
      n.Reaches (single 65) 0) refusedOnce (by decide +kernel) ?_
  rintro _ n hexec ⟨hset, haud, x, cs, hsend, -⟩
  refine ⟨x, cs, hsend, haud, ?_⟩
  rcases exact_delivery (m := single 65) hexec ⟨by decide, by decide⟩ with
    ⟨f, hf⟩ | ⟨x', cs', hok, hiff⟩ | ⟨x', cs', hno, -⟩
  · rw [hsend] at hf
    cases hf
  · rw [hsend] at hok
    cases hok
    exact hiff.mpr hset
  · rw [hsend] at hno
    cases hno

/-- A different message follows the refused one. It is delivered to the subscriber of the refused
message, too. -/
theorem refused_part_misdirects :
    ∃ tr n, Exec Step (initial false (fun _ => 1) fun _ => 1) tr n ∧
      n.Enabled (.xsend (single 66)) ∧ n.audience (single 66) = [1] ∧ n.Reaches (single 66) 0 := by
  exact exists_exec_of_replay step_of_attempt refusedOnce (by decide +kernel)

end XpubNet
end LibZmq
