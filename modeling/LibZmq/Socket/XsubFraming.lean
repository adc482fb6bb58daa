import LibZmq.Socket.Xsub

/-!
# Messages of a subscriber

The user of a subscriber sends messages of several parts to all publishers. A part that is a
redundant cancellation is not passed on, and the distributor does not hear of it.

* `upstream_framing`: every publisher gets whole messages, if the last part of a message that was
  begun is passed on, and if no publisher is greeted again and no watermark is lowered within a
  message (`InStep`).
* `upstream_messages_merge`: a redundant cancellation at the end of a message makes the next
  message a continuation of it.
-/

namespace LibZmq

open LibZmq.Core PipePair Xsub List Finset

/-- What a publisher gets. -/
inductive Upstream where
  /-- A subscription from the cache. -/
  | cached (key : Bytes)
  /-- A message of the user. -/
  | user (parts : List Msg)

namespace Upstream

def parts : Upstream → List Msg
  | cached key => [Xsub.subscription key]
  | user parts => parts

def user? : Upstream → Option (List Msg)
  | cached _ => none
  | user parts => some parts

end Upstream

open Upstream (user?)

/-- A subscriber, its pipes and its user. -/
structure XsubNet where
  xsub : Xsub
  pipes : Finset PipeId
  channels : Channels
  /-- The parts of the message that the user is sending, without redundant cancellations. -/
  opened : List Msg
  /-- The complete messages of the user, without redundant cancellations. -/
  messages : List (List Msg)
  /-- How often the subscriptions of the cache were sent to a pipe. -/
  greeted : PipeId → Nat

namespace XsubNet

inductive Act where
  | attach (p : PipeId)
  | pipe (p : PipeId) (a : PipePair.Action)
  | xsend (m : Msg)
  | xrecv
  | xhasIn
  | setOnlyFirstSubscribe (value : Int)
  | setInvertMatching (on : Bool)
deriving DecidableEq, Repr

def initial (filter : Bool) (hwm₀ hwm₁ : PipeId → Int) : XsubNet :=
  { xsub := .new filter
    pipes := ∅
    channels := fun p => .start (hwm₀ p) (hwm₁ p)
    opened := []
    messages := []
    greeted := fun _ => 0 }

/-- The subscriber is told of an event of pipe `p`. -/
def tell (p : PipeId) (n : XsubNet) (e : PipeEvent) : Except Failure XsubNet := do
  let (x, cs) ← n.xsub.handle n.channels p e
  .ok { n with
    xsub := x
    channels := cs
    greeted := if e = .hiccuped then Function.update n.greeted p (n.greeted p + 1) else n.greeted }

/-- The part is passed on. -/
def passesOn (x : Xsub) (m : Msg) : Bool :=
  match x.process m with
  | .ok (_, told) => told
  | .error _ => false

/-- The user has sent the part `m`. -/
def noteSent (n : XsubNet) (m : Msg) : XsubNet :=
  let parts := n.opened ++ if passesOn n.xsub m then [m] else []
  if m.hasMore then { n with opened := parts }
  else { n with opened := [], messages := n.messages ++ [parts] }

def next (n : XsubNet) : Act → Except Failure XsubNet
  | .attach p => do
      let (x, cs) ← n.xsub.xattachPipe n.channels p
      .ok { n with
        xsub := x
        channels := cs
        pipes := insert p n.pipes
        greeted := Function.update n.greeted p (n.greeted p + 1) }
  | .pipe p a => do
      let (ev, cs) ← n.channels.act p a
      ev.foldlM (tell p) { n with channels := cs, pipes := Channels.remaining n.pipes p ev }
  | .xsend m => do
      let (_, x, cs) ← n.xsub.xsend n.channels m
      .ok { n.noteSent m with xsub := x, channels := cs }
  | .xrecv => do
      let (_, x, cs) ← n.xsub.xrecv n.channels
      .ok { n with xsub := x, channels := cs }
  | .xhasIn => do
      let (_, x, cs) ← n.xsub.xhasIn n.channels
      .ok { n with xsub := x, channels := cs }
  | .setOnlyFirstSubscribe value =>
      .ok { n with xsub := (n.xsub.setOnlyFirstSubscribe value).getD n.xsub }
  | .setInvertMatching on => .ok { n with xsub := { n.xsub with invertMatching := on } }

/-- A pipe lives until the subscriber is told that it is terminated, and only the subscriber reads
and writes its end. -/
def Enabled (n : XsubNet) : Act → Prop
  | .attach p => p ∉ n.pipes ∧ ¬ (n.channels p).gone
  | .pipe p a => n.channels.Outside n.pipes p a
  | .xsend m => m.isDelimiter = false ∧ m.isCredential = false
  | .xrecv | .xhasIn | .setOnlyFirstSubscribe _ | .setInvertMatching _ => True

def Step (n : XsubNet) (a : Act) (n' : XsubNet) : Prop := n.Enabled a ∧ n.next a = .ok n'

/-- While the distributor is in the middle of a message, the user does not end the message with a
redundant cancellation, the pipes that have got its first parts are below their watermarks when the
next part is sent, and no pipe is given a new queue. -/
def InStep (n : XsubNet) : Act → Prop
  | .xsend m => n.xsub.dist.more = true → (m.hasMore = false → passesOn n.xsub m = true) ∧
      ∀ p ∈ n.pipes, n.xsub.dist.Active p → (n.channels p).pipe.state = .active →
        (n.channels p).pipe.checkHwm = true
  | .pipe p a => n.xsub.dist.more = true → a = .deliver .first →
      (n.channels p).pair.hiccupNext .first = false
  | _ => True

/-- Every publisher gets whole messages. -/
structure Frames (n : XsubNet) : Prop where
  /-- A publisher gets subscriptions from the cache and, in their order, messages of the user. It
  is flushed after each of these and after the subscriptions. -/
  whole : ∀ p, ∃ l : List Upstream, (n.channels p).sent = l.map Upstream.parts ∧
    (∀ u ∈ l, Core.Framed Msg.hasMore u.parts) ∧
    (l.filterMap Upstream.user?).Sublist n.messages ∧
    (n.channels p).flushes = (l.filterMap Upstream.user?).length + n.greeted p
  /-- A publisher has all parts of the current message, or none. -/
  begun : ∀ p, (n.channels p).pipe.state = .active →
    (n.channels p).begun = n.opened ∨ (n.channels p).begun = []
  /-- After the last part of a message nothing is left over. -/
  between : n.xsub.moreSend = false →
    n.xsub.dist.more = false ∧ n.opened = [] ∧ ∀ p, (n.channels p).Idle

/-! ## Sending -/

variable {n n' : XsubNet} {x : Xsub} {d d' : Dist} {pipes : Finset PipeId} {cs cs' : Channels}
  {p : PipeId} {opened : List Msg} {messages : List (List Msg)} {greeted : PipeId → Nat}

/-- Pipe `p` has got whole messages. -/
def Whole (cs : Channels) (messages : List (List Msg)) (greeted : Nat) (p : PipeId) : Prop :=
  ∃ l : List Upstream, (cs p).sent = l.map Upstream.parts ∧
    (∀ u ∈ l, Core.Framed Msg.hasMore u.parts) ∧
    (l.filterMap Upstream.user?).Sublist messages ∧
    (cs p).flushes = (l.filterMap Upstream.user?).length + greeted

theorem Whole.mono (h : Whole cs messages k p)
    (hsent : (cs' p).sent = (cs p).sent) (hflushes : (cs' p).flushes = (cs p).flushes)
    (hmsgs : messages.Sublist messages') : Whole cs' messages' k p := by
  obtain ⟨l, hl, hframed, hsub, hcount⟩ := h
  exact ⟨l, hsent.trans hl, hframed, hsub.trans hmsgs, hflushes.trans hcount⟩

theorem framed_subscription (key : Bytes) : Framed Msg.hasMore [subscription key] :=
  ⟨[], _, rfl, nofun, hasMore_subscription key⟩

/-- The subscriptions of the cache were sent. -/
theorem Whole.greets (h : Whole cs messages k p)
    (hg : Greets cs cs' p ks i) : Whole cs' messages (k + i) p := by
  obtain ⟨l, hl, hframed, hsub, hcount⟩ := h
  have hnone : (ks.map Upstream.cached).filterMap user? = [] := by
    rw [filterMap_eq_nil_iff]
    intro u hu
    obtain ⟨key, -, rfl⟩ := mem_map.mp hu
    rfl
  refine ⟨l ++ ks.map .cached, ?_, fun u hu => ?_, ?_, ?_⟩
  · rw [hg.sent, hl, map_append, List.map_map]
    rfl
  · rcases mem_append.mp hu with hu | hu
    · exact hframed u hu
    · obtain ⟨key, -, rfl⟩ := mem_map.mp hu
      exact framed_subscription key
  · rw [filterMap_append, hnone, append_nil]
    exact hsub
  · rw [hg.flushes, hcount, filterMap_append, hnone, append_nil, Nat.add_assoc]

theorem Whole.message (h : Whole cs messages k p) (hsent : (cs' p).sent = (cs p).sent ++ [parts])
    (hflushes : (cs' p).flushes = (cs p).flushes + 1) (hparts : Framed Msg.hasMore parts) :
    Whole cs' (messages ++ [parts]) k p := by
  obtain ⟨l, hl, hframed, hsub, hcount⟩ := h
  have huser : (l ++ [Upstream.user parts]).filterMap user? =
      l.filterMap user? ++ [parts] := filterMap_append
  refine ⟨l ++ [.user parts], ?_, fun u hu => ?_, ?_, ?_⟩
  · rw [hsent, hl, map_append]
    rfl
  · rcases mem_append.mp hu with hu | hu
    · exact hframed u hu
    · rw [List.mem_singleton.mp hu]
      exact hparts
  · rw [huser]
    exact hsub.append (.refl _)
  · rw [huser, length_append, length_singleton]
    omega

/-- The distributor and the pipes agree on the message that is being sent. -/
structure Distributing (d : Dist) (pipes : Finset PipeId) (cs : Channels) (opened : List Msg)
    (messages : List (List Msg)) (greeted : PipeId → Nat) : Prop where
  nested : d.Nested
  mem : ∀ q, q ∈ d.pipes ↔ q ∈ pipes
  midway : d.more = true ↔ opened ≠ []
  more : ∀ m ∈ opened, m.hasMore = true
  begun : ∀ q, (cs q).pipe.state = .active → (cs q).begun = if d.Active q then opened else []
  writable : d.more = true → ∀ q, d.Active q → (cs q).pipe.state = .active →
    (cs q).pipe.outActive = true
  whole : ∀ q, Whole cs messages (greeted q) q

namespace Distributing

variable (h : Distributing d pipes cs opened messages greeted)
include h

theorem opened_eq_nil (hmore : d.more = false) : opened = [] := by
  by_contra hne
  rw [h.midway.mpr hne] at hmore
  cases hmore

/-- A pipe that does not take part in the current message. -/
theorem idle (hout : d.more = true → ¬ d.Active p) : (cs p).Idle := by
  intro hst
  rw [h.begun p hst]
  split
  · rename_i hact
    exact h.opened_eq_nil (Bool.eq_false_iff.mpr fun hmore => hout hmore hact)
  · rfl

/-- The pipes were read, or something has happened to them from outside. -/
theorem unwritten (hu : ∀ q, (cs q).Unwritten (cs' q))
    (hkeeps : d.more = true → ∀ q, d.Active q → (cs' q).pipe.state = .active →
      (cs q).pipe.outActive = true → (cs' q).pipe.outActive = true) :
    Distributing d pipes cs' opened messages greeted where
  __ := h
  begun q hst := by
    obtain ⟨hst', hbegun⟩ := (hu q).active hst
    rw [hbegun, h.begun q hst']
  writable hmore q hact hst :=
    hkeeps hmore q hact hst (h.writable hmore q hact ((hu q).active hst).1)
  whole q := (h.whole q).mono (hu q).sent (hu q).flushes (.refl _)

/-- The distributor has got or lost a pipe, or one has become eligible. The current message goes
on to the same pipes. -/
theorem regroup (pipes' : Finset PipeId) (hnested : d'.Nested) (hmore : d'.more = d.more)
    (hmem : ∀ q, q ∈ d'.pipes ↔ q ∈ pipes')
    (hact : d.more = true → ∀ q, (cs q).pipe.state = .active → (d'.Active q ↔ d.Active q)) :
    Distributing d' pipes' cs opened messages greeted where
  nested := hnested
  mem := hmem
  midway := by rw [hmore, h.midway]
  more := h.more
  begun q hst := by
    rw [h.begun q hst]
    by_cases hyes : d.more = true
    · simp [hact hyes q hst]
    · rw [h.opened_eq_nil (by simpa using hyes)]
      simp
  writable hyes q hq hst := by
    rw [hmore] at hyes
    exact h.writable hyes q ((hact hyes q hst).mp hq) hst
  whole := h.whole

/-- The subscriptions of the cache were sent to a pipe that does not take part in the current
message. -/
theorem greet (hg : Greets cs cs' p ks 1) (hout : d.more = true → ¬ d.Active p) :
    Distributing d pipes cs' opened messages (Function.update greeted p (greeted p + 1)) where
  __ := h
  begun q hst := by
    rcases eq_or_ne q p with rfl | hne
    · rw [hg.begun]
      exact h.begun q ((hg.kept q).state ▸ hst)
    · rw [hg.others q hne] at hst ⊢
      exact h.begun q hst
  writable hmore q hact hst := by
    have hne : q ≠ p := by
      rintro rfl
      exact hout hmore hact
    rw [hg.others q hne] at hst ⊢
    exact h.writable hmore q hact hst
  whole q := by
    rcases eq_or_ne q p with rfl | hne
    · rw [Function.update_self]
      exact (h.whole q).greets hg
    · rw [Function.update_of_ne hne]
      exact (h.whole q).mono (by rw [hg.others q hne]) (by rw [hg.others q hne]) (.refl _)

/-- A part is passed on to the active pipes. A pipe that has got the first parts of the message
takes it. -/
theorem passes (hp : Dist.Distributes { d with matching := d.active } cs m d' cs')
    (hhwm : d.more = true → ∀ q, d.Active q → (cs q).pipe.state = .active →
      (cs q).pipe.checkHwm = true) :
    Distributing d' pipes cs' (if m.hasMore then opened ++ [m] else [])
      (if m.hasMore then messages else messages ++ [opened ++ [m]]) greeted := by
  have hpassed : ∀ q, d.Active q → (cs q).Passed (cs' q) m := hp.each
  have hothers : ∀ q, ¬ d.Active q → cs' q = cs q := hp.others
  have hstate : ∀ q, (cs' q).pipe.state = (cs q).pipe.state := by
    intro q
    by_cases hact : d.Active q
    · exact (hpassed q hact).offered.state
    · rw [hothers q hact]
  -- only the first part of a message can be refused
  have hrefused : ∀ q, d.Active q → (cs q).pipe.state = .active → ¬ (cs q).Writable →
      opened = [] := by
    intro q hact hst hno
    refine h.opened_eq_nil (Bool.eq_false_iff.mpr fun hmore => hno ?_)
    exact ⟨hst, h.writable hmore q hact hst, hhwm hmore q hact hst⟩
  refine ⟨hp.nested, fun q => (hp.mem q).trans (h.mem q), ?_, ?_, fun q hst => ?_, ?_, fun q => ?_⟩
  · rw [hp.more]
    cases m.hasMore <;> simp
  · intro part hpart
    split at hpart
    · rename_i hmore
      rcases mem_append.mp hpart with hpart | hpart
      · exact h.more part hpart
      · rw [List.mem_singleton.mp hpart, hmore]
    · cases hpart
  · rw [hstate q] at hst
    by_cases hact : d.Active q
    · have hbegun := h.begun q hst
      rw [if_pos hact] at hbegun
      rw [(hpassed q hact).begun, hbegun]
      by_cases hw : (cs q).Writable
      · rw [if_pos hw]
        cases hmore : m.hasMore with
        | true =>
          have hact' : d'.Active q := (hp.active hmore q).mpr ⟨hact, fun _ => hw⟩
          simp [hact']
        | false => simp
      rw [if_neg hw, hrefused q hact hst hw]
      cases hmore : m.hasMore with
      | true =>
        have hact' : ¬ d'.Active q := fun hyes => hw (((hp.active hmore q).mp hyes).2 hact)
        simp [hact']
      | false => simp
    · have hbegun := h.begun q hst
      rw [if_neg hact] at hbegun
      rw [hothers q hact, hbegun]
      cases hmore : m.hasMore with
      | true =>
        have hact' : ¬ d'.Active q := fun hyes => hact ((hp.active hmore q).mp hyes).1
        simp [hact']
      | false => simp
  · intro hmore q hact' hst
    rw [hp.more] at hmore
    obtain ⟨hact, hw⟩ := (hp.active hmore q).mp hact'
    rw [(hpassed q hact).offered.outActive hst, decide_eq_true (hw hact)]
  · by_cases hsends : d.Active q ∧ (cs q).Writable ∧ m.hasMore = false
    · obtain ⟨hact, hw, hlast⟩ := hsends
      have hbegun := h.begun q hw.1
      rw [if_pos hact] at hbegun
      have hsent := (hpassed q hact).sent
      have hflushes := (hpassed q hact).flushes
      rw [if_pos ⟨hw, hlast⟩] at hsent hflushes
      rw [hlast]
      refine (h.whole q).message (hsent.trans (by rw [hbegun])) hflushes ?_
      exact ⟨opened, m, rfl, h.more, hlast⟩
    have hsame : (cs' q).sent = (cs q).sent ∧ (cs' q).flushes = (cs q).flushes := by
      by_cases hact : d.Active q
      · have hno : ¬ ((cs q).Writable ∧ m.hasMore = false) := fun hyes => hsends ⟨hact, hyes⟩
        rw [(hpassed q hact).sent, (hpassed q hact).flushes, if_neg hno, if_neg hno]
        exact ⟨rfl, rfl⟩
      · rw [hothers q hact]
        exact ⟨rfl, rfl⟩
    refine (h.whole q).mono hsame.1 hsame.2 ?_
    split
    · exact .refl _
    · exact sublist_append_left ..

end Distributing

/-! ## The invariant -/

structure Sound (n : XsubNet) : Prop where
  agreed : Fq.Matches n.xsub.fq.pipes n.channels
  queued : ∀ q, q ∈ n.xsub.fq.pipes.items ↔ q ∈ n.pipes
  sending : Distributing n.xsub.dist n.pipes n.channels n.opened n.messages n.greeted
  /-- The next part is the first one of a message. -/
  first : n.xsub.moreSend = false → n.opened = []

theorem sound_initial (filter : Bool) (hwm₀ hwm₁ : PipeId → Int) :
    (initial filter hwm₀ hwm₁).Sound where
  agreed := (FqNet.sound_initial hwm₀ hwm₁).agreed
  queued q := iff_of_false nofun (notMem_empty q)
  sending :=
    { nested := Dist.nested_new
      mem := fun q => iff_of_false nofun (notMem_empty q)
      midway := by simp [initial, new, Dist.new]
      more := nofun
      begun := fun q _ => (ite_self _).symm
      writable := nofun
      whole := fun q => ⟨[], rfl, nofun, .refl _, rfl⟩ }
  first _ := rfl

theorem Sound.frames (h : n.Sound) : n.Frames where
  whole := h.sending.whole
  begun p hst := by
    rw [h.sending.begun p hst]
    split
    · exact .inl rfl
    · exact .inr rfl
  between hfirst := by
    have hnil := h.first hfirst
    have hmore : n.xsub.dist.more = false :=
      Bool.eq_false_iff.mpr fun hyes => h.sending.midway.mp hyes hnil
    exact ⟨hmore, hnil, fun p => h.sending.idle fun hyes => by rw [hmore] at hyes; cases hyes⟩

theorem Sound.alive (h : n.Sound) (hp : p ∈ n.pipes) : ¬ (n.channels p).gone :=
  h.agreed.alive ((h.queued p).mpr hp)

theorem Sound.attach (h : n.Sound) (hen : n.Enabled (.attach p))
    (hnext : n.next (.attach p) = .ok n') : n'.Sound := by
  obtain ⟨hp, halive⟩ := hen
  obtain ⟨⟨x, cs⟩, hattach, ⟨⟩⟩ := bind_ok hnext
  obtain ⟨f, hf, hattach⟩ := bind_ok hattach
  obtain ⟨d, hd, hattach⟩ := bind_ok hattach
  obtain ⟨cs₁, hcached, ⟨⟩⟩ := bind_ok hattach
  have hp' : p ∉ n.xsub.fq.pipes.items := fun hmem => hp ((h.queued p).mp hmem)
  obtain ⟨l, hl, hjoins⟩ := Fq.attach_eq h.agreed.placed hp'
  rw [hl] at hf
  cases hf
  have hout : ¬ n.xsub.dist.Active p := fun hact => hp ((h.sending.mem p).mp hact.1)
  obtain ⟨keys, hg⟩ := sendCached_greets halive (h.sending.idle fun _ => hout) hcached
  obtain ⟨d', hd', hgroups⟩ := Dist.attach_spec h.sending.nested fun hmem =>
    hp ((h.sending.mem p).mp hmem)
  rw [hd'] at hd
  cases hd
  have hact : n.xsub.dist.more = true → ∀ q, d.Active q ↔ n.xsub.dist.Active q := by
    intro hmore q
    rw [hgroups.active q]
    simp [hmore]
  refine ⟨(h.agreed.attach hp' halive hjoins).kept hg.kept, fun q => ?_, ?_, h.first⟩
  · rw [mem_insert, ← h.queued q, or_comm]
    exact hjoins.mem
  · have hgrown := h.sending.regroup (insert p n.pipes) hgroups.nested hgroups.more
      (fun q => by rw [hgroups.mem, h.sending.mem, mem_insert, or_comm])
      fun hmore q _ => hact hmore q
    exact hgrown.greet hg fun hmore => by
      rw [hgroups.more] at hmore
      rw [hact hmore p]
      exact hout

/-- The queue and the distributor are told of an event. -/
theorem handle_ok (h : x.handle cs p e = .ok (x', cs')) :
    x.fq.handle p e = .ok x'.fq ∧ x'.moreSend = x.moreSend ∧
      (e = .hiccuped → x.sendCached cs p = .ok cs') ∧ (e ≠ .hiccuped → cs' = cs) ∧
      (e = .writeActivated → x.dist.activated p = .ok x'.dist) ∧
      (e = .pipeTerminated → x.dist.pipeTerminated p = .ok x'.dist) ∧
      (e ≠ .writeActivated → e ≠ .pipeTerminated → x'.dist = x.dist) := by
  cases e with
  | readActivated =>
    obtain ⟨x₁, hread, ⟨⟩⟩ := bind_ok h
    obtain ⟨f, hf, ⟨⟩⟩ := bind_ok hread
    exact ⟨hf, rfl, nofun, fun _ => rfl, nofun, nofun, fun _ _ => rfl⟩
  | writeActivated =>
    obtain ⟨x₁, hwrite, ⟨⟩⟩ := bind_ok h
    obtain ⟨d, hd, ⟨⟩⟩ := bind_ok hwrite
    exact ⟨rfl, rfl, nofun, fun _ => rfl, fun _ => hd, nofun, absurd rfl⟩
  | pipeTerminated =>
    obtain ⟨x₁, hterm, ⟨⟩⟩ := bind_ok h
    obtain ⟨f, hf, hterm⟩ := bind_ok hterm
    obtain ⟨d, hd, ⟨⟩⟩ := bind_ok hterm
    exact ⟨hf, rfl, nofun, fun _ => rfl, nofun, fun _ => hd, fun _ hne => absurd rfl hne⟩
  | hiccuped =>
    obtain ⟨cs₁, hcached, ⟨⟩⟩ := bind_ok h
    exact ⟨rfl, rfl, fun _ => hcached, absurd rfl, nofun, nofun, fun _ _ => rfl⟩
  | statsPublish =>
    cases h
    exact ⟨rfl, rfl, nofun, fun _ => rfl, nofun, nofun, fun _ _ => rfl⟩

theorem Sound.pipe (h : n.Sound) (hen : n.Enabled (.pipe p a))
    (hstep : n.InStep (.pipe p a)) (hnext : n.next (.pipe p a) = .ok n') : n'.Sound := by
  obtain ⟨⟨ev, cs⟩, hact, hnext⟩ := bind_ok hnext
  have htells := Channels.act_tells hen hact
  obtain ⟨f, hfold, htold, hqueued⟩ := Fq.hears h.agreed h.queued hen hact
  -- within a message no queue is replaced, so the ends keep what they know
  have hheard : n.xsub.dist.more = true → Channels.Told n.channels cs p ev := fun hmore =>
    (Channels.act_told
      (fun hside => (hen.2.2.1 hside).2.2) (hstep hmore) hen.1 hact).choose_spec.2.1
  have hunwritten : ∀ q, (n.channels q).Unwritten (cs q) :=
    htells.rests.forall_of (P := fun q c => (n.channels q).Unwritten c) (fun _ => .refl _)
      htells.rests.unwritten
  have hkeeps : n.xsub.dist.more = true → ∀ q, n.xsub.dist.Active q →
      (cs q).pipe.state = .active → (n.channels q).pipe.outActive = true →
      (cs q).pipe.outActive = true := by
    intro hmore q _ hst hout
    rcases eq_or_ne q p with rfl | hne
    · cases hheard hmore with
      | quiet _ _ hk => rw [(hk hst).2, hout]
      | writable _ _ hout' => exact hout'
      | terminated _ _ hno => exact absurd hst hno
    · rw [htells.rests.others q hne, hout]
  have hsending := h.sending.unwritten hunwritten hkeeps
  rcases htells.few with rfl | ⟨e, rfl⟩
  · cases hnext
    cases hfold
    exact ⟨htold.agreed, hqueued, hsending, h.first⟩
  simp only [foldlM_singleton] at hfold hnext
  obtain ⟨⟨x, cs₁⟩, hhandle, ⟨⟩⟩ := bind_ok hnext
  obtain ⟨hfq, hmoreSend, hcached, hsame, hactivated, hterminated, hdist⟩ := handle_ok hhandle
  rw [hfold] at hfq
  have hxf : f = x.fq := Except.ok.inj hfq
  subst hxf
  have hp : p ∈ n.pipes := htells.mem nofun
  have hp' : p ∈ n.xsub.dist.pipes := (h.sending.mem p).mpr hp
  have hfirst : x.moreSend = false → n.opened = [] := fun hno => h.first (hmoreSend ▸ hno)
  cases e with
  | hiccuped =>
    have halive : ¬ (cs p).gone := fun hg =>
      h.alive hp ((htells.gone.mp hg).resolve_right nofun)
    -- the distributor is between two messages, because it was told of the new queue
    have hbetween : n.xsub.dist.more = true → ¬ n.xsub.dist.Active p := by
      intro hmore
      obtain ⟨ha, hnext⟩ := Channels.hiccupNext_of_told hen.1 hact
      rw [hstep hmore ha] at hnext
      cases hnext
    obtain ⟨keys, hg⟩ := sendCached_greets halive (hsending.idle hbetween) (hcached rfl)
    refine ⟨htold.agreed.kept hg.kept, hqueued, ?_, hfirst⟩
    rw [hdist nofun nofun]
    exact hsending.greet hg hbetween
  | writeActivated =>
    cases hsame nofun
    have hmid : n.xsub.dist.more = true → ¬ n.xsub.dist.Active p := by
      intro hmore hactive
      cases hheard hmore with
      | quiet hev => simp at hev
      | writable hout hst =>
        rw [h.sending.writable hmore p hactive hst] at hout
        cases hout
    obtain ⟨d, hd, hnested, hmore, hmem, -, hgroup⟩ := Dist.activated_keeps h.sending.nested hp'
    rw [hactivated rfl] at hd
    cases hd
    refine ⟨htold.agreed, hqueued, ?_, hfirst⟩
    exact hsending.regroup _ hnested hmore (fun q => (hmem q).trans (h.sending.mem q))
      fun hyes q _ => hgroup hyes (hmid hyes) q
  | pipeTerminated =>
    cases hsame nofun
    obtain ⟨d, hd, hgroups⟩ := Dist.pipeTerminated_spec h.sending.nested hp'
    rw [hterminated rfl] at hd
    cases hd
    refine ⟨htold.agreed, hqueued, ?_, hfirst⟩
    refine hsending.regroup _ hgroups.nested hgroups.more (fun q => ?_) fun hyes q hst => ?_
    · rw [hgroups.mem, h.sending.mem, Channels.remaining, if_pos rfl, mem_erase, and_comm]
    · rw [hgroups.active, and_iff_left]
      rintro rfl
      cases hheard hyes with
      | quiet hev => simp at hev
      | terminated _ _ hno => exact hno hst
  | readActivated | statsPublish =>
    cases hsame nofun
    refine ⟨htold.agreed, hqueued, ?_, hfirst⟩
    simp only [hdist nofun nofun]
    exact hsending

theorem Sound.xsend (h : n.Sound) (hen : n.Enabled (.xsend m)) (hstep : n.InStep (.xsend m))
    (hnext : n.next (.xsend m) = .ok n') : n'.Sound := by
  obtain ⟨⟨result, x, cs⟩, hsend, ⟨⟩⟩ := bind_ok hnext
  obtain ⟨⟨x₁, told⟩, hprocess, hsend⟩ := bind_ok hsend
  obtain ⟨hfq, hdist, hmoreSend⟩ := process_keeps hprocess
  have hpasses : passesOn n.xsub m = told := by rw [passesOn, hprocess]
  have hqueued : ∀ q, q ∈ x₁.fq.pipes.items ↔ q ∈ n.pipes := by rw [hfq]; exact h.queued
  have hfirst : m.hasMore = true → x₁.moreSend ≠ false := fun hyes => by simp [hmoreSend, hyes]
  cases told with
  | true =>
    obtain ⟨⟨d, cs₁⟩, hall, ⟨⟩⟩ := bind_ok hsend
    rw [hdist] at hall
    have halive : ∀ q, n.xsub.dist.Active q → ¬ (n.channels q).gone := fun q hq =>
      h.alive ((h.sending.mem q).mp hq.1)
    have hnested : Dist.Nested { n.xsub.dist with matching := n.xsub.dist.active } :=
      { h.sending.nested with matching := le_rfl }
    rcases Dist.sendToMatching_spec hen hnested halive with
      ⟨⟨f, herr⟩, -⟩ | ⟨d', cs', hok, hp⟩
    · rw [Dist.sendToAll, herr] at hall
      cases hall
    rw [Dist.sendToAll, hok] at hall
    cases hall
    have hagreed : Fq.Matches x₁.fq.pipes cs := by
      rw [hfq]
      exact h.agreed.kept hp.kept
    have hsending := h.sending.passes hp fun hmore q hq =>
      (hstep hmore).2 q ((h.sending.mem q).mp hq.1) hq
    cases hlast : m.hasMore with
    | true =>
      simp only [noteSent, hpasses, hlast] at hsending ⊢
      exact ⟨hagreed, hqueued, hsending, fun hno => absurd hno (hfirst hlast)⟩
    | false =>
      simp only [noteSent, hpasses, hlast] at hsending ⊢
      exact ⟨hagreed, hqueued, hsending, fun _ => rfl⟩
  | false =>
    have hagreed : Fq.Matches x₁.fq.pipes n.channels := hfq ▸ h.agreed
    cases hsend
    cases hlast : m.hasMore with
    | true =>
      simp only [noteSent, hpasses, hlast, Bool.false_eq_true, if_false, append_nil]
      exact ⟨hagreed, hqueued, hdist ▸ h.sending, fun hno => absurd hno (hfirst hlast)⟩
    | false =>
      -- nothing of the message was passed on
      have hmore : n.xsub.dist.more = false := by
        refine Bool.eq_false_iff.mpr fun hyes => ?_
        have := (hstep hyes).1 hlast
        rw [hpasses] at this
        cases this
      have hnil := h.sending.opened_eq_nil hmore
      simp only [noteSent, hlast]
      refine ⟨hagreed, hqueued, ?_, fun _ => rfl⟩
      rw [hdist]
      exact { hnil ▸ h.sending with
        whole := fun q => (h.sending.whole q).mono rfl rfl (sublist_append_left ..) }

/-- The user has received, or has asked whether there is something to receive. -/
theorem Sound.receives (h : n.Sound) (hr : n.xsub.Receives n.channels x cs) :
    Sound { n with xsub := x, channels := cs } where
  agreed := hr.searched.agreed
  queued q := (hr.searched.mem q).trans (h.queued q)
  sending := by
    simp only [hr.dist]
    refine h.sending.unwritten (fun q => (hr.searched.quiet q).toUnwritten) fun _ q _ hst hout => ?_
    rw [((hr.searched.quiet q).keepsOut hst).2, hout]
  first hno := h.first (hr.moreSend ▸ hno)

theorem Sound.setOnlyFirstSubscribe (h : n.Sound)
    (hnext : n.next (.setOnlyFirstSubscribe value) = .ok n') : n'.Sound := by
  cases hnext
  unfold setOnlyFirstSubscribe
  split
  · exact h
  · exact { h with }

theorem Sound.step (h : n.Sound) (hstep : n.InStep a) (hs : Step n a n') : n'.Sound := by
  obtain ⟨hen, hnext⟩ := hs
  cases a with
  | attach => exact h.attach hen hnext
  | pipe => exact h.pipe hen hstep hnext
  | xsend => exact h.xsend hen hstep hnext
  | xrecv =>
    obtain ⟨⟨part, x, cs⟩, hrecv, ⟨⟩⟩ := bind_ok hnext
    exact h.receives (xrecv_receives h.agreed hrecv)
  | xhasIn =>
    obtain ⟨⟨b, x, cs⟩, hin, ⟨⟩⟩ := bind_ok hnext
    exact h.receives (xhasIn_receives h.agreed hin)
  | setOnlyFirstSubscribe => exact h.setOnlyFirstSubscribe hnext
  | setInvertMatching =>
    cases hnext
    exact { h with }

/-- **A subscriber sends whole messages**: in runs in which the flags of the subscriber and of its
distributor stay in step, every publisher gets whole messages of the user in their order, and is
flushed after each. -/
theorem upstream_framing {filter : Bool} {hwm₀ hwm₁ : PipeId → Int} {tr : List Act}
    (h : Exec (Guarded Step InStep) (initial filter hwm₀ hwm₁) tr n) : n.Frames := by
  refine (h.invariant Sound ?_ (sound_initial filter hwm₀ hwm₁)).frames
  rintro b act c hb ⟨hs, hstep⟩
  exact hb.step hstep hs

/-- What a publisher gets in several parts is a message of the user. -/
theorem not_frames (parts : List Msg) (hmsgs : n.messages = messages)
    (hsent : parts ∈ (n.channels p).sent) (hlen : 1 < parts.length) (hnot : parts ∉ messages) :
    ¬ n.Frames := by
  intro h
  obtain ⟨l, hl, -, hsub, -⟩ := h.whole p
  rw [hl] at hsent
  obtain ⟨u, hu, rfl⟩ := mem_map.mp hsent
  cases u with
  | cached => exact absurd hlen (by simp [Upstream.parts])
  | user => exact hnot (hmsgs ▸ hsub.subset (mem_filterMap.mpr ⟨_, hu, rfl⟩))

/-! ## Concrete runs -/

instance (n : XsubNet) (a : Act) : Decidable (n.Enabled a) := by
  rcases a <;> dsimp only [Enabled] <;> infer_instance

instance (n : XsubNet) (a : Act) : Decidable (n.InStep a) := by
  rcases a <;> dsimp only [InStep] <;> infer_instance

/-- A part with the data `data`, after which more parts follow. -/
def partMore (data : Bytes) : Msg := { Msg.init with data := data, flags := MsgFlag.more }

/-- The last part of a message. -/
def partLast (data : Bytes) : Msg := { Msg.init with data := data }

/-- The user subscribes, and sends a message with a redundant cancellation in its middle to two
publishers, the second of which is attached in time to get the subscription from the cache. -/
theorem upstream_framing_two_publishers :
    ∃ tr n, Exec (Guarded Step InStep) (initial true (fun _ => 9) fun _ => 9) tr n ∧
      (n.channels 0).sent = [[partLast [1, 65]], [partMore [7], partLast [8]]] ∧
      (n.channels 1).sent = [[Xsub.subscription [65]], [partMore [7], partLast [8]]] ∧
      n.Frames := by
  refine exists_exec_with guarded_of_attempt
    (fun n => (n.channels 0).sent = [[partLast [1, 65]], [partMore [7], partLast [8]]] ∧
      (n.channels 1).sent = [[subscription [65]], [partMore [7], partLast [8]]])
    [.attach 0, .xsend (partLast [1, 65]), .attach 1, .xsend (partMore [7]),
      .xsend (partMore [0, 66]), .xsend (partLast [8])] (by decide +kernel) ?_
  rintro _ _ hexec ⟨hfirst, hsecond⟩
  exact ⟨hfirst, hsecond, upstream_framing hexec⟩

/-- The last part of a message is a redundant cancellation: the first part and the next message
arrive as one message.

If the watermark is lowered within a message, the rest of it is lost, and the next message follows
its first part. If a publisher is given a new queue within a message, it gets the subscriptions
from the cache and the last part of the message from it. -/
theorem upstream_messages_merge :
    (∃ tr n, Exec Step (initial false (fun _ => 2) fun _ => 2) tr n ∧
      n.messages = [[partMore [7]], [partLast [8]]] ∧
      (n.channels 0).sent = [[partMore [7], partLast [8]]] ∧ ¬ n.Frames) ∧
    (∃ tr n, Exec Step (initial false (fun _ => 2) fun _ => 2) tr n ∧
      n.messages = [[partLast [5]], [partMore [7], partLast [8]], [partLast [9]]] ∧
      (n.channels 0).sent = [[partLast [5]], [partMore [7], partLast [9]]] ∧ ¬ n.Frames) ∧
    ∃ tr n, Exec Step (initial false (fun _ => 2) fun _ => 2) tr n ∧
      n.messages = [[partLast [1, 65]], [partMore [7], partLast [8]]] ∧
      ((n.channels 0).log .first).got = [Xsub.subscription [65], partLast [8]] ∧ ¬ n.Frames := by
  refine ⟨?_, ?_, ?_⟩
  · refine exists_exec_with step_of_attempt
      (fun n => n.messages = [[partMore [7]], [partLast [8]]] ∧
        (n.channels 0).sent = [[partMore [7], partLast [8]]])
      [.attach 0, .xsend (partMore [7]), .xsend (partLast [0, 66]), .xsend (partLast [8])]
      (by decide +kernel) ?_
    rintro _ n _ ⟨hmsgs, hsent⟩
    exact ⟨hmsgs, hsent, not_frames (p := 0) [partMore [7], partLast [8]] hmsgs
      (by simp [hsent]) (Nat.lt_succ_self 1) (by decide +kernel)⟩
  · refine exists_exec_with step_of_attempt
      (fun n => n.messages = [[partLast [5]], [partMore [7], partLast [8]], [partLast [9]]] ∧
        (n.channels 0).sent = [[partLast [5]], [partMore [7], partLast [9]]])
      [.attach 0, .xsend (partLast [5]), .xsend (partMore [7]), .pipe 0 (.updateHwms .first 2 1),
        .xsend (partLast [8]), .pipe 0 (.read .second), .pipe 0 (.deliver .first),
        .xsend (partLast [9])] (by decide +kernel) ?_
    rintro _ n _ ⟨hmsgs, hsent⟩
    exact ⟨hmsgs, hsent, not_frames (p := 0) [partMore [7], partLast [9]] hmsgs
      (by simp [hsent]) (Nat.lt_succ_self 1) (by decide +kernel)⟩
  · refine exists_exec_with step_of_attempt
      (fun n => n.messages = [[partLast [1, 65]], [partMore [7], partLast [8]]] ∧
        ((n.channels 0).log .first).got = [subscription [65], partLast [8]] ∧
        [partMore [7], subscription [65]] ∈ (n.channels 0).sent)
      [.attach 0, .xsend (partLast [1, 65]), .xsend (partMore [7]), .pipe 0 (.hiccup .second),
        .pipe 0 (.deliver .first), .xsend (partLast [8]), .pipe 0 (.read .second),
        .pipe 0 (.read .second)] (by decide +kernel) ?_
    rintro _ n _ ⟨hmsgs, hgot, hsent⟩
    exact ⟨hmsgs, hgot, not_frames _ hmsgs hsent (Nat.lt_succ_self 1) (by decide +kernel)⟩

end XsubNet
end LibZmq
