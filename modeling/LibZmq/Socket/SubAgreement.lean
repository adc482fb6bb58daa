import LibZmq.Socket.Xsub

/-!
# Subscriber and publisher agree

A subscriber and a publisher are connected by one pipe without a high watermark. The subscriber
counts its subscriptions; the publisher keeps a set.

* `Sound`: the requests that are on their way turn the set of the publisher into the set of topics
  with a positive count.
* `subscription_agreement`: when all of them have been processed, the publisher sends the messages
  that the filter of the subscriber accepts, if no counter has wrapped around.
* `subscription_disagreement`: after `2 ^ 32` subscriptions to one topic the subscriber has
  forgotten it.
-/

namespace LibZmq

open LibZmq.Core PipePair List
open Request (apply)

/-! ## A pipe without a watermark -/

/-- The socket's end takes every message, and holds no part of one. -/
structure Channel.Open (c : Channel) : Prop where
  gone : ¬ c.gone
  healthy : c.Healthy
  state : c.pipe.state = .active
  outActive : c.pipe.outActive = true
  hwm : c.pipe.hwm = 0
  begun : c.begun = []

namespace Channel.Open

variable {c : Channel} {cs cs' : Channels} {m : Msg}

theorem writable (h : c.Open) : c.Writable :=
  ⟨h.state, h.outActive, by simp [Pipe.checkHwm, h.hwm]⟩

theorem write (h : (cs p).Open) (hlast : m.hasMore = false) (hmsg : m.Ordinary) :
    ∃ cs', cs.write p m = .ok (true, cs') ∧ (∀ q, q ≠ p → cs' q = cs q) ∧ (cs' p).Open ∧
      (cs' p).sent = (cs p).sent ++ [[m]] := by
  rcases Channels.write_spec h.gone hmsg with ⟨f, -, hsick⟩ | ⟨b, cs', hwrite, hcase⟩
  · exact absurd h.healthy hsick
  rcases hcase with ⟨rfl, hw⟩ | ⟨rfl, ho⟩
  · refine ⟨cs', hwrite, hw.others, ⟨hw.gone, hw.healthy h.healthy, hw.offered.state.trans h.state,
      hw.outActive, hw.offered.hwm.trans h.hwm, by rw [hw.begun, hlast]; rfl⟩, ?_⟩
    rw [hw.sent, hlast, h.begun]
    rfl
  · exact absurd h.writable ho.not_writable

theorem flush (h : (cs p).Open) :
    ∃ cs', cs.flush p = .ok cs' ∧ (∀ q, q ≠ p → cs' q = cs q) ∧ (cs' p).Open ∧
      (cs' p).sent = (cs p).sent := by
  obtain ⟨cs', hflush, hpipe, hc⟩ := Channels.flush_ok h.gone h.healthy
  exact ⟨cs', hflush, hc.others, ⟨hc.gone, hc.healthy h.healthy, by rw [hpipe]; exact h.state,
    by rw [hpipe]; exact h.outActive, by rw [hpipe]; exact h.hwm, hc.begun.trans h.begun⟩, hc.sent⟩

theorem start : (Channel.start 0 0).Open :=
  ⟨by decide +kernel, healthy_start 0 0, rfl, rfl, rfl, rfl⟩

end Channel.Open

namespace Xsub

variable {x : Xsub} {p : PipeId}

theorem foldlM_sendSubscription (h : (cs p).Open) (keys : List Bytes) :
    ∃ cs', keys.foldlM (sendSubscription p) cs = .ok cs' ∧ (∀ q, q ≠ p → cs' q = cs q) ∧
      (cs' p).Open ∧ (cs' p).sent = (cs p).sent ++ keys.map fun key => [subscription key] := by
  induction keys generalizing cs with
  | nil => exact ⟨cs, rfl, fun _ _ => rfl, h, by simp⟩
  | cons key _ ih =>
    obtain ⟨cs₁, hwrite, hothers, hopen, hsent⟩ := h.write (hasMore_subscription key)
      (ordinary_subscription key)
    obtain ⟨cs', hfold, hothers', hopen', hsent'⟩ := ih hopen
    refine ⟨cs', ?_, fun q hq => (hothers' q hq).trans (hothers q hq), hopen', ?_⟩
    · rw [foldlM_cons, sendSubscription, hwrite]
      exact hfold
    · rw [hsent', hsent]
      simp

variable {ms : Multiset Bytes}

/-- An open pipe gets all subscriptions of the cache. -/
theorem sendCached_open (h : (cs p).Open) (hrep : Trie.Represents x.subscriptions ms) :
    ∃ cs', ∃ keys : List Bytes, x.sendCached cs p = .ok cs' ∧ (cs' p).Open ∧
      (cs' p).sent = (cs p).sent ++ keys.map (fun key => [subscription key]) ∧
      ∀ key, key ∈ keys ↔ key ∈ ms := by
  obtain ⟨keys, hkeys, -, hmem⟩ := hrep.behaves.apply
  obtain ⟨cs₁, hfold, -, hopen, hsent⟩ := foldlM_sendSubscription h keys
  obtain ⟨cs', hflush, -, hopen', hsent'⟩ := hopen.flush
  refine ⟨cs', keys, ?_, hopen', hsent'.trans hsent, hmem⟩
  rw [sendCached, Xpub.liftTrie_ok hkeys]
  simp [hfold, hflush]

/-- A message of one part that the user can send. The body of a command follows its name, which
does not begin with the byte of a subscription. -/
def Sendable (m : Msg) : Prop :=
  m.hasMore = false ∧ m.isDelimiter = false ∧ m.isCredential = false ∧
    (m.isCancel = true → m.data.head? ≠ some 1) ∧
    (m.isSubscribe = true ∨ m.isCancel = true → m.commandBody.isSome = true)

instance (m : Msg) : Decidable (Sendable m) := inferInstanceAs (Decidable (_ ∧ _ ∧ _ ∧ _ ∧ _))

/-- The request of a message, if it is one. -/
def asks (m : Msg) : Option Request := ((request? m).toOption).join

theorem sendable_subscription (key : Bytes) :
    Sendable (subscription key) ∧ asks (subscription key) = some ⟨true, key⟩ := by
  have hsub : (subscription key).isSubscribe = false := by
    simp [subscription, Msg.isSubscribe]
    decide
  have hcancel : (subscription key).isCancel = false := by
    simp [subscription, Msg.isCancel]
    decide
  obtain ⟨hd, hcred⟩ := ordinary_subscription key
  refine ⟨⟨hasMore_subscription key, hd, hcred,
    by simp [hcancel], by simp [hsub, hcancel]⟩, ?_⟩
  have hreq : request? (subscription key) = .ok (some ⟨true, key⟩) := by
    rw [request?, hsub]
    rfl
  rw [asks, hreq]
  rfl

attribute [local simp] Xpub.request? request? Xsub.key

/-- Both sockets find the same request. -/
theorem request?_eq {y : Xpub} (h : Sendable m) (hfirst : y.moreRecv = false) :
    request? m = .ok (asks m) ∧ y.request? m = .ok (asks m) := by
  obtain ⟨-, -, -, hname, hbody⟩ := h
  suffices hboth : ∃ r, request? m = .ok r ∧ y.request? m = .ok r by
    obtain ⟨r, hr, hr'⟩ := hboth
    have hasks : asks m = r := by
      rw [asks, hr]
      rfl
    rw [hasks]
    exact ⟨hr, hr'⟩
  by_cases hs : m.isSubscribe = true
  · obtain ⟨key, hkey⟩ := Option.isSome_iff_exists.mp (hbody (.inl hs))
    exact ⟨some ⟨true, key⟩, by simp [hs, hkey], by simp [hfirst, hs, hkey]⟩
  by_cases hc : m.isCancel = true
  · obtain ⟨key, hkey⟩ := Option.isSome_iff_exists.mp (hbody (.inr hc))
    exact ⟨some ⟨false, key⟩, by simp [hs, hc, hname hc, hkey], by simp [hfirst, hs, hc, hkey]⟩
  -- an old-style request is recognised by its first byte
  cases hdata : m.data with
  | nil => exact ⟨none, by simp [hs, hc, hdata], by simp [hs, hc, hdata]⟩
  | cons b key =>
    by_cases hone : b = 1
    · exact ⟨some ⟨true, key⟩, by simp [hs, hdata, hone], by simp [hfirst, hs, hc, hdata, hone]⟩
    by_cases hzero : b = 0
    · exact ⟨some ⟨false, key⟩, by
        simp [hs, hc, hdata, hzero],
        by simp [hfirst, hs, hc, hdata, hzero]⟩
    · exact ⟨none, by simp [hs, hc, hdata, hone, hzero], by simp [hs, hc, hdata, hone, hzero]⟩

/-- The topics of the subscriptions, as the publisher knows them. -/
def topics (ms : Multiset Bytes) : Finset (Bytes × PipeId) :=
  ms.toFinset.image fun key => (key, 0)

theorem mem_topics {key : Bytes} : (key, p) ∈ topics ms ↔ key ∈ ms ∧ p = 0 := by
  simp only [topics, Finset.mem_image, Multiset.mem_toFinset, Prod.mk.injEq]
  constructor
  · rintro ⟨k, hk, rfl, rfl⟩
    exact ⟨hk, rfl⟩
  · rintro ⟨hk, rfl⟩
    exact ⟨key, hk, rfl, rfl⟩

theorem topics_cons (key : Bytes) (ms : Multiset Bytes) :
    topics (key ::ₘ ms) = insert (key, 0) (topics ms) := by
  simp [topics]

/-- Only the last cancellation takes a topic away. -/
theorem topics_erase (key : Bytes) (ms : Multiset Bytes) :
    topics (ms.erase key) = if ms.count key = 1 then (topics ms).erase (key, 0) else topics ms := by
  ext ⟨k, p⟩
  have hcount := Multiset.count_erase_self key ms
  by_cases hone : ms.count key = 1
  · rw [if_pos hone, Finset.mem_erase, mem_topics, mem_topics]
    rcases eq_or_ne k key with rfl | hne
    · have hgone : k ∉ ms.erase k := Multiset.count_eq_zero.mp (by omega)
      simp only [hgone, false_and, false_iff]
      rintro ⟨hp, -, rfl⟩
      exact hp rfl
    · rw [Multiset.mem_erase_of_ne hne]
      simp [hne]
  · rw [if_neg hone, mem_topics, mem_topics]
    rcases eq_or_ne k key with rfl | hne
    · have hmem : k ∈ ms.erase k ↔ k ∈ ms := by
        rw [← Multiset.count_pos, ← Multiset.count_pos]
        omega
      rw [hmem]
    · rw [Multiset.mem_erase_of_ne hne]

/-- A request changes the topics, and is passed on if it does. -/
theorem applyRequest_topics (request : Option Request) (h : Trie.Represents x.subscriptions ms)
    (hcount : ∀ key, request = some ⟨true, key⟩ → ms.count key + 1 < 2 ^ 32) :
    ∃ t process told ms', x.applyRequest request =
        .ok ({ x with subscriptions := t, processSubscribe := process }, told) ∧
      Trie.Represents t ms' ∧
      topics ms' = if told then request.toList.foldl (apply 0) (topics ms) else topics ms := by
  rcases request with _ | ⟨_ | _, key⟩
  · exact ⟨x.subscriptions, x.processSubscribe, true, ms, rfl, h, rfl⟩
  · obtain ⟨t, hrm, hrep, -⟩ := Trie.rm_spec h key
    refine ⟨t, true, _, _, by rw [applyRequest, Xpub.liftTrie_ok hrm]; rfl, hrep, ?_⟩
    rw [topics_erase]
    simp [apply]
  · obtain ⟨t, hadd, hrep⟩ := Trie.add_spec h key (hcount key rfl)
    refine ⟨t, true, true, _, by rw [applyRequest, Xpub.liftTrie_ok hadd]; rfl, hrep, ?_⟩
    rw [topics_cons]
    simp [apply]

end Xsub

/-- A subscriber and a publisher with a pipe between them. -/
structure SubLink where
  xsub : Xsub
  /-- The pipes of the subscriber, of which `0` leads to the publisher. -/
  channels : Channels
  xpub : Xpub
  attached : Bool
  /-- How many messages the publisher has processed. -/
  processed : Nat

namespace SubLink

inductive Act where
  | attach
  /-- The user of the subscriber sends a message. -/
  | send (m : Msg)
  /-- The publisher processes the next message. -/
  | process
  /-- The user of the publisher receives a message. -/
  | receive
  | setOnlyFirstSubscribe (value : Int)
  | setOption (o : Xpub.Opt) (value : Int)
deriving DecidableEq, Repr

def initial (filter isPub : Bool) : SubLink :=
  { xsub := .new filter
    channels := fun _ => .start 0 0
    xpub := .new isPub
    attached := false
    processed := 0 }

/-- The messages that the subscriber has sent. -/
def sent (n : SubLink) : List (List Msg) := (n.channels 0).sent

/-- The loop of `xread_activated` for the parts of a message. -/
def processParts (x : Xpub) (parts : List Msg) : Except Failure Xpub :=
  parts.foldlM (fun x m => do
    let (x, _) ← x.processPart 0 m
    .ok x) x

def next (n : SubLink) : Act → Except Failure SubLink
  | .attach => do
      let (x, cs) ← n.xsub.xattachPipe n.channels 0
      let d ← n.xpub.dist.attach 0
      .ok { n with xsub := x, channels := cs, xpub := { n.xpub with dist := d }, attached := true }
  | .send m => do
      let (_, x, cs) ← n.xsub.xsend n.channels m
      .ok { n with xsub := x, channels := cs }
  | .process => do
      let x ← processParts n.xpub (n.sent.getD n.processed [])
      .ok { n with xpub := x, processed := n.processed + 1 }
  | .receive => .ok { n with xpub := n.xpub.xrecv.2 }
  | .setOnlyFirstSubscribe value =>
      .ok { n with xsub := (n.xsub.setOnlyFirstSubscribe value).getD n.xsub }
  | .setOption o value => .ok { n with xpub := (n.xpub.setOption o value).getD n.xpub }

/-- The pipe is attached once, messages have one part, and the publisher is not in manual mode. -/
def Enabled (n : SubLink) : Act → Prop
  | .attach => n.attached = false
  | .send m => Xsub.Sendable m
  | .process => n.processed < n.sent.length
  | .receive | .setOnlyFirstSubscribe _ => True
  | .setOption o value => value ≠ 0 → o ≠ .manual ∧ o ≠ .manualLastValue

def Step (n : SubLink) (a : Act) (n' : SubLink) : Prop := n.Enabled a ∧ n.next a = .ok n'

/-- The counter of a topic does not wrap around. -/
def Countable (n : SubLink) : Act → Prop
  | .send m => ∀ r ∈ Xsub.asks m, r.subscribe = true →
      (n.xsub.subscriptions.get r.key).toNat + 1 < 2 ^ 32
  | _ => True

/-- The publisher and the subscriber agree. -/
structure Agrees (n : SubLink) : Prop where
  topics : ∀ topic, 0 ∈ n.xpub.subscriptions.pipes topic ↔ n.xsub.subscriptions.get topic ≠ 0
  /-- The publisher marks the pipe as matching if the filter of the subscriber accepts the
  message. -/
  filter : ∀ m, ∃ x accepts, n.xpub.markPipes m = .ok x ∧ n.xsub.matches? m = .ok accepts ∧
    (x.dist.Matching 0 ↔ accepts = true)

/-- Every step can be made, and after the last message the two sockets agree. -/
structure Agreement (n : SubLink) : Prop where
  runs : ∀ a, n.Enabled a → n.Countable a → ∃ n', n.next a = .ok n'
  agrees : n.attached = true → n.processed = n.sent.length → n.Agrees

/-! ## The invariant -/

variable {n n' : SubLink} {m : Msg} {attached : Bool}

/-- The only pipe of the distributor is `0`, if it is attached. -/
structure Holds (d : Dist) (attached : Bool) : Prop where
  nested : d.Nested
  between : d.more = false
  mem : ∀ q, q ∈ d.pipes ↔ attached = true ∧ q = 0
  active : attached = true → d.Active 0

theorem holds_new : Holds .new false :=
  ⟨Dist.nested_new, rfl, fun _ => iff_of_false nofun nofun, nofun⟩

theorem Holds.attach (h : Holds d false) :
    ∃ d', d.attach 0 = .ok d' ∧ Holds d' true ∧ ∀ q, d'.Matching q ↔ d.Matching q := by
  have hnone : ∀ q, q ∉ d.pipes := fun q hq => Bool.false_ne_true ((h.mem q).mp hq).1
  obtain ⟨d', hd', hg⟩ := Dist.attach_spec h.nested (hnone 0)
  refine ⟨d', hd', ⟨hg.nested, hg.more.trans h.between, fun q => ?_, fun _ => ?_⟩, hg.matching⟩
  · rw [hg.mem]
    simp [hnone q]
  · exact (hg.active 0).mpr (.inr ⟨h.between, rfl⟩)

/-- A message goes to the pipe, if it is attached. -/
theorem Holds.sendToAll (h : Holds d attached) (hopen : (cs 0).Open) (hm : Xsub.Sendable m) :
    ∃ d' cs', d.sendToAll cs m = .ok (d', cs') ∧ Holds d' attached ∧ (cs' 0).Open ∧
      (cs' 0).sent = (cs 0).sent ++ if attached then [[m]] else [] := by
  obtain ⟨hlast, hd, hcred, -, -⟩ := hm
  have hzero : ∀ p ∈ d.pipes, p = 0 := fun p hp => ((h.mem p).mp hp).2
  have hnested : Dist.Nested { d with matching := d.active } := { h.nested with matching := le_rfl }
  rcases Dist.sendToMatching_spec ⟨hd, hcred⟩ hnested
    (fun q hq => hzero q hq.1 ▸ hopen.gone) with ⟨-, q, hq, hsick⟩ | ⟨d', cs', hok, hp⟩
  · exact absurd (hzero q hq.1 ▸ hopen.healthy) hsick
  refine ⟨d', cs', hok,
    ⟨hp.nested, hp.more.trans hlast, fun q => (hp.mem q).trans (h.mem q), ?_⟩, ?_⟩
  · intro hyes
    have helig : d'.Eligible 0 := (hp.eligible 0).mpr
      ⟨h.nested.eligible_of_active (h.active hyes), fun _ => hopen.writable⟩
    exact ⟨helig.1, (hp.nested.between (hp.more.trans hlast)).symm ▸ helig.2⟩
  · cases attached with
    | true =>
      have hpassed : (cs 0).Passed (cs' 0) m := hp.each 0 (h.active rfl)
      have hst := hpassed.offered.state.trans hopen.state
      refine ⟨⟨hpassed.gone, hpassed.kept.healthy hopen.healthy, hst, ?_,
        hpassed.offered.hwm.trans hopen.hwm, ?_⟩, ?_⟩
      · rw [hpassed.offered.outActive hst, decide_eq_true hopen.writable]
      · rw [hpassed.begun, if_pos hopen.writable, hlast]
        rfl
      · rw [hpassed.sent, if_pos ⟨hopen.writable, hlast⟩, hopen.begun]
        rfl
    | false =>
      have hnot : ¬ d.Active 0 := fun hact => Bool.false_ne_true ((h.mem 0).mp hact.1).1
      have hsame : cs' 0 = cs 0 := hp.others 0 hnot
      rw [hsame]
      exact ⟨hopen, by simp⟩

/-- The requests of some messages. -/
def requests (msgs : List (List Msg)) : List Request := msgs.flatten.filterMap Xsub.asks

/-- The requests that are on their way make the publisher agree with the subscriber. -/
structure Sound (n : SubLink) : Prop where
  channel : (n.channels 0).Open
  sub : Holds n.xsub.dist n.attached
  pub : Holds n.xpub.dist n.attached
  unmatched : ∀ q, ¬ n.xpub.dist.Matching q
  first : n.xsub.moreSend = false ∧ n.xpub.moreRecv = false
  plain : n.xpub.manual = false ∧ n.xpub.invertMatching = false ∧ n.xsub.invertMatching = false
  /-- Before the pipe is attached nothing is sent. -/
  fresh : n.attached = false → n.xsub.fq = .new ∧ n.sent = []
  sendable : ∀ msg ∈ n.sent, ∃ m, msg = [m] ∧ Xsub.Sendable m
  processed : n.processed ≤ n.sent.length
  agree : ∃ ms subs, Trie.Represents n.xsub.subscriptions ms ∧
    n.xpub.subscriptions.Represents subs ∧
    (requests (n.sent.drop n.processed)).foldl (Request.apply 0) subs =
      if n.attached then Xsub.topics ms else ∅

theorem sound_initial (filter isPub : Bool) : (initial filter isPub).Sound where
  channel := .start
  sub := holds_new
  pub := holds_new
  unmatched _ hq := nomatch hq.1
  first := ⟨rfl, rfl⟩
  plain := ⟨rfl, rfl, rfl⟩
  fresh _ := ⟨rfl, rfl⟩
  sendable := nofun
  processed := le_rfl
  agree := ⟨0, ∅, Trie.represents_new, Mtrie.represents_new, rfl⟩

theorem requests_append (l l' : List (List Msg)) :
    requests (l ++ l') = requests l ++ requests l' := by
  simp [requests]

theorem requests_singleton (m : Msg) : requests [[m]] = (Xsub.asks m).toList := by
  rw [requests]
  cases hasks : Xsub.asks m <;> simp [hasks]

theorem requests_cached (keys : List Bytes) :
    requests (keys.map fun key => [Xsub.subscription key]) = keys.map (Request.mk true) := by
  induction keys with
  | nil => rfl
  | cons key _ ih =>
    rw [map_cons, ← singleton_append, requests_append, requests_singleton, ih,
      (Xsub.sendable_subscription key).2]
    rfl

variable {x : Xpub} {value : Int} {request : Option Request}

theorem mem_foldl_subscribe {keys : List Bytes} :
    (k, p) ∈ (keys.map (Request.mk true)).foldl (apply 0) subs ↔
      (k ∈ keys ∧ p = 0) ∨ (k, p) ∈ subs := by
  induction keys generalizing subs with
  | nil => simp
  | cons _ _ ih =>
    rw [map_cons, foldl_cons, ih, apply, if_pos rfl, Finset.mem_insert, Prod.mk.injEq, mem_cons]
    tauto

theorem Sound.attach (h : n.Sound) (hen : n.Enabled .attach) :
    ∃ n', n.next .attach = .ok n' ∧ n'.Sound := by
  have hno : n.attached = false := hen
  obtain ⟨hfq, hnil⟩ := h.fresh hno
  obtain ⟨ms, subs, hms, hsubs, hagree⟩ := h.agree
  obtain ⟨d, hd, hsub, -⟩ := (hno ▸ h.sub).attach
  obtain ⟨d', hd', hpub, hmatch⟩ := (hno ▸ h.pub).attach
  obtain ⟨l, hl, -⟩ := Fq.attach_eq (f := .new)
    (FqNet.sound_initial (fun _ => 0) fun _ => 0).agreed.placed nofun
  obtain ⟨cs, keys, hcached, hopen, hsent, hkeys⟩ := Xsub.sendCached_open h.channel hms
  have hnil' : (n.channels 0).sent = [] := hnil
  rw [hnil', nil_append] at hsent
  have hzero : n.processed = 0 := Nat.le_zero.mp (by simpa [hnil] using h.processed)
  have hempty : subs = ∅ := by simpa [hnil, hno, requests] using hagree
  refine ⟨{ n with
    xsub := { n.xsub with fq := { Fq.new with pipes := l }, dist := d }
    channels := cs
    xpub := { n.xpub with dist := d' }
    attached := true }, ?_, ?_⟩
  · rw [next, Xsub.xattachPipe, hfq, hl]
    simp [hd, hcached, hd']
  · refine ⟨hopen, hsub, hpub, fun q hq => h.unmatched q ((hmatch q).mp hq), h.first, h.plain,
      nofun, fun _ hmsg => ?_, by rw [hzero]; exact Nat.zero_le _, ms, subs, hms, hsubs, ?_⟩
    · rw [sent, hsent] at hmsg
      obtain ⟨key, -, rfl⟩ := mem_map.mp hmsg
      exact ⟨_, rfl, (Xsub.sendable_subscription key).1⟩
    · simp only [sent, hzero, drop_zero, hsent, requests_cached, if_true]
      ext ⟨k, p⟩
      rw [mem_foldl_subscribe, hempty, Xsub.mem_topics, hkeys]
      simp

/-- The first part of a message is looked at. -/
theorem process_first {x : Xsub} (hfirst : x.moreSend = false)
    (hr : Xsub.request? m = .ok request) :
    x.process m = Xsub.applyRequest
      { x with moreSend := m.hasMore, processSubscribe := !x.onlyFirstSubscribe } request := by
  rw [Xsub.process, hfirst, hr]
  rfl

theorem Sound.send (h : n.Sound) (hen : n.Enabled (.send m)) (hcount : n.Countable (.send m)) :
    ∃ n', n.next (.send m) = .ok n' ∧ n'.Sound := by
  have hm : Xsub.Sendable m := hen
  obtain ⟨ms, subs, hms, hsubs, hagree⟩ := h.agree
  obtain ⟨hr, -⟩ := Xsub.request?_eq hm h.first.2
  obtain ⟨t, process, told, ms', happly, hms', htopics⟩ := Xsub.applyRequest_topics
    (x := { n.xsub with moreSend := m.hasMore, processSubscribe := !n.xsub.onlyFirstSubscribe })
    (Xsub.asks m) hms fun _ hkey => by
      have := hcount _ hkey rfl
      rwa [hms.count] at this
  have hprocess := (process_first h.first.1 hr).trans happly
  cases told with
  | false =>
    -- at most the count of a topic has changed
    refine ⟨{ n with xsub := { n.xsub with
      subscriptions := t, processSubscribe := process, moreSend := m.hasMore } }, ?_, ?_⟩
    · rw [next, Xsub.xsend, hprocess]
      rfl
    · refine { h with first := ⟨hm.1, h.first.2⟩, agree := ⟨ms', subs, hms', hsubs, ?_⟩ }
      rw [htopics]
      exact hagree
  | true =>
    -- the publisher gets the request, if it is attached
    obtain ⟨d, cs, hsend, hsub, hopen, hsent⟩ := h.sub.sendToAll h.channel hm
    refine ⟨{ n with
      xsub := { n.xsub with
        subscriptions := t, processSubscribe := process, moreSend := m.hasMore, dist := d }
      channels := cs }, ?_, ?_⟩
    · rw [next, Xsub.xsend, hprocess]
      simp only [ok_bind, if_true, Xsub.sendToAll, hsend]
    · rw [if_pos rfl] at htopics
      have hsent' : (cs 0).sent = n.sent ++ if n.attached then [[m]] else [] := hsent
      refine ⟨hopen, hsub, h.pub, h.unmatched, ⟨hm.1, h.first.2⟩, h.plain, fun hno => ?_,
        fun msg hmsg => ?_, ?_, ms', subs, hms', hsubs, ?_⟩
      · obtain ⟨hfq, hnil⟩ := h.fresh hno
        refine ⟨hfq, hsent'.trans ?_⟩
        have hno' : n.attached = false := hno
        rw [hno', hnil]
        rfl
      · have hmem : msg ∈ (cs 0).sent := hmsg
        rw [hsent'] at hmem
        rcases mem_append.mp hmem with hold | hnew
        · exact h.sendable msg hold
        · split at hnew
          · exact ⟨m, mem_singleton.mp hnew, hm⟩
          · cases hnew
      · show n.processed ≤ (cs 0).sent.length
        rw [hsent', length_append]
        exact Nat.le_add_right_of_le h.processed
      · show (requests ((cs 0).sent.drop n.processed)).foldl (apply 0) subs =
          if n.attached then Xsub.topics ms' else ∅
        rw [hsent', drop_append_of_le_length h.processed, requests_append, foldl_append, hagree]
        cases hatt : n.attached with
        | true =>
          simp only [if_true]
          rw [requests_singleton, htopics]
        | false => rfl

theorem processPart_ok (h : x.subscriptions.Represents subs) (hmanual : x.manual = false)
    (hr : x.request? m = .ok request) :
    ∃ x', x.processPart 0 m = .ok (x', request) ∧ x'.moreRecv = m.hasMore := by
  rw [Xpub.processPart, hr]
  cases request with
  | none => exact ⟨_, rfl, rfl⟩
  | some r =>
    obtain ⟨t, notify, happly, -⟩ := Xpub.applyRequest_spec (x := { x with
      moreRecv := m.hasMore
      processSubscribe := if !x.moreRecv then !x.onlyFirstSubscribe || (some r).isSome
        else x.processSubscribe }) h 0 r
    simp only [ok_bind, hmanual] at happly ⊢
    rw [happly]
    exact ⟨_, rfl, rfl⟩

section
variable (h : n.Sound)
include h

/-- The publisher processes the next message. -/
theorem Sound.process (hen : n.Enabled .process) : ∃ n', n.next .process = .ok n' ∧ n'.Sound := by
  have hlt : n.processed < n.sent.length := hen
  obtain ⟨ms, subs, hms, hsubs, hagree⟩ := h.agree
  obtain ⟨m, hmsg, hm⟩ := h.sendable _ (getElem_mem hlt)
  obtain ⟨-, hr⟩ := Xsub.request?_eq hm h.first.2
  obtain ⟨x, hpart, hmore⟩ := processPart_ok hsubs h.plain.1 hr
  obtain ⟨halike, hrep⟩ := Xpub.processPart_spec hsubs h.plain.1 hpart
  refine ⟨{ n with xpub := x, processed := n.processed + 1 }, ?_, ?_⟩
  · have hget : n.sent.getD n.processed [] = [m] := by
      rw [getD_eq_getElem?_getD, getElem?_eq_getElem hlt, Option.getD_some, hmsg]
    rw [next, hget, processParts, foldlM_cons, hpart]
    rfl
  · refine ⟨h.channel, h.sub, ?_, ?_, ⟨h.first.1, hmore.trans hm.1⟩,
      ⟨halike.manual.trans h.plain.1, halike.invertMatching.trans h.plain.2.1, h.plain.2.2⟩,
      h.fresh, h.sendable, hlt, ms, _, hms, hrep, ?_⟩
    · rw [halike.dist]
      exact h.pub
    · rw [halike.dist]
      exact h.unmatched
    · rw [← hagree, drop_eq_getElem_cons hlt, hmsg, ← singleton_append, requests_append,
        foldl_append, requests_singleton]
      rfl

/-- The publisher changes what does not concern the subscriptions. -/
theorem Sound.keeps (hsubs : x.subscriptions = n.xpub.subscriptions) (hdist : x.dist = n.xpub.dist)
    (hmore : x.moreRecv = n.xpub.moreRecv) (hmanual : x.manual = false)
    (hinvert : x.invertMatching = n.xpub.invertMatching) : Sound { n with xpub := x } where
  __ := h
  pub := hdist ▸ h.pub
  unmatched := hdist ▸ h.unmatched
  first := ⟨h.first.1, hmore.trans h.first.2⟩
  plain := ⟨hmanual, hinvert.trans h.plain.2.1, h.plain.2.2⟩
  agree := by
    rw [hsubs]
    exact h.agree

theorem Sound.receive : Sound { n with xpub := n.xpub.xrecv.2 } := by
  unfold Xpub.xrecv
  split
  · exact h
  · split <;> exact h.keeps rfl rfl rfl h.plain.1 rfl

theorem Sound.setOption (hen : n.Enabled (.setOption o value)) :
    Sound { n with xpub := (n.xpub.setOption o value).getD n.xpub } := by
  unfold Xpub.setOption
  split
  · exact h
  cases o with
  | manual | manualLastValue =>
    have hzero : value = 0 := by
      by_contra hne
      simpa using hen hne
    exact h.keeps rfl rfl rfl (by simp [hzero]) rfl
  | _ => exact h.keeps rfl rfl rfl h.plain.1 rfl

theorem Sound.setOnlyFirstSubscribe :
    Sound { n with xsub := (n.xsub.setOnlyFirstSubscribe value).getD n.xsub } := by
  unfold Xsub.setOnlyFirstSubscribe
  split
  · exact h
  · exact { h with }

theorem Sound.step (hen : n.Enabled a) (hcount : n.Countable a) :
    ∃ n', n.next a = .ok n' ∧ n'.Sound := by
  cases a with
  | attach => exact h.attach hen
  | send => exact h.send hen hcount
  | process => exact h.process hen
  | receive => exact ⟨_, rfl, h.receive⟩
  | setOnlyFirstSubscribe => exact ⟨_, rfl, h.setOnlyFirstSubscribe⟩
  | setOption => exact ⟨_, rfl, h.setOption hen⟩

/-! ## Agreement -/

theorem Sound.agrees (hatt : n.attached = true)
    (hall : n.processed = n.sent.length) : n.Agrees := by
  obtain ⟨ms, subs, hms, hsubs, hagree⟩ := h.agree
  -- nothing is on its way
  have htopics : subs = Xsub.topics ms := by
    rw [hall, drop_length, if_pos hatt] at hagree
    exact hagree
  subst htopics
  refine ⟨fun _ => ?_, fun m => ?_⟩
  · rw [hsubs.pipes, Xsub.mem_topics, and_iff_left rfl, hms.get_ne_zero]
  · obtain ⟨found, hfound, hiff⟩ := hms.behaves.check m.data
    obtain ⟨d, hmark, hg⟩ := Xpub.markPipes_spec h.pub.nested hsubs
      (fun e he => (h.pub.mem e.2).mpr ⟨hatt, (Xsub.mem_topics.mp he).2⟩) h.plain.1 h.pub.between m
    refine ⟨_, found, hmark, ?_, ?_⟩
    · rw [Xsub.matches?, Xpub.liftTrie_ok hfound, h.plain.2.2]
      simp
    · have helig : n.xpub.dist.Eligible 0 :=
        h.pub.nested.eligible_of_active (h.pub.active hatt)
      have hsubscribed : Xpub.Subscribed (Xsub.topics ms) m.data 0 ↔ ∃ p ∈ ms, p <+: m.data := by
        constructor
        · rintro ⟨⟨key, q⟩, hmem, -, hprefix⟩
          exact ⟨key, (Xsub.mem_topics.mp hmem).1, hprefix⟩
        · rintro ⟨key, hmem, hprefix⟩
          exact ⟨(key, 0), Xsub.mem_topics.mpr ⟨hmem, rfl⟩, rfl, hprefix⟩
      rw [hiff, hg.matching, h.plain.2.1, hsubscribed]
      simp [helig, h.unmatched]

end

/-- **The publisher and the subscriber agree on the subscriptions**: in runs in which no counter
wraps around no step fails, and when the publisher has processed all messages, it has the pipe under
the topics with a positive count, and chooses it for the messages that the subscriber accepts. -/
theorem subscription_agreement {filter isPub : Bool} {tr : List Act}
    (h : Exec (Guarded Step Countable) (initial filter isPub) tr n) : n.Agreement := by
  have hsound := h.invariant Sound (fun b a c hb ⟨⟨hen, hnext⟩, hcount⟩ => by
    obtain ⟨c', hnext', hc'⟩ := hb.step hen hcount
    rw [hnext] at hnext'
    cases hnext'
    exact hc') (sound_initial filter isPub)
  refine ⟨fun a hen hcount => ?_, hsound.agrees⟩
  obtain ⟨n', hnext, -⟩ := hsound.step hen hcount
  exact ⟨n', hnext⟩

/-! ## Concrete runs -/

instance (n : SubLink) (a : Act) : Decidable (n.Enabled a) := by
  rcases a <;> dsimp only [Enabled] <;> infer_instance

instance (n : SubLink) (a : Act) : Decidable (n.Countable a) := by
  rcases a <;> dsimp only [Countable] <;> infer_instance

/-- A message of one part. -/
def message (data : Bytes) : Act := .send { Msg.init with data := data }

/-- Two topics are in the cache when the pipe is attached. One of them is subscribed to again and
cancelled once, the other one is cancelled twice, and there is a message of the user. -/
theorem subscription_agreement_two_topics :
    ∃ tr n, Exec (Guarded Step Countable) (initial true false) tr n ∧
      n.attached = true ∧ n.processed = 5 ∧ n.sent.length = 5 ∧ n.Agreement := by
  refine exists_exec_with guarded_of_attempt
    (fun n => n.attached = true ∧ n.processed = 5 ∧ n.sent.length = 5)
    [message [1, 65], message [1, 66], .attach, message [1, 65], .process, message [0, 66],
      message [0, 66], message [0, 65], message [7], .process, .process, .process, .process]
    (by decide +kernel) ?_
  rintro _ _ hexec ⟨hatt, hprocessed, hsent⟩
  exact ⟨hatt, hprocessed, hsent, subscription_agreement hexec⟩

/-- The subscriber after `k` subscriptions to all messages, before the pipe is attached. -/
def subscribed (k : Nat) : SubLink :=
  { initial false false with
    xsub := { Xsub.new false with
      subscriptions := .mk (UInt32.ofNat k) .empty
      processSubscribe := decide (k ≠ 0) } }

theorem step_subscribed (k : Nat) : Step (subscribed k) (message [1]) (subscribed (k + 1)) := by
  refine ⟨show Xsub.Sendable { Msg.init with data := [1] } by decide +kernel, ?_⟩
  have hadd : UInt32.ofNat (k + 1) = UInt32.ofNat k + 1 := by simp
  rw [subscribed, subscribed, hadd]
  rfl

theorem exec_subscribed (k : Nat) : ∃ tr, Exec Step (initial false false) tr (subscribed k) := by
  induction k with
  | zero => exact ⟨[], .nil _⟩
  | succ k ih =>
    obtain ⟨tr, htr⟩ := ih
    exact ⟨_, htr.snoc (step_subscribed k)⟩

/-- The pipe is attached after `2 ^ 32 - 1` subscriptions to all messages. After one more the
counter of the subscriber is zero again, and it accepts nothing; the publisher goes on to send. -/
theorem subscription_disagreement :
    ∃ tr n, Exec Step (initial false false) tr n ∧ n.attached = true ∧
      n.processed = n.sent.length ∧ n.xsub.subscriptions.get [] = 0 ∧
      0 ∈ n.xpub.subscriptions.pipes [] ∧ ¬ n.Agrees := by
  obtain ⟨tr, htr⟩ := exec_subscribed (2 ^ 32 - 1)
  have hrun : ∃ tr n, Exec Step (subscribed (2 ^ 32 - 1)) tr n ∧
      n.attached = true ∧ n.processed = n.sent.length ∧ n.xsub.subscriptions.get [] = 0 ∧
      0 ∈ n.xpub.subscriptions.pipes [] :=
    exists_exec_of_replay step_of_attempt [.attach, message [1], .process, .process]
      (by decide +kernel)
  obtain ⟨tr', n, hexec, hatt, hall, hzero, hmem⟩ := hrun
  exact ⟨tr ++ tr', n, htr.trans hexec, hatt, hall, hzero, hmem,
    fun hagrees => (hagrees.topics []).mp hmem hzero⟩

end SubLink
end LibZmq
