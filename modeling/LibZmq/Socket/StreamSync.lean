import LibZmq.Socket.RoutingIds

/-!
# A `STREAM` socket between two messages

A message for a `STREAM` socket is the routing id of a peer and one further part. `xsend` knows from
`_more_out` which of the two it is given. The flag is also set by a first part without `more`, after
which no further part comes.

* `stream_resynchronises`: if every message begins with a part that announces another one, a message
  is sent to the peer that it names, whatever was sent before it.
* `stream_loses_message`: after a message of a single part the next message is lost.
-/

namespace LibZmq

open LibZmq.Core PipePair Channels
open StreamNet (Act)

namespace Stream

/-- The socket and its pipes agree, and no pipe holds a part of a message. -/
structure InOrder (s : Stream) (cs : Channels) (pipes : Finset PipeId) : Prop where
  lists : s.Lists pipes
  agreed : Fq.Matches s.fq.pipes cs
  mem : ∀ q, q ∈ s.fq.pipes.items ↔ q ∈ pipes
  idle : ∀ q, (cs q).Idle
  out : ∀ p, s.currentOut = some p → p ∈ pipes ∧ s.moreOut = true

variable {s s' : Stream} {cs cs' : Channels} {pipes : Finset PipeId} {p : PipeId} {m : Msg}

theorem InOrder.alive (h : s.InOrder cs pipes) (hp : p ∈ pipes) : ¬ (cs p).gone :=
  h.agreed.alive ((h.mem p).mpr hp)

theorem InOrder.quiet (h : s.InOrder cs pipes) (hagreed : Fq.Matches f.pipes cs')
    (hmem : ∀ q, q ∈ f.pipes.items ↔ q ∈ s.fq.pipes.items) (hquiet : ∀ q, (cs q).Unwritten (cs' q))
    (hbase : s'.toRoutingBase = s.toRoutingBase) (hfq : s'.fq = f)
    (hout : s'.currentOut = s.currentOut) (hmore : s'.moreOut = s.moreOut) :
    s'.InOrder cs' pipes := by
  refine ⟨?_, hfq ▸ hagreed, fun q => ?_, fun q => (hquiet q).idle (h.idle q), fun q hq => ?_⟩
  · rw [hbase]
    exact h.lists
  · rw [hfq, hmem, h.mem]
  · rw [hmore]
    exact h.out q (hout ▸ hq)

theorem identifyPeer_ok (hlists : s.Lists pipes) (hp : p ∉ pipes)
    (hid : s.identifyPeer p loc = .ok s') :
    s'.Lists (insert p pipes) ∧ s'.fq = s.fq ∧ s'.currentOut = s.currentOut ∧
      s'.moreOut = s.moreOut := by
  unfold identifyPeer at hid
  split at hid
  · simp only at hid
    split at hid
    · cases hid
    obtain ⟨b, hb, ⟨⟩⟩ := bind_ok hid
    refine ⟨(RoutingBase.Lists.name ?_ hp hb).1, rfl, rfl, rfl⟩
    exact hlists
  · obtain ⟨b, hb, ⟨⟩⟩ := bind_ok hid
    exact ⟨(hlists.name hp hb).1, rfl, rfl, rfl⟩

theorem InOrder.attach (h : s.InOrder cs pipes) (hp : p ∉ pipes)
    (halive : ¬ (cs p).gone) (hattach : s.xattachPipe p loc = .ok s') :
    s'.InOrder cs (insert p pipes) ∧ s'.moreOut = s.moreOut := by
  obtain ⟨s₁, hid, hattach⟩ := bind_ok hattach
  obtain ⟨f, hf, ⟨⟩⟩ := bind_ok hattach
  obtain ⟨hlists, hfq, hout, hmore⟩ := identifyPeer_ok h.lists hp hid
  have hp' : p ∉ s.fq.pipes.items := fun hmem => hp ((h.mem p).mp hmem)
  obtain ⟨l, hl, hjoins⟩ := Fq.attach_eq h.agreed.placed hp'
  rw [hfq, hl] at hf
  cases hf
  refine ⟨⟨hlists, h.agreed.attach hp' halive hjoins, fun q => ?_, h.idle, fun q hq => ?_⟩, hmore⟩
  · rw [Finset.mem_insert, ← h.mem q, or_comm]
    exact hjoins.mem
  · obtain ⟨hmem, hyes⟩ := h.out q (hout ▸ hq)
    exact ⟨Finset.mem_insert_of_mem hmem, hmore.trans hyes⟩

/-! ## Events -/

theorem handle_fq (h : s.handle cs p e = .ok (s', cs')) : s.fq.handle p e = .ok s'.fq := by
  cases e with
  | readActivated =>
    obtain ⟨s₁, hread, ⟨⟩⟩ := bind_ok h
    obtain ⟨f, hf, ⟨⟩⟩ := bind_ok hread
    exact hf
  | writeActivated =>
    obtain ⟨b, hb, ⟨⟩⟩ := bind_ok h
    rfl
  | pipeTerminated =>
    obtain ⟨s₁, hterm, ⟨⟩⟩ := bind_ok h
    obtain ⟨b, -, hterm⟩ := bind_ok hterm
    obtain ⟨f, hf, ⟨⟩⟩ := bind_ok hterm
    exact hf
  | hiccuped =>
    obtain ⟨-, -, ⟨⟩⟩ := bind_ok h
    rfl
  | statsPublish =>
    cases h
    rfl

theorem InOrder.terminated (h : s.InOrder cs pipes) (hp : p ∈ pipes)
    (hterm : s.xpipeTerminated p = .ok s') :
    s'.Lists (pipes.erase p) ∧ s'.moreOut = s.moreOut ∧
      ∀ q, s'.currentOut = some q → q ≠ p ∧ s.currentOut = some q := by
  obtain ⟨herase, hlists⟩ := h.lists.erase hp
  obtain ⟨b, hb, hterm⟩ := bind_ok hterm
  obtain ⟨f, -, heq⟩ := bind_ok hterm
  rw [herase] at hb
  cases hb
  cases heq
  refine ⟨hlists, rfl, fun q hq => ?_⟩
  split at hq
  · cases hq
  rename_i hne
  refine ⟨?_, hq⟩
  rintro rfl
  exact hne hq

theorem InOrder.hears
    (h : s.InOrder cs pipes) (hout : cs.Outside pipes p a) (hact : cs.act p a = .ok (ev, cs₁))
    (hhandle : ev.foldlM (fun (s, cs) e => s.handle cs p e) (s, cs₁) = .ok (s', cs')) :
    s'.InOrder cs' (remaining pipes p ev) ∧ s'.moreOut = s.moreOut := by
  obtain ⟨f, hf, htold, hmem⟩ := Fq.hears h.agreed h.mem hout hact
  have htells := act_tells hout hact
  have hidle := htells.rests.idle h.idle
  rcases htells.few with rfl | ⟨e, rfl⟩
  · cases hf
    cases hhandle
    exact ⟨⟨h.lists, htold.agreed, hmem, hidle, h.out⟩, rfl⟩
  simp only [foldlM_singleton] at hhandle hf
  rw [handle_fq hhandle] at hf
  cases hf
  have hp := htells.mem nofun
  by_cases hterm : e = .pipeTerminated
  · subst hterm
    obtain ⟨s₁, hs₁, ⟨⟩⟩ := bind_ok hhandle
    obtain ⟨hlists, hmore, hcur⟩ := h.terminated hp hs₁
    refine ⟨⟨hlists, htold.agreed, hmem, hidle, fun q hq => ?_⟩, hmore⟩
    obtain ⟨hne, hq⟩ := hcur q hq
    obtain ⟨hq, hyes⟩ := h.out q hq
    exact ⟨Finset.mem_erase.mpr ⟨hne, hq⟩, hmore.trans hyes⟩
  have hpipes : remaining pipes p [e] = pipes := if_neg (by simpa using hterm)
  rw [hpipes] at hmem ⊢
  obtain ⟨-, hcur, hmore, hbase, hcs⟩ := handle_quiet hterm hhandle
  have hlists : s'.Lists pipes := by
    rcases hbase with hbase | hb
    · rw [hbase]
      exact h.lists
    · exact (h.lists.xwriteActivated hb).1
  have hout' : ∀ q, s'.currentOut = some q → q ∈ pipes ∧ s'.moreOut = true := by
    rw [hcur, hmore]
    exact h.out
  -- only `hiccuped` calls the pipe
  rcases hcs with rfl | hhic
  · exact ⟨⟨hlists, htold.agreed, hmem, hidle, hout'⟩, hmore⟩
  · have halive := htold.agreed.alive ((hmem p).mpr hp)
    have hrests := (hiccuped_rests halive hhic).1
    exact ⟨⟨hlists, htold.agreed.hiccuped halive hhic, hmem, hrests.idle hidle, hout'⟩, hmore⟩

/-! ## Sending -/

theorem InOrder.sendLabel (h : s.InOrder cs pipes) (hnone : s.currentOut = none) (m : Msg) :
    (s.sendLabel cs m).2.1.InOrder (s.sendLabel cs m).2.2 pipes := by
  unfold Stream.sendLabel
  split
  · exact h
  rename_i e hlook
  obtain ⟨hp, -⟩ := h.lists.lookup hlook
  have halive := h.alive hp
  have hidle := (checkWrite_offers halive).idle h.idle
  have hagreed := h.agreed.kept (checkWrite_offers halive).all_kept
  split
  · rename_i cs₁ hcheck
    rw [hcheck] at hidle hagreed
    refine ⟨h.lists, hagreed, h.mem, hidle, fun q hq => ?_⟩
    cases hq
    exact ⟨hp, rfl⟩
  · rename_i cs₁ hcheck
    rw [hcheck] at hidle hagreed
    exact ⟨h.lists.deactivate hlook, hagreed, h.mem, hidle, by simp [hnone]⟩

theorem moreOut_sendBody (hsend : s.sendBody cs p m = .ok (res, s', cs')) :
    s'.moreOut = s.moreOut := by
  unfold sendBody at hsend
  split at hsend
  · obtain ⟨cs₁, -, ⟨⟩⟩ := bind_ok hsend
    rfl
  obtain ⟨⟨b, cs₁⟩, -, hsend⟩ := bind_ok hsend
  cases b with
  | false =>
    cases hsend
    rfl
  | true =>
    obtain ⟨-, -, ⟨⟩⟩ := bind_ok hsend
    rfl

theorem InOrder.sendBody (h : s.InOrder cs pipes) (hp : p ∈ pipes)
    (hmore : m.hasMore = false) (hmsg : m.Ordinary)
    (hsend : Stream.sendBody { s with moreOut := false } cs p m = .ok (res, s', cs')) :
    s'.InOrder cs' pipes := by
  have halive := h.alive hp
  unfold Stream.sendBody at hsend
  split at hsend
  · obtain ⟨cs₁, hterm, ⟨⟩⟩ := bind_ok hsend
    have hrests := (terminate_rests halive hterm).1
    exact ⟨h.lists, h.agreed.terminate halive hterm, h.mem, hrests.idle h.idle, nofun⟩
  obtain ⟨⟨b, cs₁⟩, hwrite, hsend⟩ := bind_ok hsend
  rcases write_cases halive hmsg hwrite with ⟨rfl, hwrites⟩ | ⟨rfl, hoffers⟩
  · obtain ⟨cs₂, hflush, ⟨⟩⟩ := bind_ok hsend
    have hidle := hwrites.toCalls.idle h.idle fun _ => by simp [hmore]
    obtain ⟨hpipe, hcalls⟩ := flush_calls hwrites.gone hflush
    refine ⟨h.lists, (h.agreed.kept hwrites.all_kept).kept hcalls.all_kept, h.mem,
      hcalls.idle hidle fun hst => ?_, nofun⟩
    exact hidle p (hpipe ▸ hst)
  · cases hsend
    exact ⟨h.lists, h.agreed.kept hoffers.all_kept, h.mem, hoffers.idle h.idle, nofun⟩

theorem InOrder.send (h : s.InOrder cs pipes) (hmsg : m.Ordinary)
    (hsend : s.xsend cs m = .ok (res, s', cs')) : s'.InOrder cs' pipes := by
  unfold xsend at hsend
  split at hsend
  · split at hsend
    · cases hsend
    rename_i hnone
    have hnone : s.currentOut = none := by simpa using hnone
    split at hsend
    · have hres := h.sendLabel hnone m
      rw [Except.ok.inj hsend] at hres
      exact hres
    · cases hsend
      exact { h with out := by simp [hnone] }
  · simp only at hsend
    split at hsend
    · rename_i hnone
      cases hsend
      exact { h with out := by simp [hnone] }
    · rename_i p hp
      exact h.sendBody (h.out p hp).1 (by simp) (by simpa [Msg.Ordinary] using hmsg) hsend

/-- More parts are expected only after a first part that was accepted. -/
theorem moreOut_send (hann : s.moreOut = false → m.hasMore = true)
    (hsend : s.xsend cs m = .ok (res, s', cs')) (hyes : s'.moreOut = true) :
    res = .accepted ∧ m.hasMore = true := by
  unfold xsend at hsend
  split at hsend
  · rename_i hno
    have hno : s.moreOut = false := by simpa using hno
    split at hsend
    · cases hsend
    rw [if_pos (hann hno)] at hsend
    have hlabel := Except.ok.inj hsend
    unfold sendLabel at hlabel
    refine ⟨?_, hann hno⟩
    split at hlabel
    · cases hlabel
      rw [hno] at hyes
      cases hyes
    split at hlabel
    · cases hlabel
      rfl
    · cases hlabel
      simp [hno] at hyes
  · simp only at hsend
    have hbody : s'.moreOut = false := by
      split at hsend
      · cases hsend
        rfl
      · exact moreOut_sendBody hsend
    rw [hbody] at hyes
    cases hyes

/-- The pipe `p` has got the message `body` and nothing else, or is closed if `body` is empty. -/
def Delivered (cs cs' : Channels) (p : PipeId) (body : Msg) : Prop :=
  if body.data = [] then cs.terminate p false = .ok cs'
  else
    (∀ q, q ≠ p → cs' q = cs q) ∧ (cs' p).sent = (cs p).sent ++ [[body.resetMore]] ∧
      (cs' p).begun = [] ∧ (cs' p).flushes = (cs p).flushes + 1

section
variable (h : s.InOrder cs pipes)
include h

/-- The second part of a message is written to the pipe that the first one has named. -/
theorem InOrder.delivers (hp : s.currentOut = some p)
    (hmsg : body.Ordinary) (hw : (cs.checkWrite p).1 = true) :
    ∃ s' cs', s.xsend cs body = .ok (.accepted, s', cs') ∧ Delivered cs cs' p body ∧
      s'.moreOut = false ∧ s'.currentOut = none := by
  obtain ⟨hmem, hmore⟩ := h.out p hp
  have halive := h.alive hmem
  have hh := h.agreed.healthy p
  have hsend : s.xsend cs body =
      Stream.sendBody { s with moreOut := false } cs p body.resetMore := by
    simp [xsend, hmore, hp]
  have hdata : body.resetMore.data = body.data := rfl
  rw [hsend]
  unfold Delivered Stream.sendBody
  by_cases hempty : body.data = []
  · obtain ⟨cs', hterm⟩ := terminate_ok halive hh false
    refine ⟨{ s with moreOut := false, currentOut := none }, cs', ?_, ?_, rfl, rfl⟩
    · simp [hdata, hempty, hterm]
    · rw [if_pos hempty]
      exact hterm
  obtain ⟨cs₁, hwrite, hwrites⟩ := write_of_writable (m := body.resetMore) halive hh
    (by simpa [Msg.Ordinary] using hmsg) hw
  obtain ⟨cs', hflush, -, hcalls⟩ := flush_ok hwrites.gone (hwrites.healthy hh)
  refine ⟨{ s with moreOut := false, currentOut := none }, cs', ?_, ?_, rfl, rfl⟩
  · simp [hdata, hempty, hwrite, hflush]
  · rw [if_neg hempty]
    refine ⟨fun q hq => (hcalls.others q hq).trans (hwrites.others q hq), ?_, ?_, ?_⟩
    · rw [hcalls.sent, hwrites.sent, h.idle p hwrites.writable.1]
      simp
    · rw [hcalls.begun, hwrites.begun]
      simp
    · rw [hcalls.flushes, hwrites.flushes]

/-- The first part of a message names a pipe that can be written. -/
theorem InOrder.labels {id : Msg} (hno : s.moreOut = false) (hid : id.hasMore = true)
    (hlook : s.lookupOutPipe id.data = some e) (hw : (cs.checkWrite e.pipe).1 = true) :
    s.xsend cs id = .ok (.accepted, { s with moreOut := true, currentOut := some e.pipe }, cs) ∧
      InOrder { s with moreOut := true, currentOut := some e.pipe } cs pipes := by
  have hnone : s.currentOut = none := by
    by_contra hsome
    obtain ⟨q, hq⟩ := Option.ne_none_iff_exists'.mp hsome
    rw [(h.out q hq).2] at hno
    cases hno
  have hcheck : cs.checkWrite e.pipe = (true, cs) := Prod.ext hw (checkWrite_of_writable hw)
  constructor
  · simp [xsend, hno, hnone, hid, Stream.sendLabel, hlook, hcheck]
  · refine { h with out := fun q hq => ?_ }
    cases hq
    exact ⟨(h.lists.lookup hlook).1, rfl⟩

/-! ## Receiving -/

theorem InOrder.polls (hpolls : Polls s cs s' cs') :
    s'.InOrder cs' pipes ∧ s'.moreOut = s.moreOut := by
  refine ⟨?_, hpolls.more⟩
  rcases hpolls.fq with ⟨hfq, rfl⟩ | ⟨found, hpoll⟩
  · exact h.quiet h.agreed (fun _ => .rfl) (fun _ => .refl _) hpolls.base hfq hpolls.out hpolls.more
  · have hpolled := Fq.recvpipe_polled h.agreed hpoll
    exact h.quiet hpolled.agreed hpolled.mem (fun q => (hpolled.quiet q).toUnwritten) hpolls.base
      rfl hpolls.out hpolls.more

end
end Stream

/-! ## Runs -/

/-- A `STREAM` socket, its pipes and its user. -/
structure StreamUser where
  net : StreamNet
  /-- The last part that was accepted announced another one. -/
  midway : Bool

namespace StreamUser

/-- `xsend` accepts the part. -/
def accepts (u : StreamUser) (m : Msg) : Bool :=
  match u.net.stream.xsend u.net.channels m with
  | .ok (res, _, _) => res.rc == 0
  | .error _ => false

def midwayAfter (u : StreamUser) : StreamNet.Act → Bool
  | .send m => u.accepts m && m.hasMore
  | .attach _ _ | .pipe _ _ | .recv | .hasIn | .setConnectRoutingId _ => u.midway

def initial (random : UInt32) (immediate : Bool) (hwm₀ hwm₁ : PipeId → Int) : StreamUser :=
  { net := .initial random immediate hwm₀ hwm₁, midway := false }

def next (u : StreamUser) (a : StreamNet.Act) : Except Failure StreamUser := do
  let n ← u.net.next a
  .ok { net := n, midway := u.midwayAfter a }

/-- A pipe is attached once, and lives until the socket is told that it is terminated. -/
def Enabled (u : StreamUser) : StreamNet.Act → Prop
  | .attach p _ => p ∉ u.net.pipes ∧ ¬ (u.net.channels p).gone
  | .pipe p a => u.net.channels.Outside u.net.pipes p a
  | .send m => m.isDelimiter = false ∧ m.isCredential = false
  | .recv | .hasIn | .setConnectRoutingId _ => True

def Step (u : StreamUser) (a : StreamNet.Act) (u' : StreamUser) : Prop :=
  u.Enabled a ∧ u.next a = .ok u'

/-- The first part of a message announces another one. -/
def Announced (u : StreamUser) : StreamNet.Act → Prop
  | .send m => u.net.stream.moreOut = false → m.hasMore = true
  | .attach _ _ | .pipe _ _ | .recv | .hasIn | .setConnectRoutingId _ => True

/-- Messages go to the peers that they name. -/
structure Synchronised (u : StreamUser) : Prop where
  /-- At the beginning of a message, a routing id is accepted that names a pipe which can be
  written, and the part that follows is written to this pipe. -/
  message : u.midway = false → ∀ id body e, id.hasMore = true → body.isDelimiter = false →
    body.isCredential = false → u.net.stream.lookupOutPipe id.data = some e →
    (u.net.channels.checkWrite e.pipe).1 = true →
    ∃ s₁ s₂ cs', u.net.stream.xsend u.net.channels id = .ok (.accepted, s₁, u.net.channels) ∧
      s₁.xsend u.net.channels body = .ok (.accepted, s₂, cs') ∧
      Stream.Delivered u.net.channels cs' e.pipe body ∧ s₂.moreOut = false ∧ s₂.currentOut = none
  /-- The second part of a message is written to the pipe that the first one has named, if this can
  still be written. -/
  body : ∀ body p, u.net.stream.currentOut = some p → body.isDelimiter = false →
    body.isCredential = false → (u.net.channels.checkWrite p).1 = true →
    ∃ s cs', u.net.stream.xsend u.net.channels body = .ok (.accepted, s, cs') ∧
      Stream.Delivered u.net.channels cs' p body ∧ s.moreOut = false ∧ s.currentOut = none

/-! ## The invariant -/

structure Sound (u : StreamUser) : Prop where
  inOrder : u.net.stream.InOrder u.net.channels u.net.pipes
  between : u.midway = false → u.net.stream.moreOut = false

variable {u u' : StreamUser}

theorem sound_initial (random : UInt32) (immediate : Bool) (hwm₀ hwm₁ : PipeId → Int) :
    (initial random immediate hwm₀ hwm₁).Sound where
  inOrder :=
    { lists := RoutingBase.lists_new
      agreed := (FqNet.sound_initial hwm₀ hwm₁).agreed
      mem := fun _ => iff_of_false nofun nofun
      idle := fun _ _ => rfl
      out := nofun }
  between _ := rfl

theorem Sound.send (h : u.Sound) (hen : u.Enabled (.send m))
    (hann : u.Announced (.send m)) (hnext : u.next (.send m) = .ok u') : u'.Sound := by
  obtain ⟨n, hn, heq⟩ := bind_ok hnext
  obtain ⟨⟨res, s, cs⟩, hsend, ⟨⟩⟩ := bind_ok hn
  cases heq
  refine ⟨h.inOrder.send hen hsend, fun hmid => ?_⟩
  by_contra hyes
  obtain ⟨hacc, hmore⟩ := Stream.moreOut_send hann hsend (by simpa using hyes)
  simp [midwayAfter, accepts, hsend, hacc, hmore] at hmid

theorem Sound.other (h : u.Sound)
    (hother : n.stream.InOrder n.channels n.pipes ∧ n.stream.moreOut = u.net.stream.moreOut) :
    Sound { net := n, midway := u.midway } :=
  ⟨hother.1, fun hmid => hother.2.trans (h.between hmid)⟩

theorem Sound.step (h : u.Sound) (hann : u.Announced a) (hstep : Step u a u') : u'.Sound := by
  obtain ⟨hen, hnext⟩ := hstep
  cases a with
  | send => exact h.send hen hann hnext
  | attach =>
    obtain ⟨n, hn, heq⟩ := bind_ok hnext
    obtain ⟨s, hs, ⟨⟩⟩ := bind_ok hn
    cases heq
    exact h.other (h.inOrder.attach hen.1 hen.2 hs)
  | pipe =>
    obtain ⟨n, hn, heq⟩ := bind_ok hnext
    obtain ⟨⟨ev, cs⟩, hact, hn⟩ := bind_ok hn
    obtain ⟨⟨s, cs'⟩, hhandle, ⟨⟩⟩ := bind_ok hn
    cases heq
    exact h.other (h.inOrder.hears hen hact hhandle)
  | recv =>
    obtain ⟨n, hn, heq⟩ := bind_ok hnext
    obtain ⟨⟨part, s, cs⟩, hrecv, ⟨⟩⟩ := bind_ok hn
    cases heq
    exact h.other (h.inOrder.polls (Stream.xrecv_polls hrecv))
  | hasIn =>
    obtain ⟨n, hn, heq⟩ := bind_ok hnext
    obtain ⟨⟨b, s, cs⟩, hin, ⟨⟩⟩ := bind_ok hn
    cases heq
    exact h.other (h.inOrder.polls (Stream.xhasIn_polls hin))
  | setConnectRoutingId =>
    obtain ⟨n, hn, heq⟩ := bind_ok hnext
    cases hn
    cases heq
    refine h.other ⟨{ h.inOrder with lists := ?_ }, rfl⟩
    unfold RoutingBase.setConnectRoutingId
    split
    · exact h.inOrder.lists
    · exact h.inOrder.lists

/-! ## Messages arrive -/

theorem Sound.synchronised (h : u.Sound) : u.Synchronised where
  message := by
    intro hmid _ body e hid hd hcred hlook hw
    obtain ⟨hlabel, hin⟩ := h.inOrder.labels (h.between hmid) hid hlook hw
    obtain ⟨s₂, cs', hbody, hdel, hmore, hcur⟩ := hin.delivers rfl ⟨hd, hcred⟩ hw
    exact ⟨_, s₂, cs', hlabel, hbody, hdel, hmore, hcur⟩
  body := fun _ _ hp hd hcred hw => h.inOrder.delivers hp ⟨hd, hcred⟩ hw

/-- **A `STREAM` socket finds the beginning of a message**: in runs in which the first part of every
message announces another one, a message goes to the peer that it names, whatever was sent
before. -/
theorem stream_resynchronises {random : UInt32} {immediate : Bool} {hwm₀ hwm₁ : PipeId → Int}
    {tr : List StreamNet.Act}
    (h : Exec (Guarded Step Announced) (initial random immediate hwm₀ hwm₁) tr u) :
    u.Synchronised := by
  refine (h.invariant Sound ?_ (sound_initial ..)).synchronised
  rintro b act c hb ⟨hstep, hann⟩
  exact hb.step hann hstep

/-! ## Concrete runs -/

instance (u : StreamUser) (a : StreamNet.Act) : Decidable (u.Enabled a) := by
  rcases a <;> dsimp only [Enabled] <;> infer_instance

instance (u : StreamUser) (a : StreamNet.Act) : Decidable (u.Announced a) := by
  rcases a <;> dsimp only [Announced] <;> infer_instance

/-- A message for a peer that is not there, one whose body carries `more`, and one for each of two
peers. -/
theorem stream_resynchronises_two_peers :
    ∃ tr u, Exec (Guarded Step Announced) (initial 7 true (fun _ => 9) fun _ => 9) tr u ∧
      (u.net.channels 0).sent = [[single 1], [single 3]] ∧
      (u.net.channels 1).sent = [[single 2]] ∧ u.midway = false ∧ u.Synchronised := by
  refine exists_exec_with guarded_of_attempt
    (fun u => (u.net.channels 0).sent = [[single 1], [single 3]] ∧
      (u.net.channels 1).sent = [[single 2]] ∧ u.midway = false)
    [.attach 0 false, .attach 1 false, .send (labelMsg [9]),
      .send (labelMsg (integralRoutingId 7)), .send (labelMsg [1]),
      .send (labelMsg (integralRoutingId 8)), .send (single 2),
      .send (labelMsg (integralRoutingId 7)), .send (single 3)] (by decide +kernel) ?_
  rintro _ _ hexec ⟨h₀, h₁, hmid⟩
  exact ⟨h₀, h₁, hmid, stream_resynchronises hexec⟩

/-- After a message of a single part, the routing id at the beginning of the next one is taken for
the rest of it. The pipe can be written, but gets nothing. -/
theorem stream_loses_message :
    ∃ tr u s₁ s₂, Exec Step (initial 7 true (fun _ => 9) fun _ => 9) tr u ∧ u.midway = false ∧
      u.net.stream.lookupOutPipe (integralRoutingId 7) = some ⟨0, true⟩ ∧
      (u.net.channels.checkWrite 0).1 = true ∧
      u.net.stream.xsend u.net.channels (labelMsg (integralRoutingId 7)) =
        .ok (.accepted, s₁, u.net.channels) ∧
      s₁.xsend u.net.channels (single 1) = .ok (.accepted, s₂, u.net.channels) ∧
      (u.net.channels 0).sent = [] ∧ ¬ u.Synchronised := by
  have hrun : ∃ tr u, Exec Step (initial 7 true (fun _ => 9) fun _ => 9)
      tr u ∧ u.midway = false ∧ u.net.stream.moreOut = true ∧ u.net.stream.currentOut = none ∧
      u.net.stream.lookupOutPipe (integralRoutingId 7) = some ⟨0, true⟩ ∧
      (u.net.channels.checkWrite 0).1 = true ∧ (u.net.channels 0).sent = [] :=
    exists_exec_of_replay step_of_attempt [.attach 0 false, .send (single 5)] (by decide +kernel)
  obtain ⟨tr, u, hexec, hmid, hmore, hout, hlook, hw, hsent⟩ := hrun
  have hlast : (single 1).hasMore = false := by decide
  have hlabel : u.net.stream.xsend u.net.channels (labelMsg (integralRoutingId 7)) =
      .ok (.accepted, { u.net.stream with moreOut := false }, u.net.channels) := by
    simp [Stream.xsend, hmore, hout]
  have hbody : Stream.xsend { u.net.stream with moreOut := false } u.net.channels (single 1) =
      .ok (.accepted, { u.net.stream with moreOut := true }, u.net.channels) := by
    simp [Stream.xsend, hout, hlast]
  refine ⟨tr, u, _, _, hexec, hmid, hlook, hw, hlabel, hbody, hsent, fun hsync => ?_⟩
  obtain ⟨s₁, s₂, cs', hlabel', hbody', hdel, -⟩ :=
    hsync.message hmid (labelMsg (integralRoutingId 7)) (single 1) ⟨0, true⟩ (by decide) (by decide)
      (by decide) hlook hw
  rw [hlabel] at hlabel'
  cases hlabel'
  rw [hbody] at hbody'
  cases hbody'
  have hsent' := hdel.2.1
  simp at hsent'

end StreamUser
end LibZmq
