import LibZmq.Socket.FqReads
import LibZmq.Socket.LbAtomicity

/-!
# Dealers

`dealer_t` (`dealer.cpp`) receives from its pipes in turn and sends to them in turn. The same
pipes are in its fair queue and in its load balancer.

`Wired` is what always holds of both; every call of a dealer keeps it.
-/

namespace LibZmq

open LbNet (Moves)
open LibZmq.Core PipePair Channels List

/-- What `sendpipe` leaves behind for its caller. -/
def SendStatus.result (m : Msg) : SendStatus → SendResult
  | .done _ => .accepted
  | .again => .refused .eagain m
  | .abandoned => { rc := -2, errno := some .eagain, msg := some m }

/-- `dealer_t`. -/
structure Dealer where
  fq : Fq
  lb : Lb
  /-- An empty message is sent to every peer. -/
  probeRouter : Bool
  /-- `options.immediate` is `1`. -/
  immediate : Bool

namespace Dealer

def new (immediate : Bool) : Dealer :=
  { fq := .new, lb := .new, probeRouter := false, immediate := immediate }

/-- An empty message is sent to the peer, if the user wants it. -/
def probe (d : Dealer) (cs : Channels) (p : PipeId) : Except Failure Channels :=
  if d.probeRouter then do
    let (_, cs) ← cs.write p Msg.init
    cs.flush p
  else .ok cs

def xattachPipe (d : Dealer) (cs : Channels) (p : PipeId) : Except Failure (Dealer × Channels) := do
  let cs ← d.probe cs p
  let f ← d.fq.attach p
  let b ← d.lb.attach p
  .ok ({ d with fq := f, lb := b }, cs)

/-- `xsetsockopt` for `ZMQ_PROBE_ROUTER`; `none` stands for `-1` with `EINVAL`. -/
def setProbeRouter (d : Dealer) (value : Int) : Option Dealer :=
  if value ≥ 0 then some { d with probeRouter := decide (value ≠ 0) } else none

def sendpipe (d : Dealer) (cs : Channels) (m : Msg) :
    Except Failure (SendStatus × Dealer × Channels) := do
  let (st, b, cs) ← d.lb.sendpipe cs m
  .ok (st, { d with lb := b }, cs)

def xsend (d : Dealer) (cs : Channels) (m : Msg) :
    Except Failure (SendResult × Dealer × Channels) := do
  let (st, d, cs) ← d.sendpipe cs m
  .ok (st.result m, d, cs)

def recvpipe (d : Dealer) (cs : Channels) :
    Except Failure (Option (PipeId × Msg) × Dealer × Channels) := do
  let (part, f, cs) ← d.fq.recvpipe cs
  .ok (part, { d with fq := f }, cs)

/-- `xrecv`; `none` stands for `-1` with `EAGAIN`. -/
def xrecv (d : Dealer) (cs : Channels) : Except Failure (Option Msg × Dealer × Channels) := do
  let (part, d, cs) ← d.recvpipe cs
  .ok (part.map Prod.snd, d, cs)

def xhasIn (d : Dealer) (cs : Channels) : Except Failure (Bool × Dealer × Channels) := do
  let (b, f, cs) ← d.fq.hasIn cs
  .ok (b, { d with fq := f }, cs)

def xhasOut (d : Dealer) (cs : Channels) : Except Failure (Bool × Dealer × Channels) := do
  let (r, b, cs) ← d.lb.hasOut cs
  .ok (r, { d with lb := b }, cs)

def xreadActivated (d : Dealer) (p : PipeId) : Except Failure Dealer := do
  let f ← d.fq.activated p
  .ok { d with fq := f }

def xwriteActivated (d : Dealer) (p : PipeId) : Except Failure Dealer := do
  let b ← d.lb.activated p
  .ok { d with lb := b }

def xpipeTerminated (d : Dealer) (p : PipeId) : Except Failure Dealer := do
  let f ← d.fq.pipeTerminated p
  let b ← d.lb.pipeTerminated p
  .ok { d with fq := f, lb := b }

def handle (d : Dealer) (cs : Channels) (p : PipeId) :
    PipeEvent → Except Failure (Dealer × Channels)
  | .readActivated => do
      let d ← d.xreadActivated p
      .ok (d, cs)
  | .writeActivated => do
      let d ← d.xwriteActivated p
      .ok (d, cs)
  | .pipeTerminated => do
      let d ← d.xpipeTerminated p
      .ok (d, cs)
  | .hiccuped => do
      let cs ← cs.hiccuped d.immediate p
      .ok (d, cs)
  | .statsPublish _ _ => .ok (d, cs)

variable {d d' : Dealer} {cs cs' : Channels} {p : PipeId} {pipes : Finset PipeId}

/-- The fair queue and the load balancer are told of an event. -/
theorem handle_ok (h : d.handle cs p e = .ok (d', cs')) (he : e ≠ .hiccuped) :
    d.fq.handle p e = .ok d'.fq ∧ d.lb.handle p e = .ok d'.lb ∧ cs' = cs ∧
      d' = { d with fq := d'.fq, lb := d'.lb } := by
  cases e with
  | hiccuped => exact absurd rfl he
  | statsPublish =>
    cases h
    exact ⟨rfl, rfl, rfl, rfl⟩
  | readActivated =>
    obtain ⟨d₁, hd, ⟨⟩⟩ := bind_ok h
    obtain ⟨f, hf, ⟨⟩⟩ := bind_ok hd
    exact ⟨hf, rfl, rfl, rfl⟩
  | writeActivated =>
    obtain ⟨d₁, hd, ⟨⟩⟩ := bind_ok h
    obtain ⟨b, hb, ⟨⟩⟩ := bind_ok hd
    exact ⟨rfl, hb, rfl, rfl⟩
  | pipeTerminated =>
    obtain ⟨d₁, hd, ⟨⟩⟩ := bind_ok h
    obtain ⟨f, hf, hd⟩ := bind_ok hd
    obtain ⟨b, hb, ⟨⟩⟩ := bind_ok hd
    exact ⟨hf, hb, rfl, rfl⟩

/-! ## The queue and the load balancer have the same pipes -/

/-- The fair queue and the load balancer are in order, and have the pipes `pipes`. -/
structure Wired (d : Dealer) (pipes : Finset PipeId) (cs : Channels) : Prop where
  agreed : Fq.Matches d.fq.pipes cs
  queued : ∀ q, q ∈ d.fq.pipes.items ↔ q ∈ pipes
  ranged : Lb.Ranged d.lb.pipes cs
  balanced : ∀ q, q ∈ d.lb.pipes.items ↔ q ∈ pipes
  /-- In the middle of a message there is a current pipe. -/
  current : d.lb.dropping = false → d.lb.more = true → ∃ q, d.lb.pipes.IsCurrent q

theorem wired_new (immediate : Bool) (hwm₀ hwm₁ : PipeId → Int) :
    (new immediate).Wired ∅ fun p => .start (hwm₀ p) (hwm₁ p) where
  agreed := (FqNet.sound_initial hwm₀ hwm₁).agreed
  queued q := iff_of_false nofun (Finset.notMem_empty q)
  ranged := (LbNet.atomic_initial hwm₀ hwm₁).ranged
  balanced q := iff_of_false nofun (Finset.notMem_empty q)
  current := nofun

namespace Wired

variable (h : d.Wired pipes cs)
include h

/-- The load balancer goes from one state to another. -/
theorem moves (hm : Moves ⟨d.lb, cs, messages, opened⟩ a ⟨d'.lb, cs', messages', opened'⟩)
    (hagreed : Fq.Matches d'.fq.pipes cs') (hqueued : ∀ q, q ∈ d'.fq.pipes.items ↔ q ∈ pipes')
    (hbalanced : ∀ q, q ∈ d'.lb.pipes.items ↔ q ∈ pipes') : d'.Wired pipes' cs' :=
  ⟨hagreed, hqueued, hm.ranged h.ranged, hbalanced, hm.exists_current h.ranged h.current⟩

theorem attach (hp : p ∉ pipes) (halive : ¬ (cs p).gone) (hprobe : d.probeRouter = false)
    (hattach : d.xattachPipe cs p = .ok (d', cs')) :
    d'.Wired (insert p pipes) cs' ∧ cs' = cs ∧ d' = { d with fq := d'.fq, lb := d'.lb } ∧
      d'.fq.more = d.fq.more ∧
      ActiveArray.Joins d.fq.pipes d'.fq.pipes p ∧
      ∀ messages opened, Moves ⟨d.lb, cs, messages, opened⟩ (.attach p)
        ⟨d'.lb, cs, messages, opened⟩ := by
  obtain ⟨cs₁, hcs, hattach⟩ := bind_ok hattach
  rw [probe, hprobe] at hcs
  cases hcs
  have hf : p ∉ d.fq.pipes.items := mt (h.queued p).mp hp
  have hb : p ∉ d.lb.pipes.items := mt (h.balanced p).mp hp
  obtain ⟨l, hl, hjoins⟩ := Fq.attach_eq h.agreed.placed hf
  obtain ⟨k, hk, hjoins'⟩ := Lb.attach_eq h.ranged.placed hb
  obtain ⟨f, hf', hattach⟩ := bind_ok hattach
  rw [hl] at hf'
  cases hf'
  obtain ⟨b, hb', heq⟩ := bind_ok hattach
  rw [hk] at hb'
  cases hb'
  cases heq
  have hm : ∀ messages opened, Moves ⟨d.lb, cs, messages, opened⟩ (.attach p)
      ⟨{ d.lb with pipes := k }, cs, messages, opened⟩ := fun _ _ =>
    .attach hb halive hjoins'
  refine ⟨h.moves (hm [] []) (h.agreed.attach hf halive hjoins) (fun q => ?_) (fun q => ?_), rfl,
    rfl, rfl, hjoins, hm⟩
  · rw [Finset.mem_insert, ← h.queued q, or_comm]
    exact hjoins.mem
  · rw [Finset.mem_insert, ← h.balanced q, or_comm]
    exact hjoins'.mem

theorem event (hout : cs.Outside pipes p a) (hhic : a ≠ .hiccup .second)
    (hnext : a = .deliver .first → (cs p).pair.hiccupNext .first = false)
    (hact : cs.act p a = .ok (ev, cs'))
    (htell : ev.foldlM (fun (d, cs) e => handle d cs p e) (d, cs') = .ok (d', cs'')) :
    cs'' = cs' ∧ d'.Wired (remaining pipes p ev) cs' ∧
      d' = { d with fq := d'.fq, lb := d'.lb } ∧ Fq.Told d.fq cs p a d'.fq cs' ∧
      ∀ messages opened, Moves ⟨d.lb, cs, messages, opened⟩ (.pipe p a)
        ⟨d'.lb, cs', messages, opened⟩ := by
  have htells := act_tells hout hact
  obtain ⟨f, hf, htold, hqueued⟩ := Fq.hears h.agreed h.queued hout hact
  obtain ⟨hen, -, hfirst, -⟩ := hout
  obtain ⟨r, hc, hev⟩ := act_called hen hact
  have hfirst' : a.side = .first → p ∈ d.lb.pipes.items ∧ a.writes = false := fun hside =>
    ⟨(h.balanced p).mpr (hfirst hside).1, (hfirst hside).2.2⟩
  have hcase := Lb.hears h.ranged hc hfirst' hnext hev
  -- both parts of the dealer are told the same
  have hboth : cs'' = cs' ∧ ev.foldlM (fun f e => f.handle p e) d.fq = .ok d'.fq ∧
      ev.foldlM (fun b e => b.handle p e) d.lb = .ok d'.lb ∧
      d' = { d with fq := d'.fq, lb := d'.lb } := by
    rcases htells.few with rfl | ⟨e, rfl⟩
    · cases htell
      exact ⟨rfl, rfl, rfl, rfl⟩
    simp only [foldlM_singleton] at htell ⊢
    have hne : e ≠ .hiccuped := by
      rintro rfl
      obtain ⟨ha, hyes⟩ := hiccupNext_of_told hen hact
      rw [hnext ha] at hyes
      cases hyes
    obtain ⟨hfq, hlb, hcs, hsame⟩ := handle_ok htell hne
    exact ⟨hcs, hfq, hlb, hsame⟩
  obtain ⟨rfl, hfq, hlb, hsame⟩ := hboth
  rw [hf] at hfq
  cases hfq
  obtain ⟨b, hb, hhears⟩ : ∃ b', ev.foldlM (fun b e => b.handle p e) d.lb = .ok b' ∧
      d.lb.Hears cs p a b' cs'' := by
    rcases hcase with hok | ⟨rfl, -, -, -, hnone⟩
    · exact hok
    · simp [Lb.handle, Lb.activated, hnone, inRange] at hlb
  rw [hb] at hlb
  cases hlb
  have hm : ∀ messages opened, Moves ⟨d.lb, cs, messages, opened⟩ (.pipe p a)
      ⟨d'.lb, cs'', messages, opened⟩ := fun _ _ =>
    .pipe ⟨hen, hfirst', hhic, hnext⟩ hc hhears
  refine ⟨rfl, h.moves (hm [] []) htold.agreed hqueued fun q => ?_, hsame, htold, hm⟩
  rcases htells.few with rfl | ⟨e, rfl⟩
  · have hsame : d.lb = d'.lb := Except.ok.inj hb
    rw [← hsame, h.balanced, remaining_nil]
  · simp only [foldlM_singleton] at hb
    have hp := (h.balanced p).mpr (htells.mem (cons_ne_nil _ _))
    rw [Lb.handle_mem h.ranged.placed hp hb q, h.balanced, mem_remaining]

theorem sendpipe (hmsg : m.Ordinary) (hsend : d.sendpipe cs m = .ok (st, d', cs')) :
    d.lb.Sends cs m st d'.lb cs' ∧ d' = { d with lb := d'.lb } ∧ d'.Wired pipes cs' := by
  obtain ⟨⟨st', b, cs₁⟩, hcall, ⟨⟩⟩ := bind_ok hsend
  rcases Lb.sendpipe_spec hmsg h.ranged h.current with ⟨⟨f, herr⟩, -⟩ | ⟨st₁, b₁, cs₁, hok, hs⟩
  · rw [herr] at hcall
    cases hcall
  rw [hok] at hcall
  cases hcall
  have hm : Moves ⟨d.lb, cs, [], []⟩ (.sendpipe m)
      { LbNet.pass ⟨d.lb, cs, [], []⟩ m st with lb := b, channels := cs' } :=
    .sendpipe ⟨hmsg.1, hmsg.2⟩ hs
  -- the queue does not notice what is written
  exact ⟨hs, rfl, h.moves hm (h.agreed.kept hs.kept) h.queued fun q =>
    (hs.mem q).trans (h.balanced q)⟩

/-- The pipes were asked whether they take a message. -/
theorem hasOut (hcall : d.xhasOut cs = .ok (r, d', cs')) :
    d' = { d with lb := d'.lb } ∧ d'.Wired pipes cs' ∧ (∀ q, (cs q).Kept (cs' q)) ∧
      ∀ messages opened, Moves ⟨d.lb, cs, messages, opened⟩ .hasOut
        ⟨d'.lb, cs', messages, opened⟩ := by
  obtain ⟨⟨r', b, cs₁⟩, hlb, ⟨⟩⟩ := bind_ok hcall
  have hm : ∀ messages opened, Moves ⟨d.lb, cs, messages, opened⟩ .hasOut
      ⟨b, cs', messages, opened⟩ := by
    intro messages opened
    obtain ⟨n', hn', hmoves⟩ := LbNet.hasOut_moves (n := ⟨d.lb, cs, messages, opened⟩) h.ranged
    simp only [LbNet.next, hlb] at hn'
    cases hn'
    exact hmoves
  have hsame : ∀ q, (cs q).Kept (cs' q) ∧ (q ∈ b.pipes.items ↔ q ∈ d.lb.pipes.items) := by
    intro q
    cases hm [] [] with
    | midway => exact ⟨.refl _, .rfl⟩
    | hasOut _ hskips hlast =>
      refine ⟨?_, hskips.mem q⟩
      rcases hlast with rfl | ⟨p, -, ho⟩
      · exact hskips.kept q
      · exact (hskips.kept q).trans (ho.all_kept q)
  have hkept := fun q => (hsame q).1
  exact ⟨rfl, h.moves (hm [] []) (h.agreed.kept hkept) h.queued fun q =>
    (hsame q).2.trans (h.balanced q), hkept, hm⟩

theorem quiet (hagreed : Fq.Matches f.pipes cs')
    (hmem : ∀ q, q ∈ f.pipes.items ↔ q ∈ d.fq.pipes.items) (hquiet : ∀ q, (cs q).Quiet (cs' q)) :
    Wired { d with fq := f } pipes cs' where
  agreed := hagreed
  queued q := (hmem q).trans (h.queued q)
  ranged := ⟨h.ranged.placed, fun hq hg => h.ranged.alive hq ((hquiet _).alive hg)⟩
  balanced := h.balanced
  current := h.current

/-- The pipes were asked whether they have a message. -/
theorem hasIn (hcall : d.xhasIn cs = .ok (found, d', cs')) :
    d' = { d with fq := d'.fq } ∧ d'.Wired pipes cs' ∧ ∀ q, (cs q).Quiet (cs' q) := by
  obtain ⟨⟨b, f, cs₁⟩, hfq, ⟨⟩⟩ := bind_ok hcall
  unfold Fq.hasIn at hfq
  split at hfq
  · cases hfq
    exact ⟨rfl, h, fun _ => .refl _⟩
  obtain ⟨_, _, _, heq, hagreed, -, -, hmem, hquiet⟩ := Fq.hasInLoop_spec h.agreed
  cases heq.symm.trans hfq
  exact ⟨rfl, h.quiet hagreed hmem hquiet, hquiet⟩

theorem searched (hs : Fq.Searched d.fq cs f cs') : Wired { d with fq := f } pipes cs' :=
  h.quiet hs.agreed hs.mem hs.quiet

end Wired
end Dealer
end LibZmq
