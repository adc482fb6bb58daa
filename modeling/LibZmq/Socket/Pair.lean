import LibZmq.Socket.Base
import LibZmq.Socket.Fq

/-!
# Exclusive pairs

`pair_t` (`pair.cpp`) talks to one peer at a time. It does not keep track of messages: every
part goes to the pipe that the socket has at the moment, and is read from it.

* `pair_atomicity`: a message is written to one pipe and read from one pipe, if a pipe that
  takes the place of another one is attached between two messages (`Separate`).
* `pair_divides_messages`: otherwise the end of a message goes to a peer that has not got its
  beginning.
-/

namespace LibZmq

open LibZmq.Core PipePair Channels List Finset

/-- `pair_t`. -/
structure Pair where
  pipe : Option PipeId
  lastIn : Option PipeId
  /-- `options.immediate` is `1`. -/
  immediate : Bool

namespace Pair

def new (immediate : Bool) : Pair := { pipe := none, lastIn := none, immediate := immediate }

/-- `xattach_pipe`. The socket rejects any further connection requests. -/
def xattachPipe (s : Pair) (cs : Channels) (p : PipeId) : Except Failure (Pair × Channels) :=
  match s.pipe with
  | none => .ok ({ s with pipe := some p }, cs)
  | some _ => do
      let cs ← cs.terminate p false
      .ok (s, cs)

def xpipeTerminated (s : Pair) (p : PipeId) : Pair :=
  if s.pipe = some p then
    { s with pipe := none, lastIn := if s.lastIn = s.pipe then none else s.lastIn }
  else s

def xsend (s : Pair) (cs : Channels) (m : Msg) : Except Failure (SendResult × Channels) :=
  match s.pipe with
  | none => .ok (.refused .eagain m, cs)
  | some p => do
      match ← cs.write p m with
      | (false, cs) => .ok (.refused .eagain m, cs)
      | (true, cs) => do
          let cs ← cs.flushLast p m
          .ok (.accepted, cs)

/-- `xrecv`; `none` stands for `-1` with `EAGAIN`. -/
def xrecv (s : Pair) (cs : Channels) : Except Failure (Option Msg × Pair × Channels) :=
  match s.pipe with
  | none => .ok (none, s, cs)
  | some p => do
      match ← cs.read p with
      | (none, cs) => .ok (none, s, cs)
      | (some m, cs) => .ok (some m, { s with lastIn := s.pipe }, cs)

def xhasIn (s : Pair) (cs : Channels) : Except Failure (Bool × Channels) :=
  match s.pipe with
  | none => .ok (false, cs)
  | some p => cs.checkRead p

def xhasOut (s : Pair) (cs : Channels) : Bool × Channels :=
  match s.pipe with
  | none => (false, cs)
  | some p => cs.checkWrite p

/-- What the owner of a pipe is told. There are no lists of active and inactive pipes. -/
def handle (s : Pair) (cs : Channels) (p : PipeId) :
    PipeEvent → Except Failure (Pair × Channels)
  | .pipeTerminated => .ok (s.xpipeTerminated p, cs)
  | .hiccuped => do
      let cs ← cs.hiccuped s.immediate p
      .ok (s, cs)
  | .readActivated | .writeActivated | .statsPublish _ _ => .ok (s, cs)

end Pair

/-! ## Runs -/

/-- A socket, its pipes, and the parts that its user has sent and received, each with its pipe. -/
structure PairNet where
  socket : Pair
  pipes : Finset PipeId
  channels : Channels
  /-- The parts that `xsend` has accepted, oldest first. -/
  sent : List (PipeId × Msg)
  /-- The parts that `xrecv` has returned, oldest first. -/
  got : List (PipeId × Msg)

namespace PairNet

inductive Act where
  | attach (p : PipeId)
  | pipe (p : PipeId) (a : PipePair.Action)
  | send (m : Msg)
  | recv
  | hasIn
  | hasOut
deriving DecidableEq, Repr

def initial (immediate : Bool) (hwm₀ hwm₁ : PipeId → Int) : PairNet :=
  { socket := .new immediate
    pipes := ∅
    channels := fun p => .start (hwm₀ p) (hwm₁ p)
    sent := []
    got := [] }

/-- A part that was passed on, with the pipe that the socket had then. -/
def labelled (s : Pair) (m : Option Msg) : List (PipeId × Msg) :=
  match s.pipe, m with
  | some p, some m => [(p, m)]
  | _, _ => []

def next (n : PairNet) : Act → Except Failure PairNet
  | .attach p => do
      let (s, cs) ← n.socket.xattachPipe n.channels p
      .ok { n with socket := s, channels := cs, pipes := insert p n.pipes }
  | .pipe p a => do
      let (ev, cs) ← n.channels.act p a
      let (s, cs) ← ev.foldlM (fun (s, cs) e => s.handle cs p e) (n.socket, cs)
      .ok { n with socket := s, channels := cs, pipes := Channels.remaining n.pipes p ev }
  | .send m => do
      let (r, cs) ← n.socket.xsend n.channels m
      let part := if r.rc = 0 then some m else none
      .ok { n with channels := cs, sent := n.sent ++ labelled n.socket part }
  | .recv => do
      let (part, s, cs) ← n.socket.xrecv n.channels
      .ok { n with socket := s, channels := cs, got := n.got ++ labelled n.socket part }
  | .hasIn => do
      let (_, cs) ← n.socket.xhasIn n.channels
      .ok { n with channels := cs }
  | .hasOut => .ok { n with channels := (n.socket.xhasOut n.channels).2 }

/-- A pipe is attached once, and lives until the socket is told that it is terminated. -/
def Enabled (n : PairNet) : Act → Prop
  | .attach p => p ∉ n.pipes ∧ ¬ (n.channels p).gone
  | .pipe p a => n.channels.Outside n.pipes p a
  | .send m => m.isDelimiter = false ∧ m.isCredential = false
  | .recv | .hasIn | .hasOut => True

def Step (n : PairNet) (a : Act) (n' : PairNet) : Prop := n.Enabled a ∧ n.next a = .ok n'

/-- The last of the parts announces no further one. -/
def Complete (l : List (PipeId × Msg)) : Prop := ∀ x ∈ l.getLast?, x.2.hasMore = false

/-- A pipe takes the place of another one between two messages, in both directions. -/
def Separate (n : PairNet) : Act → Prop
  | .attach _ => n.socket.pipe = none → Complete n.sent ∧ Complete n.got
  | .pipe _ _ | .send _ | .recv | .hasIn | .hasOut => True

/-! ## Messages stay whole -/

/-- Every message goes to one pipe, and every message comes from one pipe. -/
structure KeepsWhole (n : PairNet) : Prop where
  /-- The parts that were accepted are whole messages, each for one pipe, and perhaps the first
  parts of another. -/
  sent : ∃ p rest, Grouped Msg.hasMore n.sent p rest
  /-- A pipe has got complete messages of the user, and no other. -/
  written : ∀ p, ∃ rest, Fq.partsOf p n.sent = (n.channels p).sent.flatten ++ rest ∧
    ∀ m ∈ rest, m.hasMore = true
  /-- The parts that were returned are whole messages, each from one pipe, and perhaps the first
  parts of another. -/
  got : ∃ p rest, Grouped Msg.hasMore n.got p rest
  /-- The parts from one pipe are messages that its peer has sent, one after the other. -/
  read : ∀ p, ∃ l, ((n.channels p).log .second).Block l ∧ Fq.partsOf p n.got <+: l

/-- Whole messages, and perhaps the first parts of another one, which belong to the pipe of the
socket if it has one. -/
def Groups (s : Pair) (l : List (PipeId × Msg)) : Prop :=
  ∃ p rest, Grouped Msg.hasMore l p rest ∧ (rest ≠ [] → ∀ q ∈ s.pipe, q = p)

structure Sound (n : PairNet) : Prop where
  alive : ∀ p ∈ n.pipes, ¬ (n.channels p).gone
  attached : ∀ p ∈ n.socket.pipe, p ∈ n.pipes
  healthy : ∀ p, (n.channels p).Healthy
  follows : ∀ p, (n.channels p).Follows .second
  sent : Groups n.socket n.sent
  written : ∀ p, (n.channels p).Accounts (Fq.partsOf p n.sent)
  got : Groups n.socket n.got
  read : ∀ p, Fq.partsOf p n.got = (n.channels p).got

namespace Groups

variable {s s' : Pair} {l : List (PipeId × Msg)}

theorem nil (s : Pair) : Groups s [] := ⟨0, [], grouped_nil 0, absurd rfl⟩

/-- The pipe of the socket is the same, or there is none now. -/
theorem keep (h : Groups s l) (hs : ∀ q ∈ s'.pipe, q ∈ s.pipe) : Groups s' l := by
  obtain ⟨p, rest, hg, hp⟩ := h
  exact ⟨p, rest, hg, fun hne q hq => hp hne q (hs q hq)⟩

/-- Between two messages the pipe does not matter. -/
theorem change (h : Groups s l) (hl : Complete l) : Groups s' l := by
  obtain ⟨p, rest, hg, -⟩ := h
  refine ⟨p, rest, hg, fun hne => ?_⟩
  obtain ⟨m, hlast, hmore⟩ := hg.getLast? hne
  have hno := hl _ hlast
  rw [hmore] at hno
  cases hno

theorem concat (h : Groups s l) (hp : s.pipe = some p) (m : Msg)
    (hs : s'.pipe = s.pipe) : Groups s' (l ++ [(p, m)]) := by
  obtain ⟨q, rest, hg, hq⟩ := h
  have hg' : Grouped Msg.hasMore l p rest := by
    by_cases hne : rest = []
    · subst hne
      exact hg.retarget p
    · rw [hq hne p hp]
      exact hg
  have hsame : ∀ q ∈ s'.pipe, q = p := fun q hq => by
    rw [hs, hp] at hq
    exact (Option.some.inj hq).symm
  cases hm : m.hasMore with
  | true => exact ⟨p, rest ++ [m], hg'.concat_more hm, fun _ => hsame⟩
  | false => exact ⟨p, [], hg'.concat_last hm, fun _ => hsame⟩

end Groups

variable {n n' : PairNet}

theorem sound_initial (immediate : Bool) (hwm₀ hwm₁ : PipeId → Int) :
    (initial immediate hwm₀ hwm₁).Sound where
  alive := nofun
  attached := nofun
  healthy _ := Channel.healthy_start ..
  follows _ := Channel.follows_start ..
  sent := .nil _
  written _ := ⟨[], rfl, nofun, fun _ => rfl⟩
  got := .nil _
  read _ := rfl

variable {p : PipeId} {s : Pair} {cs cs' : Channels}

/-- The pipe `p` was not used for messages, and the socket has changed from `n.socket` to `s`. -/
theorem Sound.rests {pipes : Finset PipeId} (h : n.Sound)
    (hrests : Rests n.channels cs p) (halive : ∀ q ∈ pipes, ¬ (cs q).gone)
    (hattached : ∀ q ∈ s.pipe, q ∈ pipes) (hsent : Groups s n.sent) (hgot : Groups s n.got) :
    Sound { n with socket := s, channels := cs, pipes := pipes } where
  alive := halive
  attached := hattached
  healthy := hrests.forall_of h.healthy (hrests.healthy (h.healthy p))
  follows := hrests.forall_of (P := fun _ c => c.Follows .second) h.follows
    (hrests.follows (h.healthy p) (h.follows p))
  sent := hsent
  written := hrests.forall_of (P := fun q c => c.Accounts (Fq.partsOf q n.sent)) h.written
    (hrests.unwritten.accounts (h.written p))
  got := hgot
  read := hrests.forall_of (P := fun q c => Fq.partsOf q n.got = c.got) h.read
    ((h.read p).trans hrests.got.symm)

/-- Pipes that are not concerned do not disappear. -/
theorem Sound.alive_insert (h : n.Sound) (hothers : ∀ q, q ≠ p → cs q = n.channels q)
    (hp : ¬ (cs p).gone) : ∀ q ∈ insert p n.pipes, ¬ (cs q).gone := by
  intro q hq
  rcases eq_or_ne q p with rfl | hne
  · exact hp
  · rw [hothers q hne]
    exact h.alive q ((mem_insert.mp hq).resolve_left hne)

theorem Sound.attach (h : n.Sound) (hen : n.Enabled (.attach p))
    (hsep : n.Separate (.attach p)) (hnext : n.next (.attach p) = .ok n') : n'.Sound := by
  obtain ⟨⟨s, cs⟩, hattach, ⟨⟩⟩ := bind_ok hnext
  unfold Pair.xattachPipe at hattach
  split at hattach
  · rename_i hpipe
    cases hattach
    obtain ⟨hsent, hgot⟩ := hsep hpipe
    refine h.rests (p := p) (.refl _ _) (h.alive_insert (fun _ _ => rfl) hen.2) (fun q hq => ?_)
      (h.sent.change hsent) (h.got.change hgot)
    cases hq
    exact mem_insert_self ..
  · obtain ⟨cs₁, hterm, ⟨⟩⟩ := bind_ok hattach
    -- the socket keeps its pipe
    obtain ⟨hrests, hgone⟩ := terminate_rests hen.2 hterm
    exact h.rests hrests (h.alive_insert hrests.others fun hg => hen.2 (hgone.mp hg))
      (fun r hr => mem_insert_of_mem (h.attached r hr)) h.sent h.got

theorem handle_spec (halive : e ≠ .pipeTerminated → ¬ (cs p).gone)
    (h : s.handle cs p e = .ok (s', cs')) :
    Rests cs cs' p ∧ ((cs' p).gone ↔ (cs p).gone) ∧ (∀ q ∈ s'.pipe, q ∈ s.pipe) ∧
      (e = .pipeTerminated → s'.pipe ≠ some p) := by
  cases e with
  | pipeTerminated =>
    cases h
    refine ⟨.refl _ _, .rfl, fun q hq => ?_, fun _ => ?_⟩
    all_goals
      simp only [Pair.xpipeTerminated] at *
      split at *
    · cases hq
    · exact hq
    · simp
    · assumption
  | hiccuped =>
    obtain ⟨cs₁, hterm, ⟨⟩⟩ := bind_ok h
    obtain ⟨hrests, hgone⟩ := hiccuped_rests (halive nofun) hterm
    exact ⟨hrests, hgone, fun _ => id, nofun⟩
  | readActivated | writeActivated | statsPublish =>
    cases h
    exact ⟨.refl _ _, .rfl, fun _ => id, nofun⟩

theorem Sound.pipe (h : n.Sound)
    (hen : n.Enabled (.pipe p a)) (hnext : n.next (.pipe p a) = .ok n') : n'.Sound := by
  obtain ⟨⟨ev, cs⟩, hact, hnext⟩ := bind_ok hnext
  obtain ⟨⟨s, cs'⟩, hhandle, ⟨⟩⟩ := bind_ok hnext
  have htells := act_tells hen hact
  have halive := htells.alive h.alive
  rcases htells.few with rfl | ⟨e, rfl⟩
  · -- the socket is told nothing
    cases hhandle
    exact h.rests htells.rests halive h.attached h.sent h.got
  simp only [foldlM_singleton] at hhandle
  have hnot : e ≠ .pipeTerminated → ¬ (cs p).gone := by
    intro hne
    refine halive p ?_
    rw [remaining, if_neg (by simpa using hne)]
    exact htells.mem nofun
  obtain ⟨hrests, hgone, hsub, hterm⟩ := handle_spec hnot hhandle
  refine h.rests (htells.rests.trans hrests) (fun q hq => ?_) (fun q hq => ?_)
    (h.sent.keep hsub) (h.got.keep hsub)
  · rcases eq_or_ne q p with rfl | hne
    · exact fun hg => halive q hq (hgone.mp hg)
    · rw [hrests.others q hne]
      exact halive q hq
  · have hmem := h.attached q (hsub q hq)
    unfold remaining
    split
    · rename_i heq
      refine mem_erase.mpr ⟨?_, hmem⟩
      rintro rfl
      exact hterm (cons.inj heq).1 hq
    · exact hmem

/-! ## Sending and receiving -/

attribute [local simp] labelled

theorem partsOf_labelled (hp : s.pipe = some p) (m : Option Msg)
    (q : PipeId) (l : List (PipeId × Msg)) :
    Fq.partsOf q (l ++ labelled s m) = Fq.partsOf q l ++ if p = q then m.toList else [] := by
  cases m with
  | none => simp
  | some => by_cases h : p = q <;> simp [Fq.partsOf, hp, h]

/-- A part is written to the pipe of the socket, or nothing happens to the history. -/
theorem xsend_spec (hp : s.pipe = some p) (halive : ¬ (cs p).gone) (hmsg : m.Ordinary)
    (h : s.xsend cs m = .ok (r, cs')) :
    Unread cs cs' p ∧ ¬ (cs' p).gone ∧ ∀ l, (cs p).Accounts l →
      (cs' p).Accounts (l ++ if r.rc = 0 then [m] else []) := by
  simp only [Pair.xsend, hp] at h
  obtain ⟨⟨b, cs₁⟩, hwrite, h⟩ := bind_ok h
  rcases write_cases halive hmsg hwrite with ⟨rfl, hw⟩ | ⟨rfl, ho⟩
  · obtain ⟨cs₂, hflush, ⟨⟩⟩ := bind_ok h
    obtain ⟨hpipe, hcalls⟩ := flushLast_spec hw.gone hflush
    refine ⟨hw.unread.trans hcalls.unread, hcalls.gone, fun l hl => ?_⟩
    exact hcalls.accounts (fun hst => by rwa [hpipe] at hst) (hw.accounts hl)
  · cases h
    refine ⟨ho.unread, ho.gone, fun l hl => ?_⟩
    rw [if_neg (by simp), append_nil]
    exact ho.accounts (fun hst => ho.offered.state ▸ hst) hl

section
variable (h : n.Sound)
include h

theorem Sound.send (hen : n.Enabled (.send m)) (hnext : n.next (.send m) = .ok n') : n'.Sound := by
  obtain ⟨⟨r, cs⟩, hsend, ⟨⟩⟩ := bind_ok hnext
  cases hp : n.socket.pipe with
  | none =>
    rw [Pair.xsend, hp] at hsend
    cases hsend
    simpa using h
  | some p =>
    have halive := h.alive p (h.attached p hp)
    obtain ⟨hunread, hgone, hacc⟩ := xsend_spec hp halive hen hsend
    refine ⟨fun q hq => ?_, h.attached, ?_, ?_, ?_, fun q => ?_, h.got, ?_⟩
    · exact hunread.forall_of (P := fun q c => q ∈ n.pipes → ¬ c.gone) h.alive (fun _ => hgone) q hq
    · exact hunread.forall_of h.healthy (hunread.healthy (h.healthy p))
    · exact hunread.forall_of (P := fun _ c => c.Follows .second) h.follows
        (hunread.follows (h.healthy p) (h.follows p))
    · by_cases hrc : r.rc = 0
      · simpa [hp, hrc] using h.sent.concat hp m rfl
      · simpa [hrc] using h.sent
    · simp only
      rw [partsOf_labelled hp]
      rcases eq_or_ne p q with rfl | hne
      · have := hacc _ (h.written p)
        by_cases hrc : r.rc = 0 <;> simpa [hrc] using this
      · rw [if_neg hne, append_nil, hunread.others q hne.symm]
        exact h.written q
    · exact hunread.forall_of (P := fun q c => Fq.partsOf q n.got = c.got) h.read
        ((h.read p).trans hunread.got.symm)

/-- The pipe of the socket was asked for a message, and has given `part`. -/
theorem Sound.asked (part : Option Msg) (hp : n.socket.pipe = some p) (hs : s.pipe = n.socket.pipe)
    (hasks : Asks n.channels cs p part.toList found) :
    Sound { n with socket := s, channels := cs, got := n.got ++ labelled n.socket part } where
  alive q hq := by
    rcases eq_or_ne q p with rfl | hne
    · exact hasks.gone
    · simp only [hasks.others q hne]
      exact h.alive q hq
  attached q hq := h.attached q (hs ▸ hq)
  healthy q := by
    rcases eq_or_ne q p with rfl | hne
    · exact hasks.healthy
    · simp only [hasks.others q hne]
      exact h.healthy q
  follows q := by
    rcases eq_or_ne q p with rfl | hne
    · exact hasks.follows (h.follows q)
    · simp only [hasks.others q hne]
      exact h.follows q
  sent := h.sent.keep fun q hq => hs ▸ hq
  written q := by
    rcases eq_or_ne q p with rfl | hne
    · exact hasks.quiet.accounts (h.written q)
    · simp only [hasks.others q hne]
      exact h.written q
  got := by
    cases part with
    | none => simpa using h.got.keep fun q hq => hs ▸ hq
    | some m => simpa [hp] using h.got.concat hp m hs
  read q := by
    simp only
    rw [partsOf_labelled hp, h.read q]
    rcases eq_or_ne p q with rfl | hne
    · rw [if_pos rfl, hasks.got]
    · rw [if_neg hne, append_nil, hasks.others q hne.symm]

theorem Sound.recv (hnext : n.next .recv = .ok n') : n'.Sound := by
  obtain ⟨⟨part, s, cs⟩, hrecv, ⟨⟩⟩ := bind_ok hnext
  cases hp : n.socket.pipe with
  | none =>
    rw [Pair.xrecv, hp] at hrecv
    cases hrecv
    simpa using h
  | some p =>
    have halive := h.alive p (h.attached p hp)
    obtain ⟨m, cs₁, hread, hasks⟩ := read_asks halive (h.healthy p)
    have hres : part = m ∧ s.pipe = n.socket.pipe ∧ cs = cs₁ := by
      simp only [Pair.xrecv, hp, hread] at hrecv
      cases m <;> cases hrecv <;> simp [hp]
    obtain ⟨rfl, hs, rfl⟩ := hres
    exact h.asked _ hp hs hasks

theorem Sound.hasIn (hnext : n.next .hasIn = .ok n') : n'.Sound := by
  obtain ⟨⟨b, cs⟩, hcheck, ⟨⟩⟩ := bind_ok hnext
  unfold Pair.xhasIn at hcheck
  split at hcheck
  · cases hcheck
    exact h
  rename_i p hp
  have halive := h.alive p (h.attached p hp)
  obtain ⟨b', cs₁, hread, hasks⟩ := checkRead_asks halive (h.healthy p)
  rw [hread] at hcheck
  cases hcheck
  have := h.asked none hp rfl hasks
  simpa using this

theorem Sound.hasOut (hnext : n.next .hasOut = .ok n') : n'.Sound := by
  cases hnext
  unfold Pair.xhasOut
  split
  · exact h
  rename_i p hp
  have halive := h.alive p (h.attached p hp)
  have ho := checkWrite_offers halive
  refine h.rests ⟨ho.unread, ho.sent, ho.flushes, .inl ho.begun, fun hst => ho.kept.state ▸ hst,
    ho.kept.gone.mpr⟩
    (fun q hq => ?_)
    h.attached h.sent h.got
  exact ho.unread.forall_of (P := fun q c => q ∈ n.pipes → ¬ c.gone) h.alive (fun _ => ho.gone) q hq

theorem Sound.step (hsep : n.Separate a) (hstep : Step n a n') : n'.Sound := by
  obtain ⟨hen, hnext⟩ := hstep
  cases a with
  | attach => exact h.attach hen hsep hnext
  | pipe => exact h.pipe hen hnext
  | send => exact h.send hen hnext
  | recv => exact h.recv hnext
  | hasIn => exact h.hasIn hnext
  | hasOut => exact h.hasOut hnext

theorem Sound.keepsWhole : n.KeepsWhole where
  sent := by
    obtain ⟨p, rest, hg, -⟩ := h.sent
    exact ⟨p, rest, hg⟩
  written p := by
    obtain ⟨rest, heq, hmore, -⟩ := h.written p
    exact ⟨rest, heq, hmore⟩
  got := by
    obtain ⟨p, rest, hg, -⟩ := h.got
    exact ⟨p, rest, hg⟩
  read p := by
    rw [h.read p]
    exact (h.follows p).current

end

/-- **A pair keeps messages whole**: in runs in which a pipe takes the place of another one only
between two messages, no message is divided among two peers. -/
theorem pair_atomicity {immediate : Bool} {hwm₀ hwm₁ : PipeId → Int} {tr : List Act}
    (h : Exec (Guarded Step Separate) (initial immediate hwm₀ hwm₁) tr n) : n.KeepsWhole := by
  refine (h.invariant Sound ?_ (sound_initial immediate hwm₀ hwm₁)).keepsWhole
  rintro b act c hb ⟨hstep, hsep⟩
  exact hb.step hsep hstep

/-! ## Concrete runs -/

instance (n : PairNet) (a : Act) : Decidable (n.Enabled a) := by
  rcases a <;> dsimp only [Enabled] <;> infer_instance

instance (l : List (PipeId × Msg)) : Decidable (Complete l) :=
  inferInstanceAs (Decidable (∀ x ∈ l.getLast?, x.2.hasMore = false))

instance (n : PairNet) (a : Act) : Decidable (n.Separate a) := by
  rcases a <;> dsimp only [Separate] <;> infer_instance

/-- The end of the socket and its peer agree to terminate pipe `p`. -/
def close (p : PipeId) : List Act :=
  [.pipe p (.setNodelay .second), .pipe p (.terminate .first false), .pipe p (.deliver .second),
    .pipe p (.deliver .first)]

/-- Two peers, one after the other; a third one is rejected. -/
theorem pair_atomicity_two_peers :
    ∃ tr n, Exec (Guarded Step Separate) (initial true (fun _ => 9) fun _ => 9) tr n ∧
      n.sent = [(0, part), (0, single 1), (1, part), (1, single 2)] ∧
      n.got = [(0, single 3), (1, part), (1, single 4)] ∧ n.KeepsWhole := by
  refine exists_exec_with guarded_of_attempt
    (fun n => n.sent = [(0, part), (0, single 1), (1, part), (1, single 2)] ∧
      n.got = [(0, single 3), (1, part), (1, single 4)])
    ([.attach 0, .attach 2, .send part, .pipe 0 (.write .second (single 3)),
      .pipe 0 (.flush .second), .recv, .hasOut, .send (single 1)] ++ close 0 ++
      [.attach 1, .pipe 1 (.write .second part), .pipe 1 (.write .second (single 4)),
        .pipe 1 (.flush .second), .send part, .hasIn, .recv, .recv, .send (single 2)])
    (by decide +kernel) ?_
  rintro _ _ hexec ⟨hsent, hgot⟩
  exact ⟨hsent, hgot, pair_atomicity hexec⟩

/-- The peer goes away after the first part of a message and another one is attached. It gets
the second part as a message of its own. In the other direction, the socket returns a message
of the new peer as the end of one that the old peer has begun. -/
theorem pair_divides_messages :
    (∃ tr n, Exec Step (initial true (fun _ => 9) fun _ => 9) tr n ∧
      n.sent = [(0, part), (1, single 1)] ∧ (n.channels 1).sent = [[single 1]] ∧
        ¬ ∃ p rest, Grouped Msg.hasMore n.sent p rest) ∧
    ∃ tr n, Exec Step (initial true (fun _ => 9) fun _ => 9) tr n ∧
      n.got = [(0, part), (1, single 2)] ∧ ¬ ∃ p rest, Grouped Msg.hasMore n.got p rest := by
  -- the part after one with `more` is for another pipe
  have hnot : ∀ m, ¬ ∃ p rest, Grouped Msg.hasMore [((0 : PipeId), part), (1, m)] p rest := by
    rintro m ⟨p, rest, hg⟩
    have hchain := hg.isChain
    rw [isChain_pair] at hchain
    cases hchain rfl
  constructor
  · refine exists_exec_with step_of_attempt
      (fun n => n.sent = [(0, part), (1, single 1)] ∧ (n.channels 1).sent = [[single 1]])
      ([.attach 0, .send part] ++ close 0 ++ [.attach 1, .send (single 1)]) (by decide +kernel) ?_
    rintro _ n _ ⟨hsent, hone⟩
    exact ⟨hsent, hone, hsent ▸ hnot _⟩
  · refine exists_exec_with step_of_attempt (fun n => n.got = [(0, part), (1, single 2)])
      ([.attach 0, .pipe 0 (.write .second part), .pipe 0 (.write .second (single 1)),
        .pipe 0 (.flush .second), .recv, .pipe 0 (.deliver .second)] ++ close 0 ++
        [.attach 1, .pipe 1 (.write .second (single 2)), .pipe 1 (.flush .second), .recv])
      (by decide +kernel) ?_
    intro _ n _ hgot
    exact ⟨hgot, hgot ▸ hnot _⟩

end PairNet
end LibZmq
