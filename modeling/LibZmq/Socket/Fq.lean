import LibZmq.Core.ActiveArray
import LibZmq.Socket.Channel

/-!
# Fair queueing

`fq_t` (`fq.cpp`) reads from a set of inbound pipes in turn, a message at a time. The
pipes stand in an array; those at its beginning are the active ones, and `_current` is the
position of the next one to read from.

* `fair_queueing`: the parts that `recvpipe` returns are whole messages of one pipe each,
  and its assertion holds, as long as nothing disturbs a message that is half read
  (`Undisturbed`).
* `fair_queueing_fails`: without the condition the next part may come from another pipe, and
  the assertion may fail.
-/

namespace LibZmq

open LibZmq.Core PipePair

/-- `fq_t`. The array, the number of active pipes and `_current` are in `pipes`. -/
structure Fq where
  pipes : ActiveArray PipeId
  /-- The last pipe a whole message was received from. -/
  lastIn : Option PipeId
  /-- Part of a message was received, the rest is waiting in the current pipe. -/
  more : Bool

namespace Fq

def new : Fq := { pipes := .empty, lastIn := none, more := false }

def attach (f : Fq) (p : PipeId) : Except Failure Fq := do
  let pipes ← inRange (f.pipes.attach p)
  pure { f with pipes := pipes }

def pipeTerminated (f : Fq) (p : PipeId) : Except Failure Fq := do
  let pipes ← inRange (f.pipes.remove p)
  pure { f with pipes := pipes, lastIn := if f.lastIn = some p then none else f.lastIn }

def activated (f : Fq) (p : PipeId) : Except Failure Fq := do
  let pipes ← inRange (f.pipes.activate p)
  pure { f with pipes := pipes }

/-- `_pipes[_current]`. -/
def currentPipe (f : Fq) : Except Failure PipeId :=
  inRange (f.pipes.items.get? f.pipes.current)

/-- The current pipe has no message: replace it by another active one. -/
def deactivate (f : Fq) : Except Failure Fq := do
  let pipes ← inRange (f.pipes.deactivate f.pipes.current)
  pure { f with pipes := pipes }

/-- A part was fetched from the current pipe; after the last one it is the turn of the next
pipe. -/
def fetched (f : Fq) (p : PipeId) (m : Msg) : Fq :=
  if m.hasMore then { f with more := true }
  else
    { pipes := { f.pipes with current := (f.pipes.current + 1) % f.pipes.active }
      lastIn := some p
      more := false }

/-- The loop of `recvpipe`, which runs while there are active pipes. -/
def recvLoop : Nat → Fq → Channels → Except Failure (Option (PipeId × Msg) × Fq × Channels)
  | 0, f, cs => .ok (none, f, cs)
  | n + 1, f, cs => do
      let p ← f.currentPipe
      match ← cs.read p with
      | (some m, cs) => .ok (some (p, m), f.fetched p m, cs)
      | (none, cs) =>
          -- the rest of a message should be available without blocking
          if f.more then .error .assertion
          else do
            let f ← f.deactivate
            recvLoop n f cs

/-- `recvpipe`. `none` stands for `EAGAIN`. -/
def recvpipe (f : Fq) (cs : Channels) : Except Failure (Option (PipeId × Msg) × Fq × Channels) :=
  recvLoop f.pipes.active f cs

/-- The loop of `has_in`. -/
def hasInLoop : Nat → Fq → Channels → Except Failure (Bool × Fq × Channels)
  | 0, f, cs => .ok (false, f, cs)
  | n + 1, f, cs => do
      let p ← f.currentPipe
      match ← cs.checkRead p with
      | (true, cs) => .ok (true, f, cs)
      | (false, cs) => do
          let f ← f.deactivate
          hasInLoop n f cs

def hasIn (f : Fq) (cs : Channels) : Except Failure (Bool × Fq × Channels) :=
  if f.more then .ok (true, f, cs) else hasInLoop f.pipes.active f cs

/-- What the owner of a pipe is told. -/
def handle (f : Fq) (p : PipeId) : PipeEvent → Except Failure Fq
  | .readActivated => f.activated p
  | .pipeTerminated => f.pipeTerminated p
  | .writeActivated | .hiccuped | .statsPublish _ _ => .ok f

/-! ## The array and the pipes agree -/

/-- An active pipe has not been found empty, and an inactive one will report when it is no
longer. -/
def Agrees (l : ActiveArray PipeId) (p : PipeId) (u : Pipe) : Prop :=
  u.state.reading = true → (u.inActive = true ↔ (p ∈ l.items → l.IsActive p))

/-- The array agrees with the pipes. -/
structure Matches (l : ActiveArray PipeId) (cs : Channels) : Prop where
  placed : l.Placed
  alive : ∀ {p}, p ∈ l.items → ¬ (cs p).gone
  healthy : ∀ p, (cs p).Healthy
  follows : ∀ p, (cs p).Follows .second
  agrees : ∀ p, Agrees l p (cs p).pipe

namespace Matches

variable {l l' : ActiveArray PipeId} {cs cs' : Channels} {p : PipeId}

section
variable (h : Matches l cs)
include h

/-- Only pipe `p` and its place in the array have changed. -/
theorem update (hplaced : l'.Placed) (hmem : ∀ q, q ≠ p → (q ∈ l'.items ↔ q ∈ l.items))
    (hact : ∀ q, q ≠ p → (l'.IsActive q ↔ l.IsActive q)) (hothers : ∀ q, q ≠ p → cs' q = cs q)
    (halive : p ∈ l'.items → ¬ (cs' p).gone) (hhealthy : (cs' p).Healthy)
    (hfollows : (cs' p).Follows .second) (hagrees : Agrees l' p (cs' p).pipe) : Matches l' cs' := by
  refine ⟨hplaced, fun {q} hq => ?_, fun q => ?_, fun q => ?_, fun q => ?_⟩
  · rcases eq_or_ne q p with rfl | hne
    · exact halive hq
    · rw [hothers q hne]
      exact h.alive ((hmem q hne).mp hq)
  · rcases eq_or_ne q p with rfl | hne
    · exact hhealthy
    · rw [hothers q hne]
      exact h.healthy q
  · rcases eq_or_ne q p with rfl | hne
    · exact hfollows
    · rw [hothers q hne]
      exact h.follows q
  · rcases eq_or_ne q p with rfl | hne
    · exact hagrees
    intro hr
    rw [hothers q hne] at hr ⊢
    rw [hmem q hne, hact q hne]
    exact h.agrees q hr

theorem found (hc : cs.Asks cs' p parts true) : Matches l cs' := by
  refine h.update h.placed (fun _ _ => .rfl) (fun _ _ => .rfl) hc.others (fun _ => hc.gone)
    hc.healthy (hc.follows (h.follows p)) ?_
  rcases hc.asked with ⟨-, -, hr, hin', hin, -⟩ | ⟨hno, -⟩
  · intro _
    have hiff := h.agrees p hr
    rw [hin] at hiff
    rw [hin']
    exact hiff
  · cases hno

/-- The current pipe has no message and becomes inactive. -/
theorem notFound (hp : l.IsActive p)
    (hc : cs.Asks cs' p parts false) (hl : ActiveArray.Leaves l l' p) : Matches l' cs' := by
  refine h.update hl.placed (fun _ _ => hl.mem) (fun q hq => ?_) hc.others (fun _ => hc.gone)
    hc.healthy (hc.follows (h.follows p)) ?_
  · rw [hl.active, and_iff_left hq]
  · rcases hc.asked with ⟨hno, -⟩ | ⟨-, hin, -⟩
    · cases hno
    intro hr
    rw [hin hr]
    have hpassive : ¬ (p ∈ l'.items → l'.IsActive p) := fun hact =>
      (hl.active.mp (hact (hl.mem.mpr hp.1))).2 rfl
    simp [hpassive]

/-- The socket only sends. -/
theorem kept (hkept : ∀ q, (cs q).Kept (cs' q)) : Matches l cs' where
  placed := h.placed
  alive hp := mt (hkept _).gone.mp (h.alive hp)
  healthy p := (hkept p).healthy (h.healthy p)
  follows p := (hkept p).heard (h.healthy p) (h.follows p)
  agrees p := by
    unfold Agrees
    rw [(hkept p).state, (hkept p).inActive]
    exact h.agrees p

theorem turn (hpos : 0 < l.active) : Matches { l with current := (l.current + 1) % l.active } cs :=
  { h with placed := ⟨h.placed.active, .inl (Nat.mod_lt _ hpos)⟩ }

end

end Matches

/-! ## Receiving -/

section receiving
variable {f : Fq} {cs : Channels} {p : PipeId}

theorem currentPipe_eq (h : f.pipes.IsCurrent p) : f.currentPipe = .ok p := by
  rw [currentPipe, h.get?]
  rfl

theorem deactivate_eq (h : f.pipes.Placed) (hp : f.pipes.IsCurrent p) :
    ∃ l, f.deactivate = .ok { f with pipes := l } ∧ ActiveArray.Leaves f.pipes l p := by
  obtain ⟨l, hl, hleaves⟩ := ActiveArray.deactivate_spec h hp.1
  refine ⟨l, ?_, hleaves⟩
  rw [deactivate, ← hp.2, hl]
  rfl

/-- The parts of a list that have come from `p`. -/
def partsOf (p : PipeId) (parts : List (PipeId × Msg)) : List Msg :=
  (parts.filter fun x => x.1 = p).map Prod.snd

/-- What `recvpipe` leaves behind when it returns `part`. -/
structure Received (cs : Channels) (part : Option (PipeId × Msg)) (f' : Fq) (cs' : Channels) :
    Prop where
  agreed : Matches f'.pipes cs'
  got : ∀ q, (cs' q).got = (cs q).got ++ partsOf q part.toList
  more : f'.more = part.any fun x => x.2.hasMore
  current : ∀ p m, part = some (p, m) → m.hasMore = true →
    f'.pipes.IsCurrent p ∧ (cs' p).pipe.state.reading = true

section
variable (h : Matches f.pipes cs)
include h

theorem received_fetched (hp : f.pipes.IsCurrent p) (hc : cs.Asks cs' p [m] true) :
    Received cs (some (p, m)) (f.fetched p m) cs' := by
  have hm := h.found hc
  have hpos : 0 < f.pipes.active := Nat.zero_lt_of_lt hp.1.2
  refine ⟨?_, fun q => ?_, ?_, ?_⟩
  · unfold fetched
    split
    · exact hm
    · exact hm.turn hpos
  · by_cases hq : q = p
    · subst hq
      simp [hc.got, partsOf]
    · simp [hc.others q hq, partsOf, Ne.symm hq]
  · unfold fetched
    split <;> simp_all
  · rintro p' m' heq hmore
    cases heq
    rw [fetched, if_pos hmore]
    refine ⟨hp, ?_⟩
    rcases hc.asked with ⟨-, hst, hr, -⟩ | ⟨hno, -⟩
    · rw [hst, hr]
    · cases hno

/-- Between two messages `recvpipe` looks for a pipe with a message. -/
theorem recvLoop_spec (hmore : f.more = false) :
    ∃ part f' cs', recvLoop f.pipes.active f cs = .ok (part, f', cs') ∧
      Received cs part f' cs' := by
  -- every pipe without a message leaves the active ones
  induction hn : f.pipes.active generalizing f cs with
  | zero =>
    refine ⟨none, f, cs, rfl, h, fun q => by simp [partsOf], hmore, nofun⟩
  | succ n ih =>
    obtain ⟨p, hp⟩ := h.placed.exists_current (by omega)
    obtain ⟨m, cs₁, hread, hasks⟩ := Channels.read_asks (h.alive hp.1.1) (h.healthy p)
    rw [recvLoop, currentPipe_eq hp]
    simp only [ok_bind, hread]
    cases m with
    | some => exact ⟨_, _, _, rfl, received_fetched h hp hasks⟩
    | none =>
      obtain ⟨l, hl, hleaves⟩ := deactivate_eq h.placed hp
      have hfewer := hleaves.fewer
      obtain ⟨part, f', cs', heq, hrec⟩ := ih (f := { f with pipes := l })
        (h.notFound hp.1 hasks hleaves) hmore (by simp only; omega)
      have hwhole : ¬ f.more = true := by simp [hmore]
      simp only [hl, if_neg hwhole]
      refine ⟨part, f', cs', heq, hrec.agreed, fun q => ?_, hrec.more, hrec.current⟩
      rw [hrec.got q]
      by_cases hq : q = p
      · rw [hq, hasks.got]
        simp
      · rw [hasks.others q hq]

/-- In the middle of a message `recvpipe` returns the next part. -/
theorem recvLoop_of_more (hp : f.pipes.IsCurrent p)
    (hr : (cs p).pipe.state.reading = true) (hmid : ((cs p).log .second).Midway) :
    ∃ m f' cs', recvLoop f.pipes.active f cs = .ok (some (p, m), f', cs') ∧
      Received cs (some (p, m)) f' cs' := by
  obtain ⟨m, cs₁, hread, hasks⟩ := Channels.read_asks (h.alive hp.1.1) (h.healthy p)
  have hin : (cs p).pipe.inActive = true := (h.agrees p hr).mpr fun _ => hp.1
  have hsome : m.isSome = true := by
    obtain ⟨⟨m', s⟩, hcall, ⟨⟩⟩ := Channels.lift_bind_ok hread
    exact (h.follows p).read_of_midway (h.healthy p).sound ((h.healthy p).ended .second) hmid
      (Pipe.mayRead_iff.mpr ⟨hin, hr⟩) hcall
  obtain ⟨m, rfl⟩ := Option.isSome_iff_exists.mp hsome
  obtain ⟨n, hn⟩ := Nat.exists_eq_succ_of_ne_zero (Nat.ne_zero_of_lt hp.1.2)
  refine ⟨m, f.fetched p m, cs₁, ?_, received_fetched h hp hasks⟩
  rw [hn, recvLoop, currentPipe_eq hp]
  simp [hread]

/-- `has_in` takes no part from any pipe. -/
theorem hasInLoop_spec :
    ∃ b f' cs', hasInLoop f.pipes.active f cs = .ok (b, f', cs') ∧ Matches f'.pipes cs' ∧
      f'.more = f.more ∧ (∀ q, (cs' q).got = (cs q).got) ∧
      (∀ q, q ∈ f'.pipes.items ↔ q ∈ f.pipes.items) ∧ ∀ q, (cs q).Quiet (cs' q) := by
  induction hn : f.pipes.active generalizing f cs with
  | zero => exact ⟨false, f, cs, rfl, h, rfl, fun _ => rfl, fun _ => .rfl, fun _ => .refl _⟩
  | succ n ih =>
    obtain ⟨p, hp⟩ := h.placed.exists_current (by omega)
    obtain ⟨b, cs₁, hcheck, hasks⟩ := Channels.checkRead_asks (h.alive hp.1.1) (h.healthy p)
    have hgot : ∀ q, (cs₁ q).got = (cs q).got := by
      intro q
      rcases eq_or_ne q p with rfl | hne
      · rw [hasks.got, List.append_nil]
      · rw [hasks.others q hne]
    rw [hasInLoop, currentPipe_eq hp]
    simp only [ok_bind, hcheck]
    cases b with
    | true =>
      exact ⟨true, f, cs₁, rfl, h.found hasks, rfl, hgot, fun _ => .rfl, hasks.all_quiet⟩
    | false =>
      obtain ⟨l, hl, hleaves⟩ := deactivate_eq h.placed hp
      have hfewer := hleaves.fewer
      obtain ⟨b, f', cs', heq, hm, hmore, hgot', hmem, hquiet⟩ := ih (f := { f with pipes := l })
        (h.notFound hp.1 hasks hleaves) (by simp only; omega)
      simp only [hl]
      exact ⟨b, f', cs', heq, hm, hmore, fun q => (hgot' q).trans (hgot q),
        fun q => (hmem q).trans hleaves.mem, fun q => (hasks.all_quiet q).trans (hquiet q)⟩

end
end receiving

/-! ## Events -/

section events
variable {f : Fq} {cs cs' : Channels} {p : PipeId} {a : Action}

theorem attach_eq (h : f.pipes.Placed) (hp : p ∉ f.pipes.items) :
    ∃ l, f.attach p = .ok { f with pipes := l } ∧ ActiveArray.Joins f.pipes l p := by
  obtain ⟨l, hl, hjoins⟩ := ActiveArray.attach_spec h hp
  exact ⟨l, by rw [attach, hl]; rfl, hjoins⟩

theorem activated_eq (h : f.pipes.Placed) (hp : p ∈ f.pipes.items)
    (hpassive : ¬ f.pipes.IsActive p) :
    ∃ l, f.activated p = .ok { f with pipes := l } ∧ ActiveArray.Joins f.pipes l p := by
  obtain ⟨l, hl, hjoins⟩ := ActiveArray.activate_spec h hp hpassive
  exact ⟨l, by rw [activated, hl]; rfl, hjoins⟩

theorem pipeTerminated_eq (h : f.pipes.Placed) (hp : p ∈ f.pipes.items) :
    ∃ l last, f.pipeTerminated p = .ok { f with pipes := l, lastIn := last } ∧
      ActiveArray.Forgets f.pipes l p := by
  obtain ⟨l, hl, hforgets⟩ := ActiveArray.remove_spec h hp
  exact ⟨l, _, by rw [pipeTerminated, hl]; rfl, hforgets⟩

/-- A new pipe has not been found empty. -/
theorem Matches.attach (h : Matches l cs) (hp : p ∉ l.items)
    (halive : ¬ (cs p).gone) (hj : ActiveArray.Joins l l' p) : Matches l' cs := by
  refine h.update hj.placed (fun q hq => ?_) (fun q hq => ?_) (fun _ _ => rfl) (fun _ => halive)
    (h.healthy p) (h.follows p) fun hr => ?_
  · rw [hj.mem, or_iff_left hq]
  · rw [hj.active, or_iff_left hq]
  · have hin := (h.agrees p hr).mpr fun hmem => absurd hmem hp
    rw [hin]
    simp [hj.active]

/-- What a step of pipe `p` does to the array. -/
structure Told (f : Fq) (cs : Channels) (p : PipeId) (a : PipePair.Action) (f' : Fq)
    (cs' : Channels) : Prop where
  agreed : Matches f'.pipes cs'
  more : f'.more = f.more
  got : ∀ q, (cs' q).got = (cs q).got
  called : ∃ r, Channels.Called cs cs' p (a, r)
  /-- It is still the turn of the same pipe, if its place is safe. -/
  current : ∀ {q}, f.pipes.IsCurrent q → (cs q).pipe.state.reading = true →
    (a = .deliver .first → ((cs p).pair.mail .first).head? = some .pipeTermAck →
      f.pipes.IsActive p → f.pipes.current + 1 = f.pipes.active → f.pipes.items.index p = 0) →
    f'.pipes.IsCurrent q

theorem Agrees.keepsIn (h : Agrees l p u) (hk : KeepsIn u u') : Agrees l p u' := by
  intro hr
  obtain ⟨hr', hin⟩ := hk hr
  rw [hin]
  exact h hr'

/-- Nothing is read, and nothing is reported that the queue has to know. -/
theorem Matches.called (h : Matches l cs)
    (hc : Channels.Called cs cs' p (a, r)) (hprudent : (cs p).pair.Prudent a)
    (hund : Undivided .second ((cs p).pair, (cs p).log .second) a)
    (hreads : a.side = .first → a.reads = false)
    (hread : a.side = .first → (cs p).pair.news .first a ≠ [.readActivated])
    (hterm : a.side = .first → (cs p).pair.news .first a ≠ [.pipeTerminated]) : Matches l cs' := by
  have hk : KeepsIn (cs p).pipe (cs' p).pipe := by
    obtain ⟨u, hu⟩ := hc.viewed
    rw [Channel.pipe, Channel.pipe, hu.pipe, Function.update_apply]
    split
    · rename_i hside
      rw [hside]
      exact hu.keepsIn (hreads hside.symm) (hside ▸ hread hside.symm)
    · exact .refl _
  exact h.update h.placed (fun _ _ => .rfl) (fun _ _ => .rfl) (fun q hq => hc.channel_of_ne hq)
    (fun hp hg => h.alive hp ((hc.gone_iff hterm).mp hg)) (hc.healthy (h.healthy p) hprudent)
    (hc.follows (h.healthy p) (h.follows p) hprudent hund) ((h.agrees p).keepsIn hk)

section
variable (h : Matches f.pipes cs) (hc : Channels.Called cs cs' p (a, r))
  (hprudent : (cs p).pair.Prudent a)
  (hund : Undivided .second ((cs p).pair, (cs p).log .second) a)
  (hfirst : a.side = .first → p ∈ f.pipes.items ∧ a.reads = false)
include hc hfirst in
theorem got_called (q : PipeId) : (cs' q).got = (cs q).got := by
  rcases eq_or_ne q p with rfl | hne
  · refine hc.got_of_ne ?_ ?_ <;>
    · rintro rfl
      cases (hfirst rfl).2
  · rw [hc.channel_of_ne hne]
include h hc hprudent hund

theorem told_nothing (hread : a.side = .first → (cs p).pair.news .first a ≠ [.readActivated])
    (hterm : a.side = .first → (cs p).pair.news .first a ≠ [.pipeTerminated])
    (hfirst : a.side = .first → p ∈ f.pipes.items ∧ a.reads = false) : Told f cs p a f cs' :=
  ⟨h.called hc hprudent hund (fun hside => (hfirst hside).2) hread hterm, rfl, got_called hc hfirst,
    ⟨r, hc⟩, fun hq _ _ => hq⟩
include hfirst

/-- A pipe that was found empty has a message again. -/
theorem told_activated (hside : a.side = .first)
    (hnews : (cs p).pair.news .first a = [.readActivated]) :
    ∃ f', f.activated p = .ok f' ∧ Told f cs p a f' cs' := by
  have hp := (hfirst hside).1
  have hothers : ∀ q, q ≠ p → cs' q = cs q := fun q hq => hc.channel_of_ne hq
  obtain ⟨u, hu⟩ := hc.viewed
  obtain ⟨hin, hr, hin', -⟩ := hu.activatedIn (hside ▸ hnews)
  have hpipe : (cs' p).pipe = u := by
    rw [Channel.pipe, hu.pipe, hside, Function.update_self]
  rw [hside] at hin hr
  have hpassive : ¬ f.pipes.IsActive p := by
    intro hact
    have := (h.agrees p hr).mpr fun _ => hact
    rw [Channel.pipe, hin] at this
    cases this
  obtain ⟨l, hl, hj⟩ := activated_eq h.placed hp hpassive
  refine ⟨_, hl, ?_, rfl, got_called hc hfirst, ⟨r, hc⟩, fun hq _ _ => hj.current hq⟩
  refine h.update hj.placed (fun q hq => ?_) (fun q hq => ?_) hothers (fun _ hg => ?_)
    (hc.healthy (h.healthy p) hprudent) (hc.follows (h.healthy p) (h.follows p) hprudent hund)
    fun _ => ?_
  · rw [hj.mem, or_iff_left hq]
  · rw [hj.active, or_iff_left hq]
  · exact h.alive hp ((hc.gone_iff fun _ => by simp [hnews]).mp hg)
  · rw [hpipe, hin']
    simp [hj.active]

theorem told_terminated (hside : a.side = .first)
    (hnews : (cs p).pair.news .first a = [.pipeTerminated]) :
    ∃ f', f.pipeTerminated p = .ok f' ∧ Told f cs p a f' cs' := by
  have hp := (hfirst hside).1
  have hothers : ∀ q, q ≠ p → cs' q = cs q := fun q hq => hc.channel_of_ne hq
  obtain ⟨s, hs, -⟩ := hc.channel_self
  have hno : (cs p).pipe.state.reading = false := by
    have := not_reading_of_terminated hs.2 (hside ▸ hnews)
    rwa [hside] at this
  obtain ⟨l, last, hl, hf⟩ := pipeTerminated_eq h.placed hp
  refine ⟨_, hl, ?_, rfl, got_called hc hfirst, ⟨r, hc⟩, fun {q} hq hr hplace => ?_⟩
  · refine h.update hf.placed (fun q hq => ?_) (fun q hq => ?_) hothers (fun hmem => ?_)
      (hc.healthy (h.healthy p) hprudent) (hc.follows (h.healthy p) (h.follows p) hprudent hund)
      fun hr => ?_
    · rw [hf.mem, and_iff_left hq]
    · rw [hf.active, and_iff_left hq]
    · exact absurd rfl (hf.mem.mp hmem).2
    · -- it does not read any more
      obtain ⟨u, hu⟩ := hc.viewed
      have hk := hu.keepsIn (hfirst hside).2 (by rw [hside, hnews]; nofun)
      rw [Channel.pipe, hu.pipe, hside] at hr
      have := (hk hr).1
      rw [hside, ← Channel.pipe, hno] at this
      cases this
  · obtain ⟨y, rfl, hhead⟩ := news_eq_pipeTerminated hnews
    obtain rfl : y = .first := hside
    refine hf.current hq ?_ (hplace rfl hhead)
    rintro rfl
    rw [hno] at hr
    cases hr

end

theorem told (h : Matches f.pipes cs) (hen : (cs p).pair.Enabled a)
    (hprudent : (cs p).pair.Prudent a)
    (hfirst : a.side = .first → p ∈ f.pipes.items ∧ a.reads = false)
    (hund : Undivided .second ((cs p).pair, (cs p).log .second) a) {ev : List PipeEvent}
    (hact : cs.act p a = .ok (ev, cs')) :
    ∃ f', ev.foldlM (fun f e => f.handle p e) f = .ok f' ∧ Told f cs p a f' cs' := by
  obtain ⟨r, hc, rfl⟩ := Channels.act_called hen hact
  split
  · rename_i hside
    rcases news_cases (cs p).pair .first a with hnil | ⟨e, he⟩
    · rw [hnil]
      exact ⟨f, rfl, told_nothing h hc hprudent hund (by simp [hnil]) (by simp [hnil]) hfirst⟩
    rw [he, List.foldlM_cons]
    simp only [List.foldlM_nil, bind_pure]
    cases e with
    | readActivated => exact told_activated h hc hprudent hund hfirst hside he
    | pipeTerminated => exact told_terminated h hc hprudent hund hfirst hside he
    | _ => exact ⟨f, rfl, told_nothing h hc hprudent hund (by simp [he]) (by simp [he]) hfirst⟩
  · rename_i hside
    exact ⟨f, rfl, told_nothing h hc hprudent hund (fun e => absurd e hside)
      (fun e => absurd e hside) hfirst⟩

end events
end Fq

/-! ## Runs -/

/-- A fair queue, its pipes and the parts it has returned. -/
structure FqNet where
  fq : Fq
  channels : Channels
  /-- The parts returned by `recvpipe` and the pipes they came from, oldest first. -/
  got : List (PipeId × Msg)

namespace FqNet

inductive Act where
  | attach (p : PipeId)
  /-- Whatever happens to pipe `p` from outside. -/
  | pipe (p : PipeId) (a : PipePair.Action)
  | recvpipe
  | hasIn
deriving DecidableEq, Repr

def initial (hwm₀ hwm₁ : PipeId → Int) : FqNet :=
  { fq := .new, channels := fun p => .start (hwm₀ p) (hwm₁ p), got := [] }

def next (n : FqNet) : Act → Except Failure FqNet
  | .attach p => do
      let f ← n.fq.attach p
      .ok { n with fq := f }
  | .pipe p a => do
      let (ev, cs) ← n.channels.act p a
      let f ← ev.foldlM (fun f e => f.handle p e) n.fq
      .ok { n with fq := f, channels := cs }
  | .recvpipe => do
      let (part, f, cs) ← n.fq.recvpipe n.channels
      .ok { fq := f, channels := cs, got := n.got ++ part.toList }
  | .hasIn => do
      let (_, f, cs) ← n.fq.hasIn n.channels
      .ok { n with fq := f, channels := cs }

/-- A pipe is attached once, and lives until the queue is told that it is terminated. Only
the queue reads from its end. The peers write whole messages. -/
def Enabled (n : FqNet) : Act → Prop
  | .attach p => p ∉ n.fq.pipes.items ∧ ¬ (n.channels p).gone
  | .pipe p a => (n.channels p).pair.Enabled a ∧ (n.channels p).pair.Prudent a ∧
      (a.side = .first → p ∈ n.fq.pipes.items ∧ a.reads = false) ∧
      Undivided .second ((n.channels p).pair, (n.channels p).log .second) a
  | .recvpipe | .hasIn => True

def Step (n : FqNet) (a : Act) (n' : FqNet) : Prop := n.Enabled a ∧ n.next a = .ok n'

/-- What may happen to the pipes while a message is half read. The pipe it comes from is not
terminated. If it stands at the end of the active ones, no other active pipe is removed but
the one at the beginning. -/
def Undisturbed (n : FqNet) : Act → Prop
  | .pipe p a => n.fq.more = true →
      (n.fq.pipes.items.get? n.fq.pipes.current = some p →
        ¬ StopsReading (n.channels p).pair .first a) ∧
      (a = .deliver .first → ((n.channels p).pair.mail .first).head? = some .pipeTermAck →
        n.fq.pipes.items.index p < n.fq.pipes.active →
        n.fq.pipes.current + 1 = n.fq.pipes.active → n.fq.pipes.items.index p = 0)
  | .attach _ | .recvpipe | .hasIn => True

/-! ## Messages stay whole -/

/-- The parts of every message come from one pipe, in its order. -/
structure KeepsWhole (n : FqNet) : Prop where
  /-- Whole messages have been returned, each from one pipe, and perhaps the first parts of
  another, whose pipe is the current one. -/
  grouped : ∃ p rest, Grouped Msg.hasMore n.got p rest ∧ (n.fq.more = true ↔ rest ≠ []) ∧
    (rest ≠ [] → n.fq.pipes.items.get? n.fq.pipes.current = some p)
  /-- The parts from one pipe are messages that its peer has sent, one after the other. -/
  ordered : ∀ p, ∃ l, ((n.channels p).log .second).Block l ∧ Fq.partsOf p n.got <+: l
  /-- No assertion fails, and no position is out of range. -/
  succeeds : ∀ a, n.Enabled a → ∃ n', n.next a = .ok n'

structure Sound (n : FqNet) : Prop where
  agreed : Fq.Matches n.fq.pipes n.channels
  got : ∀ p, Fq.partsOf p n.got = (n.channels p).got
  grouped : ∃ p rest, Grouped Msg.hasMore n.got p rest ∧
    (n.fq.more = false ∧ rest = [] ∨ n.fq.more = true ∧ rest ≠ [] ∧ n.fq.pipes.IsCurrent p ∧
      (n.channels p).pipe.state.reading = true)

variable {n n' : FqNet}

theorem sound_initial (hwm₀ hwm₁ : PipeId → Int) : (initial hwm₀ hwm₁).Sound where
  agreed :=
    { placed := ActiveArray.placed_empty
      alive := nofun
      healthy := fun _ => Channel.healthy_start ..
      follows := fun _ => Channel.follows_start ..
      agrees := fun _ _ => iff_of_true rfl nofun }
  got _ := rfl
  grouped := ⟨0, [], grouped_nil 0, .inl ⟨rfl, rfl⟩⟩

theorem partsOf_append (p : PipeId) (l l' : List (PipeId × Msg)) :
    Fq.partsOf p (l ++ l') = Fq.partsOf p l ++ Fq.partsOf p l' := by
  simp [Fq.partsOf]

section
variable (h : n.Sound) {p : PipeId}
include h

/-- In the middle of a message the current pipe has not come to its end. -/
theorem Sound.midway (hg : Grouped Msg.hasMore n.got p rest) (hne : rest ≠ []) :
    ((n.channels p).log .second).Midway := by
  obtain ⟨m, hlast, hmore⟩ := hg.getLast? hne
  refine ⟨m, ?_, hmore⟩
  obtain ⟨init, hinit⟩ := List.getLast?_eq_some_iff.mp hlast
  have hgot := h.got p
  rw [hinit] at hgot
  rw [← Channel.got, ← hgot]
  simp [Fq.partsOf]

theorem Sound.attach (hen : n.Enabled (.attach p)) :
    ∃ n', n.next (.attach p) = .ok n' ∧ n'.Sound := by
  obtain ⟨l, hl, hj⟩ := Fq.attach_eq h.agreed.placed hen.1
  refine ⟨{ n with fq := { n.fq with pipes := l } }, by simp [next, hl],
    h.agreed.attach hen.1 hen.2 hj, h.got, ?_⟩
  obtain ⟨c, rest, hg, hcase⟩ := h.grouped
  refine ⟨c, rest, hg, hcase.imp_right ?_⟩
  rintro ⟨hmore, hne, hcur, hr⟩
  exact ⟨hmore, hne, hj.current hcur, hr⟩

theorem Sound.exists_pipe (hen : n.Enabled (.pipe p a)) :
    ∃ n', n.next (.pipe p a) = .ok n' ∧ n'.got = n.got ∧
      Fq.Told n.fq n.channels p a n'.fq n'.channels := by
  obtain ⟨hen, hprudent, hfirst, hund⟩ := hen
  obtain ⟨ev, cs', hact⟩ := Channels.exists_act (h.agreed.healthy p) hen hprudent
  obtain ⟨f', hf', htold⟩ := Fq.told h.agreed hen hprudent hfirst hund hact
  exact ⟨{ n with fq := f', channels := cs' }, by simp [next, hact, hf'], rfl, htold⟩

/-- A pipe has done a step, and the queue was told. -/
theorem Sound.told (hreads : a.side = .first → a.reads = false) (hund : n.Undisturbed (.pipe p a))
    (htold : Fq.Told n.fq n.channels p a f cs) : Sound { n with fq := f, channels := cs } := by
  refine ⟨htold.agreed, fun q => (h.got q).trans (htold.got q).symm, ?_⟩
  obtain ⟨c, rest, hg, hcase⟩ := h.grouped
  refine ⟨c, rest, hg, ?_⟩
  rw [htold.more]
  refine hcase.imp_right ?_
  rintro ⟨hmore, hne, hcur, hr⟩
  obtain ⟨hstop, hplace⟩ := hund hmore
  refine ⟨hmore, hne, htold.current hcur hr fun ha hhead hact => hplace ha hhead hact.2, ?_⟩
  obtain ⟨r, hc⟩ := htold.called
  rcases eq_or_ne c p with rfl | hcp
  · exact hc.reading hreads hr (hstop hcur.get?)
  · show (cs c).pipe.state.reading = true
    rw [hc.channel_of_ne hcp]
    exact hr

theorem Sound.pipe (hen : n.Enabled (.pipe p a)) (hund : n.Undisturbed (.pipe p a)) :
    ∃ n', n.next (.pipe p a) = .ok n' ∧ n'.Sound := by
  obtain ⟨n', hn', hgot, htold⟩ := h.exists_pipe hen
  have hsound := h.told (fun hside => (hen.2.2.1 hside).2) hund htold
  rw [← hgot] at hsound
  exact ⟨n', hn', hsound⟩

theorem Sound.recvpipe : ∃ n', n.next .recvpipe = .ok n' ∧ n'.Sound := by
  obtain ⟨c, rest, hg, hcase⟩ := h.grouped
  -- the next part comes from the pipe of the message that is being read, if there is one
  have hrecv : ∃ part f' cs', n.fq.recvpipe n.channels = .ok (part, f', cs') ∧
      Fq.Received n.channels part f' cs' ∧ (rest = [] ∨ ∃ m, part = some (c, m)) := by
    rcases hcase with ⟨hmore, hnil⟩ | ⟨-, hne, hcur, hr⟩
    · obtain ⟨part, f', cs', heq, hrec⟩ := Fq.recvLoop_spec h.agreed hmore
      exact ⟨part, f', cs', heq, hrec, .inl hnil⟩
    · obtain ⟨m, f', cs', heq, hrec⟩ :=
        Fq.recvLoop_of_more h.agreed hcur hr (h.midway hg hne)
      exact ⟨_, f', cs', heq, hrec, .inr ⟨m, rfl⟩⟩
  obtain ⟨part, f', cs', heq, hrec, hsource⟩ := hrecv
  refine ⟨⟨f', cs', n.got ++ part.toList⟩, by simp [next, heq], hrec.agreed, fun q => ?_, ?_⟩
  · rw [partsOf_append, hrec.got q, h.got q]
  cases part with
  | none =>
    obtain rfl : rest = [] := hsource.resolve_right nofun
    exact ⟨c, [], by simpa using hg, .inl ⟨hrec.more, rfl⟩⟩
  | some x =>
    obtain ⟨p, m⟩ := x
    have hg' : Grouped Msg.hasMore n.got p rest := by
      rcases hsource with rfl | ⟨m', e⟩
      · exact hg.retarget p
      · cases e
        exact hg
    cases hm : m.hasMore with
    | false => exact ⟨p, [], hg'.concat_last hm, .inl ⟨by simp [hrec.more, hm], rfl⟩⟩
    | true =>
      obtain ⟨hcur, hr⟩ := hrec.current p m rfl hm
      exact ⟨p, rest ++ [m], hg'.concat_more hm, .inr ⟨by simp [hrec.more, hm], by simp, hcur, hr⟩⟩

theorem Sound.hasIn : ∃ n', n.next .hasIn = .ok n' ∧ n'.Sound := by
  by_cases hmore : n.fq.more = true
  · refine ⟨n, ?_, h⟩
    simp [next, Fq.hasIn, hmore]
  obtain ⟨b, f', cs', heq, hm, hmore', hgot, -⟩ := Fq.hasInLoop_spec h.agreed
  refine ⟨{ n with fq := f', channels := cs' }, ?_, hm, fun q => ?_, ?_⟩
  · simp [next, Fq.hasIn, if_neg hmore, heq]
  · rw [hgot q]
    exact h.got q
  obtain ⟨c, rest, hg, hcase⟩ := h.grouped
  refine ⟨c, rest, hg, .inl ?_⟩
  rcases hcase with ⟨hno, hnil⟩ | ⟨hyes, -⟩
  · exact ⟨hmore'.trans hno, hnil⟩
  · exact absurd hyes hmore

theorem Sound.step (hen : n.Enabled a) (hund : n.Undisturbed a) :
    ∃ n', n.next a = .ok n' ∧ n'.Sound := by
  cases a with
  | attach => exact h.attach hen
  | pipe => exact h.pipe hen hund
  | recvpipe => exact h.recvpipe
  | hasIn => exact h.hasIn

theorem Sound.keepsWhole : n.KeepsWhole where
  grouped := by
    obtain ⟨p, rest, hg, hcase⟩ := h.grouped
    refine ⟨p, rest, hg, ?_⟩
    rcases hcase with ⟨hmore, hnil⟩ | ⟨hmore, hne, hcur, -⟩
    · simp [hmore, hnil]
    · exact ⟨by simp [hmore, hne], fun _ => hcur.get?⟩
  ordered p := by
    rw [h.got p]
    exact (h.agreed.follows p).current
  succeeds a hen := by
    cases a with
    | pipe =>
      obtain ⟨n', hn', -⟩ := h.exists_pipe hen
      exact ⟨n', hn'⟩
    | attach =>
      obtain ⟨n', hn', -⟩ := h.attach hen
      exact ⟨n', hn'⟩
    | recvpipe =>
      obtain ⟨n', hn', -⟩ := h.recvpipe
      exact ⟨n', hn'⟩
    | hasIn =>
      obtain ⟨n', hn', -⟩ := h.hasIn
      exact ⟨n', hn'⟩

end

/-- **Fair queueing keeps messages whole**: in runs in which nothing disturbs a message that
is half read, every message comes from one pipe and the rest of it can be read at once. -/
theorem fair_queueing {hwm₀ hwm₁ : PipeId → Int} {tr : List Act}
    (h : Exec (Guarded Step Undisturbed) (initial hwm₀ hwm₁) tr n) : n.KeepsWhole := by
  refine (h.invariant Sound ?_ (sound_initial hwm₀ hwm₁)).keepsWhole
  rintro b act c hb ⟨⟨hen, hnext⟩, hund⟩
  obtain ⟨n', hn', hsound⟩ := hb.step hen hund
  rw [hnext] at hn'
  cases hn'
  exact hsound

/-! ## Concrete runs -/

instance (n : FqNet) (a : Act) : Decidable (n.Enabled a) := by
  rcases a <;> dsimp only [Enabled] <;> infer_instance

instance (n : FqNet) (a : Act) : Decidable (n.Undisturbed a) := by
  rcases a <;> dsimp only [Undisturbed] <;> infer_instance

/-- The peer sends a message of two parts and one of a single part. -/
def peerSends : PipeId → List Act := fun p =>
  [.pipe p (.write .second part), .pipe p (.write .second (single 1)),
    .pipe p (.write .second (single 2)), .pipe p (.flush .second)]

/-- Two pipes with messages; the first one is terminated between the messages. -/
theorem fair_queueing_two_pipes :
    ∃ tr n, Exec (Guarded Step Undisturbed) (initial (fun _ => 9) fun _ => 9) tr n ∧
      n.got = [(0, part), (0, single 1), (1, part), (1, single 1), (1, single 2)] ∧
      n.KeepsWhole := by
  refine exists_exec_with guarded_of_attempt
    (fun n => n.got = [(0, part), (0, single 1), (1, part), (1, single 1), (1, single 2)])
    ([.attach 0, .attach 1] ++ peerSends 0 ++ peerSends 1 ++
      [.recvpipe, .recvpipe, .hasIn, .pipe 0 (.terminate .first false), .recvpipe, .hasIn,
        .recvpipe, .recvpipe, .recvpipe]) (by decide +kernel) ?_
  intro _ _ hexec hgot
  exact ⟨hgot, fair_queueing hexec⟩

/-- The array is `[0, 1, 2]`, and a message from pipe `2` is half read when pipe `1` goes
away. Pipe `2` takes its place, the cursor goes back to the beginning, and the next part
comes from pipe `0`.

If the pipe of the message is itself terminated, the next part does not come at all, and the
assertion fails. -/
theorem fair_queueing_fails :
    (∃ tr n, Exec Step (initial (fun _ => 9) fun _ => 9) tr n ∧
      n.got = [(0, single 1), (1, single 3), (2, part), (0, single 2)] ∧
        ¬ ∃ p rest, Grouped Msg.hasMore n.got p rest) ∧
    ∃ tr n, Exec Step (initial (fun _ => 9) fun _ => 9) tr n ∧
      n.got = [(0, part)] ∧ n.next .recvpipe = .error .assertion := by
  constructor
  · refine exists_exec_with step_of_attempt
      (fun n => n.got = [(0, single 1), (1, single 3), (2, part), (0, single 2)])
      [.attach 0, .attach 1, .attach 2, .pipe 0 (.write .second (single 1)),
        .pipe 0 (.write .second (single 2)), .pipe 0 (.flush .second),
        .pipe 1 (.write .second (single 3)), .pipe 1 (.flush .second),
        .pipe 2 (.write .second part), .pipe 2 (.write .second (single 4)),
        .pipe 2 (.flush .second),
        .recvpipe, .recvpipe, .recvpipe,
        -- the end of pipe `1` and its peer agree to terminate
        .pipe 1 (.setNodelay .second), .pipe 1 (.terminate .first false),
        .pipe 1 (.deliver .second), .pipe 1 (.deliver .first),
        .recvpipe] (by decide +kernel) ?_
    intro _ n _ hgot
    refine ⟨hgot, ?_⟩
    rintro ⟨p, rest, hg⟩
    have hchain := hg.isChain
    rw [hgot] at hchain
    revert hchain
    decide
  · refine exists_exec_with step_of_attempt
      (fun n => n.got = [(0, part)] ∧ failure? (n.next .recvpipe) = some .assertion)
      ([.attach 0] ++ peerSends 0 ++ [.recvpipe, .pipe 0 (.terminate .first true)])
      (by decide +kernel) ?_
    rintro _ n _ ⟨hgot, hfails⟩
    exact ⟨hgot, failure?_eq_some.mp hfails⟩

end FqNet
end LibZmq
