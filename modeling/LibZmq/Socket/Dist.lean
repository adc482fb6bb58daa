import LibZmq.Core.IndexedArray
import LibZmq.Socket.Channel

/-!
# Distribution

`dist_t` (`dist.cpp`) copies a message to several pipes. Its array begins with the matching
pipes, to which the current message goes; then come the other active ones, then those that are
eligible for the next message, and at the end the pipes that are full. A pipe changes its
group by changing places with the item at a border.

Every operation has one lemma that says what it does to the four groups.
-/

namespace LibZmq

open LibZmq.Core PipePair IndexedArray

namespace Channel

/-- All parts that the socket has written. -/
def parts (c : Channel) : List Msg := c.sent.flatten ++ c.begun

/-- The part `m` was offered to the socket's end, and the pipe was flushed if it is the last one of
a message: `c` has become `c'`. -/
structure Passed (c c' : Channel) (m : Msg) : Prop where
  kept : c.Kept c'
  gone : ¬ c'.gone
  offered : Offered c.pipe c'.pipe (decide c.Writable)
  sent : c'.sent =
    if c.Writable ∧ m.hasMore = false then c.sent ++ [c.begun ++ [m]] else c.sent
  begun : c'.begun =
    if c.Writable then (if m.hasMore then c.begun ++ [m] else []) else c.begun
  flushes : c'.flushes = if c.Writable ∧ m.hasMore = false then c.flushes + 1 else c.flushes

theorem Passed.parts {c c' : Channel} (h : c.Passed c' m) :
    c'.parts = c.parts ++ if c.Writable then [m] else [] := by
  rw [Channel.parts, h.sent, h.begun, Channel.parts]
  by_cases hw : c.Writable <;> cases m.hasMore <;> simp [hw]

/-- A pipe that stays active keeps what it was given. -/
theorem Unwritten.parts {c c' : Channel} (h : c.Unwritten c') (hst : c'.pipe.state = .active) :
    c'.parts = c.parts := by
  rw [Channel.parts, h.sent, (h.active hst).2, Channel.parts]

end Channel

/-- `dist_t`. -/
structure Dist where
  pipes : IndexedArray PipeId
  matching : Nat
  active : Nat
  eligible : Nat
  /-- We are in the middle of a message. -/
  more : Bool

namespace Dist

def new : Dist := { pipes := .empty, matching := 0, active := 0, eligible := 0, more := false }

/-- `_pipes.swap`. -/
def swap (d : Dist) (i j : Nat) : Except Failure Dist := do
  let pipes ← inRange (d.pipes.swap i j)
  .ok { d with pipes := pipes }

/-- `attach`. A pipe is attached once only. -/
def attach (d : Dist) (p : PipeId) : Except Failure Dist :=
  if h : p ∉ d.pipes then
    let d := { d with pipes := d.pipes.push p h }
    if d.more then do
      -- in the middle of a message the new pipe is eligible for the next one
      let d ← d.swap d.eligible (d.pipes.size - 1)
      .ok { d with eligible := d.eligible + 1 }
    else do
      let d ← d.swap d.active (d.pipes.size - 1)
      .ok { d with active := d.active + 1, eligible := d.eligible + 1 }
  else .error .assertion

/-- `match`. -/
def matchPipe (d : Dist) (p : PipeId) : Except Failure Dist :=
  if d.pipes.index p < d.matching then .ok d
  else if d.pipes.index p ≥ d.eligible then .ok d
  else do
    let d ← d.swap (d.pipes.index p) d.matching
    .ok { d with matching := d.matching + 1 }

def unmatch (d : Dist) : Dist := { d with matching := 0 }

/-- The loop of `reverse_match` from position `i`, with `n` rounds to go. -/
def reverseLoop : Nat → Nat → Dist → Except Failure Dist
  | 0, _, d => .ok d
  | n + 1, i, d => do
      let d ← d.swap i d.matching
      reverseLoop n (i + 1) { d with matching := d.matching + 1 }

def reverseMatch (d : Dist) : Except Failure Dist :=
  reverseLoop (d.eligible - d.matching) d.matching d.unmatch

/-- If the pipe is one of the first `n`, it changes places with the last of them and is so no
longer. -/
def leave (a : IndexedArray PipeId) (p : PipeId) (n : Nat) :
    Except Failure (IndexedArray PipeId × Nat) :=
  if a.index p < n then do
    let a ← inRange (a.swap (a.index p) (n - 1))
    .ok (a, n - 1)
  else .ok (a, n)

def pipeTerminated (d : Dist) (p : PipeId) : Except Failure Dist := do
  let (pipes, matching) ← leave d.pipes p d.matching
  let (pipes, active) ← leave pipes p d.active
  let (pipes, eligible) ← leave pipes p d.eligible
  let pipes ← inRange (pipes.erase p)
  .ok { d with pipes := pipes, matching := matching, active := active, eligible := eligible }

def activated (d : Dist) (p : PipeId) : Except Failure Dist := do
  let d ←
    if d.eligible < d.pipes.size then do
      let d ← d.swap (d.pipes.index p) d.eligible
      .ok { d with eligible := d.eligible + 1 }
    else .ok d
  -- if there is no message being sent at the moment, move it to the active state
  if d.more = false ∧ d.active < d.pipes.size then do
    let d ← d.swap (d.eligible - 1) d.active
    .ok { d with active := d.active + 1 }
  else .ok d

/-- The pipe cannot be written to: it becomes passive. -/
def retire (d : Dist) (p : PipeId) : Except Failure Dist := do
  let d ← d.swap (d.pipes.index p) (d.matching - 1)
  let d := { d with matching := d.matching - 1 }
  let d ← d.swap (d.pipes.index p) (d.active - 1)
  let d := { d with active := d.active - 1 }
  let d ← d.swap d.active (d.eligible - 1)
  .ok { d with eligible := d.eligible - 1 }

def write (d : Dist) (cs : Channels) (p : PipeId) (m : Msg) :
    Except Failure (Bool × Dist × Channels) := do
  match ← cs.write p m with
  | (false, cs) => do
      let d ← d.retire p
      .ok (false, d, cs)
  | (true, cs) => if m.hasMore then .ok (true, d, cs) else do .ok (true, d, ← cs.flush p)

/-- The loop of `distribute` from position `i`, with `n` rounds to go. -/
def distributeLoop : Nat → Nat → Dist → Channels → Msg → Except Failure (Dist × Channels)
  | 0, _, d, cs, _ => .ok (d, cs)
  | n + 1, i, d, cs, m => do
      let p ← inRange (d.pipes.get? i)
      match ← d.write cs p m with
      | (true, d, cs) => distributeLoop n (i + 1) d cs m
      -- the same index again, because the entry has been removed
      | (false, d, cs) => distributeLoop n i d cs m

def distribute (d : Dist) (cs : Channels) (m : Msg) : Except Failure (Dist × Channels) :=
  distributeLoop d.matching 0 d cs m

def sendToMatching (d : Dist) (cs : Channels) (m : Msg) : Except Failure (Dist × Channels) := do
  let (d, cs) ← d.distribute cs m
  -- after the last part activate all the eligible pipes
  let d := if m.hasMore then d else { d with active := d.eligible }
  .ok ({ d with more := m.hasMore }, cs)

def sendToAll (d : Dist) (cs : Channels) (m : Msg) : Except Failure (Dist × Channels) :=
  sendToMatching { d with matching := d.active } cs m

def checkHwm (d : Dist) (cs : Channels) : Bool :=
  (d.pipes.items.take d.matching).all fun p => (cs p).pipe.checkHwm

/-! ## The groups of pipes -/

variable {d d' : Dist} {p q : PipeId}

/-- The message that is being sent goes to `p`. -/
def Matching (d : Dist) (p : PipeId) : Prop := d.pipes.Below d.matching p

def Active (d : Dist) (p : PipeId) : Prop := d.pipes.Below d.active p

instance (d : Dist) (p : PipeId) : Decidable (d.Active p) := inferInstanceAs (Decidable (_ ∧ _))

def Eligible (d : Dist) (p : PipeId) : Prop := d.pipes.Below d.eligible p

/-- The groups are nested. -/
structure Nested (d : Dist) : Prop where
  matching : d.matching ≤ d.active
  active : d.active ≤ d.eligible
  eligible : d.eligible ≤ d.pipes.size
  /-- Between two messages all eligible pipes are active. -/
  between : d.more = false → d.active = d.eligible

/-- The groups of `d'`. -/
structure Groups (d d' : Dist) (mem matching active eligible : PipeId → Prop) : Prop where
  nested : d'.Nested
  more : d'.more = d.more
  mem : ∀ q, q ∈ d'.pipes ↔ mem q
  matching : ∀ q, d'.Matching q ↔ matching q
  active : ∀ q, d'.Active q ↔ active q
  eligible : ∀ q, d'.Eligible q ↔ eligible q

theorem nested_new : new.Nested := ⟨le_rfl, le_rfl, le_rfl, fun _ => rfl⟩

theorem Nested.active_of_matching (h : d.Nested) (hp : d.Matching p) : d.Active p :=
  Below.mono hp h.matching

theorem Nested.eligible_of_active (h : d.Nested) (hp : d.Active p) : d.Eligible p :=
  Below.mono hp h.active

theorem Nested.unmatch (h : d.Nested) : d.unmatch.Nested :=
  { h with matching := Nat.zero_le _ }

theorem swap_eq (h : d.pipes.swap i j = some b) : d.swap i j = .ok { d with pipes := b } := by
  rw [swap, h]
  rfl

/-- A new pipe is active, but not in the middle of a message. -/
theorem attach_spec (h : d.Nested) (hp : p ∉ d.pipes) :
    ∃ d', d.attach p = .ok d' ∧ Groups d d' (fun q => q ∈ d.pipes ∨ q = p) d.Matching
      (fun q => d.Active q ∨ d.more = false ∧ q = p) (fun q => d.Eligible q ∨ q = p) := by
  obtain ⟨hma, hae, hes, hbetween⟩ := h
  have hsize := size_push d.pipes p hp
  have hself : p ∈ d.pipes.push p hp := by simp
  have hlast : (d.pipes.push p hp).index p = (d.pipes.push p hp).size - 1 := by
    rw [index_push_self, hsize]
    rfl
  have hpush := fun {k q} (hk : k ≤ d.pipes.size) => below_push (q := q) hp hk
  rw [attach, dif_pos hp]
  -- in the middle of a message the pipe is eligible, but not yet active
  by_cases hmore : d.more = true
  · obtain ⟨b, hb, hj⟩ := exists_joined_of_index (n := d.eligible) hself hlast (by omega)
    refine ⟨{ d with pipes := b, eligible := d.eligible + 1 }, ?_, ⟨?_, rfl, ?_, ?_, ?_, ?_⟩⟩
    · rw [if_pos hmore, swap_eq hb]
      rfl
    · exact ⟨hma, by simp only; omega, by simp only [hj.size]; omega, by simp [hmore]⟩
    · intro q
      simp [hj.mem]
    · intro q
      exact (hj.others (k := d.matching) (.inl (by omega))).trans (hpush (by omega))
    · intro q
      simp only [hmore, Bool.true_eq_false, false_and, or_false]
      exact (hj.others (.inl hae)).trans (hpush (by omega))
    · intro q
      exact hj.below.trans (or_congr_left (hpush hes))
  · have hnot : d.more = false := by simpa using hmore
    obtain ⟨b, hb, hj⟩ := exists_joined_of_index (n := d.active) hself hlast (by omega)
    have heq := hbetween hnot
    refine ⟨{ d with pipes := b, active := d.active + 1, eligible := d.eligible + 1 }, ?_,
      ⟨?_, rfl, ?_, ?_, ?_, ?_⟩⟩
    · rw [if_neg hmore, swap_eq hb]
      rfl
    · exact ⟨by simp only; omega, by simp only; omega, by simp only [hj.size]; omega,
        fun _ => by simp only; omega⟩
    · intro q
      simp [hj.mem]
    · intro q
      exact (hj.others (.inl hma)).trans (hpush (by omega))
    · intro q
      simp only [hnot, true_and]
      exact hj.below.trans (or_congr_left (hpush (by omega)))
    · intro q
      simp only [Eligible, ← heq]
      exact hj.below.trans (or_congr_left (hpush (by omega)))

theorem matchPipe_spec (h : d.Nested) (hmore : d.more = false) (hp : p ∈ d.pipes) :
    ∃ d', d.matchPipe p = .ok d' ∧ Groups d d' (· ∈ d.pipes)
      (fun q => d.Matching q ∨ d.Eligible q ∧ q = p) d.Active d.Eligible := by
  obtain ⟨hma, hae, hes, hbetween⟩ := h
  have heq := hbetween hmore
  rw [matchPipe]
  by_cases hlow : d.pipes.index p < d.matching
  · rw [if_pos hlow]
    refine ⟨d, rfl, ⟨⟨hma, hae, hes, hbetween⟩, rfl, fun _ => .rfl, fun q => ?_, fun _ => .rfl,
      fun _ => .rfl⟩⟩
    constructor
    · exact .inl
    · rintro (hq | ⟨_, rfl⟩)
      · exact hq
      · exact ⟨hp, hlow⟩
  rw [if_neg hlow]
  by_cases hhigh : d.pipes.index p ≥ d.eligible
  · rw [if_pos hhigh]
    refine ⟨d, rfl, ⟨⟨hma, hae, hes, hbetween⟩, rfl, fun _ => .rfl, fun q => ?_, fun _ => .rfl,
      fun _ => .rfl⟩⟩
    constructor
    · exact .inl
    · rintro (hq | ⟨hq, rfl⟩)
      · exact hq
      · exact absurd hq.2 (Nat.not_lt.mpr hhigh)
  rw [if_neg hhigh]
  obtain ⟨b, hb, hj⟩ := exists_joined (n := d.matching) hp (by omega)
  refine ⟨{ d with pipes := b, matching := d.matching + 1 }, ?_,
    ⟨?_, rfl, fun _ => hj.mem, ?_, ?_, ?_⟩⟩
  · rw [swap_eq hb]
    rfl
  · exact ⟨by simp only; omega, hae, by simp only [hj.size]; exact hes, hbetween⟩
  · intro q
    refine hj.below.trans (or_congr_right ?_)
    constructor
    · rintro rfl
      exact ⟨⟨hp, by omega⟩, rfl⟩
    · exact And.right
  · exact fun q => hj.others (k := d.active) (.inr (by omega))
  · exact fun q => hj.others (k := d.eligible) (.inr (by omega))

/-- The loop moves the pipes from `i` up to the eligible border to the front. -/
theorem reverseLoop_spec (n i : Nat) (d : Dist) (hm : d.matching ≤ i) (hn : i + n = d.eligible)
    (hes : d.eligible ≤ d.pipes.size) :
    ∃ b, reverseLoop n i d = .ok { d with pipes := b, matching := d.matching + n } ∧
      b.size = d.pipes.size ∧ (∀ q, q ∈ b ↔ q ∈ d.pipes) ∧
      (∀ q, b.Below d.eligible q ↔ d.pipes.Below d.eligible q) ∧
      ∀ q, b.Below (d.matching + n) q ↔ d.pipes.Below d.matching q ∨
        d.pipes.Below d.eligible q ∧ i ≤ d.pipes.index q := by
  induction n generalizing i d with
  | zero =>
    refine ⟨d.pipes, rfl, rfl, fun _ => .rfl, fun _ => .rfl, fun q => ?_⟩
    constructor
    · exact .inl
    · rintro (hq | ⟨hq, hge⟩)
      · exact hq
      · exact absurd hq.2 (by omega)
  | succ n ih =>
    obtain ⟨p, hp, hi⟩ := exists_index_eq (a := d.pipes) (i := i) (by omega)
    subst hi
    obtain ⟨b, hb, hj⟩ := exists_joined hp hm
    obtain ⟨b', hb', hsize, hmem, helig, hmatch⟩ := ih (d.pipes.index p + 1)
      { d with pipes := b, matching := d.matching + 1 } (by simp only; omega) (by simp only; omega)
      (by simp only [hj.size]; exact hes)
    have helig' : ∀ q, b.Below d.eligible q ↔ d.pipes.Below d.eligible q := fun q =>
      hj.others (.inr (by omega))
    refine ⟨b', ?_, hsize.trans hj.size, fun q => (hmem q).trans hj.mem,
      fun q => (helig q).trans (helig' q), fun q => ?_⟩
    · rw [reverseLoop, swap_eq hb]
      simp [hb', Nat.add_assoc, Nat.add_comm 1 n]
    · rw [show d.matching + (n + 1) = d.matching + 1 + n by omega, hmatch, hj.below, helig',
        or_assoc]
      -- apart from `p`, a pipe stays on its side of the position of `p`
      have hside : ∀ q, b.Below (d.pipes.index p + 1) q ↔ d.pipes.Below (d.pipes.index p + 1) q :=
        fun q => hj.others (.inr (Nat.lt_succ_self _))
      have hmemq : q ∈ b ↔ q ∈ d.pipes := hj.mem
      have hsideq := hside q
      simp only [Below] at hsideq ⊢
      grind

/-- Exactly the other eligible pipes match. -/
theorem reverseMatch_spec (h : d.Nested) (hmore : d.more = false) :
    ∃ d', d.reverseMatch = .ok d' ∧ Groups d d' (· ∈ d.pipes)
      (fun q => d.Eligible q ∧ ¬ d.Matching q) d.Active d.Eligible := by
  obtain ⟨hma, hae, hes, hbetween⟩ := h
  have heq := hbetween hmore
  obtain ⟨b, hb, hsize, hmem, helig, hmatch⟩ := reverseLoop_spec (d.eligible - d.matching)
    d.matching d.unmatch (Nat.zero_le _) (by simp only [unmatch]; omega) hes
  refine ⟨_, hb, ⟨?_, rfl, hmem, fun q => (hmatch q).trans ?_, ?_, helig⟩⟩
  · exact ⟨by simp only [unmatch]; omega, hae, by simp only [hsize]; exact hes, hbetween⟩
  · simp only [unmatch, Below, Eligible, Matching]
    grind
  · intro q
    simp only [Active, unmatch, heq]
    exact helig q

theorem leave_spec (hp : p ∈ a) (hn : n ≤ a.size) :
    ∃ b m, leave a p n = .ok (b, m) ∧ (m = if a.index p < n then n - 1 else n) ∧
      b.size = a.size ∧ (∀ q, q ∈ b ↔ q ∈ a) ∧ (∀ q, b.Below m q ↔ a.Below n q ∧ q ≠ p) ∧
      (∀ k q, k ≤ a.index p ∨ n ≤ k → (b.Below k q ↔ a.Below k q)) ∧ m ≤ b.index p ∧
      ∀ k, k ≤ a.index p ∨ n ≤ k → (b.index p < k ↔ a.index p < k) := by
  rw [leave]
  by_cases hlt : a.index p < n
  · obtain ⟨b, hb, hl⟩ := exists_left ⟨hp, hlt⟩ hn
    have hp' : p ∈ b := hl.mem.mpr hp
    simp only [if_pos hlt, hb]
    refine ⟨b, _, rfl, rfl, hl.size, fun _ => hl.mem, fun _ => hl.below, fun _ _ => hl.others,
      Nat.le_of_not_lt fun hlt => (hl.below.mp ⟨hp', hlt⟩).2 rfl, fun k hk => ?_⟩
    simpa [Below, hp, hp'] using hl.others (q := p) hk
  simp only [if_neg hlt]
  refine ⟨a, n, rfl, rfl, rfl, fun _ => .rfl, fun q => ?_, fun _ _ _ => .rfl,
    Nat.le_of_not_lt hlt, fun _ _ => .rfl⟩
  constructor
  · intro hq
    refine ⟨hq, ?_⟩
    rintro rfl
    exact hlt hq.2
  · exact And.left

section
variable (h : d.Nested) (hp : p ∈ d.pipes)
include h hp

theorem pipeTerminated_spec :
    ∃ d', d.pipeTerminated p = .ok d' ∧ Groups d d' (fun q => q ∈ d.pipes ∧ q ≠ p)
      (fun q => d.Matching q ∧ q ≠ p) (fun q => d.Active q ∧ q ≠ p)
      (fun q => d.Eligible q ∧ q ≠ p) := by
  obtain ⟨hma, hae, hes, hbetween⟩ := h
  obtain ⟨b₁, m, h₁, hm, hsize₁, hmem₁, hlow₁, hothers₁, hnot₁, hat₁⟩ :=
    leave_spec hp (n := d.matching) (by omega)
  have hp₁ := (hmem₁ p).mpr hp
  obtain ⟨b₂, act, h₂, ha, hsize₂, hmem₂, hlow₂, hothers₂, hnot₂, hat₂⟩ :=
    leave_spec hp₁ (n := d.active) (by omega)
  have hp₂ := (hmem₂ p).mpr hp₁
  obtain ⟨b₃, e, h₃, he, hsize₃, hmem₃, hlow₃, hothers₃, hnot₃, hat₃⟩ :=
    leave_spec hp₂ (n := d.eligible) (by omega)
  have hp₃ := (hmem₃ p).mpr hp₂
  obtain ⟨b₄, h₄, herased⟩ := exists_erase hp₃
  -- where `p` stands after each step
  have hm₂ : m ≤ b₂.index p := by
    have := hat₂ m (.inl hnot₁)
    omega
  have hm₃ : m ≤ b₃.index p := by
    have := hat₃ m (.inl hm₂)
    omega
  have ha₃ : act ≤ b₃.index p := by
    have := hat₃ act (.inl hnot₂)
    omega
  have ha' := hat₁ d.active (.inr hma)
  have he' := (hat₂ d.eligible (.inr hae)).trans (hat₁ d.eligible (.inr (by omega)))
  have hsize := herased.size
  have hlt := index_lt_size hp
  refine ⟨{ d with pipes := b₄, matching := m, active := act, eligible := e }, ?_,
    ⟨⟨?_, ?_, ?_, ?_⟩, rfl, fun q => ?_, fun q => ?_, fun q => ?_, fun q => ?_⟩⟩
  · simp [pipeTerminated, h₁, h₂, h₃, h₄, inRange]
  · simp only
    split at hm <;> split at ha <;> omega
  · simp only
    split at ha <;> split at he <;> omega
  · simp only
    split at he <;> omega
  · intro hmore
    have := hbetween hmore
    simp only
    split at ha <;> split at he <;> omega
  · rw [herased.mem, hmem₃, hmem₂, hmem₁]
  · exact (herased.below hp₃ hm₃).trans ((hothers₃ m q (.inl hm₂)).trans
      ((hothers₂ m q (.inl hnot₁)).trans (hlow₁ q)))
  · exact (herased.below hp₃ ha₃).trans ((hothers₃ act q (.inl hnot₂)).trans
      ((hlow₂ q).trans (and_congr_left' (hothers₁ d.active q (.inr hma)))))
  · exact (herased.below hp₃ hnot₃).trans ((hlow₃ q).trans (and_congr_left'
      ((hothers₂ d.eligible q (.inr hae)).trans (hothers₁ d.eligible q (.inr (by omega))))))

/-- A pipe changes places with the first one behind the eligible pipes, and, if no message is being
sent, with the first one behind the active pipes. -/
theorem activated_swaps (hroom : d.eligible < d.pipes.size) :
    ∃ b d', Swapped d.pipes b (d.pipes.index p) d.eligible ∧ d.activated p = .ok d' ∧ d'.Nested ∧
      (d.more = true ∧ d' = { d with pipes := b, eligible := d.eligible + 1 } ∨
        d.more = false ∧ ∃ b', Swapped b b' d.eligible d.active ∧
          d' = { d with pipes := b', active := d.active + 1, eligible := d.eligible + 1 }) := by
  obtain ⟨hma, hae, -, hbetween⟩ := h
  obtain ⟨b, hb, hs⟩ := exists_swap (index_lt_size hp) hroom
  refine ⟨b, ?_⟩
  have hsize := hs.size
  rw [activated]
  simp only [if_pos hroom, swap_eq hb, ok_bind]
  cases hmore : d.more with
  | true =>
    refine ⟨_, hs, if_neg (by simp), ⟨hma, ?_, ?_, nofun⟩, .inl ⟨rfl, rfl⟩⟩ <;> simp only <;> omega
  | false =>
    have heq := hbetween hmore
    obtain ⟨b', hb', hs'⟩ :=
      exists_swap (a := b) (i := d.eligible) (j := d.active) (by omega) (by omega)
    have hsize' := hs'.size
    rw [if_pos ⟨rfl, by omega⟩, swap_eq hb']
    refine ⟨_, hs, rfl, ⟨?_, ?_, ?_, fun _ => ?_⟩, .inr ⟨rfl, b', hs', rfl⟩⟩ <;> simp only <;> omega

/-- A passive pipe becomes eligible, and active if no message is being sent. -/
theorem activated_spec (hpassive : ¬ d.Eligible p) :
    ∃ d', d.activated p = .ok d' ∧ Groups d d' (· ∈ d.pipes) d.Matching
      (fun q => d.Active q ∨ d.more = false ∧ q = p) (fun q => d.Eligible q ∨ q = p) := by
  have hge : d.eligible ≤ d.pipes.index p := Nat.le_of_not_lt fun hlt => hpassive ⟨hp, hlt⟩
  obtain ⟨b, d', hs, hok, hnested, hcase⟩ :=
    activated_swaps h hp (Nat.lt_of_le_of_lt hge (index_lt_size hp))
  have hj := hs.joined hp hge
  obtain ⟨hma, hae, -⟩ := h
  refine ⟨d', hok, ?_⟩
  rcases hcase with ⟨hmore, rfl⟩ | ⟨hmore, b', hs', rfl⟩
  · refine ⟨hnested, rfl, fun _ => hj.mem, fun q => ?_, fun q => ?_, fun _ => hj.below⟩
    · exact hj.others (k := d.matching) (.inl (by omega))
    · simp only [hmore, Bool.true_eq_false, false_and, or_false]
      exact hj.others (.inl hae)
  · -- the pipe stands at the border already
    rw [← hj.index] at hs'
    have hj' := hs'.joined (hj.mem.mpr hp) (by rw [hj.index]; omega)
    refine ⟨hnested, rfl, fun q => hj'.mem.trans hj.mem, fun q => ?_, fun q => ?_, fun q => ?_⟩
    · exact (hj'.others (.inl hma)).trans (hj.others (.inl (by omega)))
    · simp only [hmore, true_and]
      exact hj'.below.trans (or_congr_left (hj.others (.inl hae)))
    · have := hj'.others (k := d.eligible + 1) (q := q) (.inr (by rw [hj.index]; omega))
      exact this.trans hj.below

/-- `activated` of a pipe that is eligible already makes another one eligible, but a message that
is being sent goes on to the same pipes. -/
theorem activated_keeps :
    ∃ d', d.activated p = .ok d' ∧ d'.Nested ∧ d'.more = d.more ∧
      (∀ q, q ∈ d'.pipes ↔ q ∈ d.pipes) ∧ (∀ q, d.Eligible q ∨ q = p → d'.Eligible q) ∧
      (d.more = true → ¬ d.Active p → ∀ q, d'.Active q ↔ d.Active q) := by
  by_cases hroom : d.eligible < d.pipes.size
  · obtain ⟨b, d', hs, hok, hnested, hcase⟩ := activated_swaps h hp hroom
    refine ⟨d', hok, hnested, ?_⟩
    have hgrown : ∀ q, d.Eligible q ∨ q = p → b.Below (d.eligible + 1) q := by
      intro q hq
      have hq' : q ∈ d.pipes := hq.elim And.left fun heq => heq ▸ hp
      refine ⟨hs.mem.mpr hq', ?_⟩
      rw [hs.index hq', Equiv.swap_apply_def]
      rcases hq with ⟨-, hlt⟩ | rfl <;> split_ifs <;> omega
    rcases hcase with ⟨hmore, rfl⟩ | ⟨hmore, b', hs', rfl⟩
    · refine ⟨rfl, fun _ => hs.mem, hgrown, fun _ hmid q => ?_⟩
      -- both places are behind the active pipes
      have hge : d.active ≤ d.pipes.index p := Nat.le_of_not_lt fun hlow => hmid ⟨hp, hlow⟩
      have hae := h.active
      have hmem : q ∈ b ↔ q ∈ d.pipes := hs.mem
      have hidx : q ∈ d.pipes → _ := hs.index
      simp only [Active, Below] at hidx ⊢
      grind
    · refine ⟨rfl, fun _ => hs'.mem.trans hs.mem, fun q hq => ?_,
        fun hyes => by simp [hmore] at hyes⟩
      obtain ⟨hq, hlt⟩ := hgrown q hq
      refine ⟨hs'.mem.mpr hq, ?_⟩
      rwa [hs'.index hq, h.between hmore, Equiv.swap_self]
  · have hfull : ¬ (d.more = false ∧ d.active < d.pipes.size) := by
      rintro ⟨hnot, hless⟩
      have := h.between hnot
      omega
    rw [activated]
    simp only [if_neg hroom, ok_bind]
    rw [if_neg hfull]
    refine ⟨d, rfl, h, rfl, fun _ => .rfl, fun q hq => ?_, fun _ _ _ => .rfl⟩
    have hq' : q ∈ d.pipes := hq.elim And.left fun heq => heq ▸ hp
    exact ⟨hq', Nat.lt_of_lt_of_le (index_lt_size hq') (Nat.le_of_not_lt hroom)⟩

end

theorem retire_spec (h : d.Nested) (hp : d.Matching p) :
    ∃ d', d.retire p = .ok d' ∧ d'.matching + 1 = d.matching ∧
      (∀ k q, k ≤ d.pipes.index p → (d'.pipes.Below k q ↔ d.pipes.Below k q)) ∧
      Groups d d' (· ∈ d.pipes) (fun q => d.Matching q ∧ q ≠ p) (fun q => d.Active q ∧ q ≠ p)
        (fun q => d.Eligible q ∧ q ≠ p) := by
  obtain ⟨hma, hae, hes, hbetween⟩ := h
  have hlt := hp.2
  obtain ⟨b₁, h₁, hl₁⟩ := exists_left hp (by omega)
  have hi₁ := hl₁.index
  have hp₁ : b₁.Below d.active p := (hl₁.others (.inr hma)).mpr (hp.mono hma)
  obtain ⟨b₂, h₂, hl₂⟩ := exists_left hp₁ (by rw [hl₁.size]; omega)
  have hi₂ := hl₂.index
  have hp₂ : b₂.Below d.eligible p := (hl₂.others (.inr hae)).mpr (hp₁.mono hae)
  obtain ⟨b₃, h₃, hl₃⟩ := exists_left hp₂ (by rw [hl₂.size, hl₁.size]; omega)
  rw [hi₂] at h₃
  refine ⟨⟨b₃, d.matching - 1, d.active - 1, d.eligible - 1, d.more⟩, ?_, by simp only; omega,
    fun k q hk => ?_, ⟨⟨?_, ?_, ?_, ?_⟩, rfl, fun q => ?_, fun q => ?_, fun q => ?_, fun q => ?_⟩⟩
  · rw [retire, swap_eq h₁]
    simp only [bind, Except.bind]
    rw [swap_eq h₂]
    simp only
    rw [swap_eq h₃]
  · exact (hl₃.others (.inl (by omega))).trans ((hl₂.others (.inl (by omega))).trans
      (hl₁.others (.inl hk)))
  · simp only
    omega
  · simp only
    omega
  · simp only [hl₃.size, hl₂.size, hl₁.size]
    omega
  · intro hmore
    rw [hbetween hmore]
  · rw [hl₃.mem, hl₂.mem, hl₁.mem]
  · exact (hl₃.others (k := d.matching - 1) (.inl (by omega))).trans
      ((hl₂.others (.inl (by omega))).trans hl₁.below)
  · exact (hl₃.others (k := d.active - 1) (.inl (by omega))).trans
      (hl₂.below.trans (and_congr_left' (hl₁.others (.inr hma))))
  · exact hl₃.below.trans (and_congr_left' ((hl₂.others (.inr hae)).trans
      (hl₁.others (.inr (by omega)))))

/-! ## Writing to the matching pipes -/

section writing
variable {cs cs' : Channels} {m : Msg}

theorem passed_of_writes (hw : cs.Writes cs₁ p m) (hpipe : (cs' p).pipe = (cs₁ p).pipe)
    (hcalls : cs₁.Calls cs' p (cs₁ p).sent (cs₁ p).begun
      (if m.hasMore then (cs₁ p).flushes else (cs₁ p).flushes + 1)) :
    (cs p).Writable ∧ (cs p).Passed (cs' p) m := by
  have hyes := hw.writable
  refine ⟨hyes, hw.kept.trans hcalls.kept, hcalls.gone, ?_, ?_, ?_, ?_⟩
  · rw [hpipe, decide_eq_true hyes]
    exact hw.offered
  · rw [hcalls.sent, hw.sent]
    cases m.hasMore <;> simp [hyes]
  · rw [hcalls.begun, hw.begun, if_pos hyes]
  · rw [hcalls.flushes, hw.flushes]
    cases m.hasMore <;> simp [hyes]

theorem passed_of_offers (ho : cs.Offers cs' p false) :
    ¬ (cs p).Writable ∧ (cs p).Passed (cs' p) m := by
  have hno := ho.not_writable
  refine ⟨hno, ho.kept, ho.gone, ?_, ?_, ?_, ?_⟩
  · rw [decide_eq_false hno]
    exact ho.offered
  · rw [ho.sent, if_neg fun h => hno h.1]
  · rw [ho.begun, if_neg hno]
  · rw [ho.flushes, if_neg fun h => hno h.1]

/-- `write` passes the part on or makes the pipe passive. -/
theorem write_spec (hmsg : m.Ordinary) (h : d.Nested) (hp : d.Matching p) (halive : ¬ (cs p).gone) :
    (∃ f, d.write cs p m = .error (.pipe f) ∧ ¬ (cs p).Healthy) ∨
      ∃ cs', (∀ q, q ≠ p → cs' q = cs q) ∧ (cs p).Passed (cs' p) m ∧
        ((cs p).Writable ∧ d.write cs p m = .ok (true, d, cs') ∨
          ¬ (cs p).Writable ∧ ∃ d', d.retire p = .ok d' ∧
            d.write cs p m = .ok (false, d', cs')) := by
  rcases Channels.write_spec halive hmsg with ⟨f, hf, hsick⟩ | ⟨b, cs₁, hwrite, hcase⟩
  · exact .inl ⟨f, by rw [write, hf]; rfl, hsick⟩
  rcases hcase with ⟨rfl, hw⟩ | ⟨rfl, ho⟩
  · by_cases hmore : m.hasMore = true
    · have hcalls : cs₁.Calls cs₁ p (cs₁ p).sent (cs₁ p).begun
          (if m.hasMore then (cs₁ p).flushes else (cs₁ p).flushes + 1) :=
        ⟨fun _ _ => rfl, .refl _, fun _ => id, hw.gone, rfl, rfl, (if_pos hmore).symm⟩
      obtain ⟨hyes, hoffer⟩ := passed_of_writes hw rfl hcalls
      refine .inr ⟨cs₁, hw.others, hoffer, .inl ⟨hyes, ?_⟩⟩
      rw [write, hwrite]
      simp [hmore]
    rcases Channels.flush_spec hw.gone with ⟨f, hf, hsick⟩ | ⟨cs', hflush, hpipe, hcalls⟩
    · refine .inl ⟨f, ?_, mt hw.healthy hsick⟩
      rw [write, hwrite]
      simp [hmore, hf]
    obtain ⟨hyes, hoffer⟩ := passed_of_writes hw hpipe (by rw [if_neg hmore]; exact hcalls)
    refine .inr ⟨cs', fun q hq => (hcalls.others q hq).trans (hw.others q hq), hoffer,
      .inl ⟨hyes, ?_⟩⟩
    rw [write, hwrite]
    simp [hmore, hflush]
  · obtain ⟨hno, hoffer⟩ := passed_of_offers ho
    obtain ⟨d', hd', -⟩ := retire_spec h hp
    refine .inr ⟨cs₁, ho.others, hoffer, .inr ⟨hno, d', hd', ?_⟩⟩
    rw [write, hwrite]
    simp [hd']

/-- The loop at index `i` has still to offer the part to `q`. -/
def Remaining (d : Dist) (i : Nat) (q : PipeId) : Prop :=
  d.Matching q ∧ i ≤ d.pipes.index q

/-- What the loop from index `i` on does: the part has been offered to the remaining pipes, and
those that did not take it are passive. -/
structure Offered (d : Dist) (cs : Channels) (m : Msg) (i : Nat) (d' : Dist) (cs' : Channels) :
    Prop where
  others : ∀ q, ¬ d.Remaining i q → cs' q = cs q
  each : ∀ q, d.Remaining i q → (cs q).Passed (cs' q) m
  groups : Groups d d' (· ∈ d.pipes)
    (fun q => d.Matching q ∧ (d.Remaining i q → (cs q).Writable))
    (fun q => d.Active q ∧ (d.Remaining i q → (cs q).Writable))
    (fun q => d.Eligible q ∧ (d.Remaining i q → (cs q).Writable))

/-- The part has been offered to `p` and then to the pipes that remain. -/
theorem Offered.cons (h : Offered d₁ cs₁ m j d' cs')
    (hp : d.Remaining i p) (hrest : ∀ q, d₁.Remaining j q ↔ d.Remaining i q ∧ q ≠ p)
    (hothers : ∀ q, q ≠ p → cs₁ q = cs q) (hpassed : (cs p).Passed (cs₁ p) m)
    (hg : Groups d d₁ (· ∈ d.pipes) (fun q => d.Matching q ∧ (q = p → (cs p).Writable))
      (fun q => d.Active q ∧ (q = p → (cs p).Writable))
      (fun q => d.Eligible q ∧ (q = p → (cs p).Writable))) : Offered d cs m i d' cs' := by
  have hw : ∀ q, ((q = p → (cs p).Writable) ∧ (d₁.Remaining j q → (cs₁ q).Writable)) ↔
      (d.Remaining i q → (cs q).Writable) := by
    intro q
    rcases eq_or_ne q p with rfl | hne
    · simp [hrest, hp]
    · simp [hrest, hne, hothers q hne]
  refine ⟨fun q hq => ?_, fun q hq => ?_, ⟨h.groups.nested, h.groups.more.trans hg.more,
    fun q => (h.groups.mem q).trans (hg.mem q), fun q => ?_, fun q => ?_, fun q => ?_⟩⟩
  · have hne : q ≠ p := by
      rintro rfl
      exact hq hp
    rw [h.others q fun hq' => hq ((hrest q).mp hq').1, hothers q hne]
  · rcases eq_or_ne q p with rfl | hne
    · rw [h.others q fun hq' => ((hrest q).mp hq').2 rfl]
      exact hpassed
    · rw [← hothers q hne]
      exact h.each q ((hrest q).mpr ⟨hq, hne⟩)
  · rw [h.groups.matching, hg.matching, and_assoc, hw]
  · rw [h.groups.active, hg.active, and_assoc, hw]
  · rw [h.groups.eligible, hg.eligible, and_assoc, hw]

/-- The loop offers the part to each matching pipe from position `i` on. -/
theorem distributeLoop_spec (hmsg : m.Ordinary) (n i : Nat) (d : Dist) (cs : Channels)
    (h : d.Nested) (hn : i + n = d.matching) (halive : ∀ q, d.Matching q → ¬ (cs q).gone) :
    (∃ f, distributeLoop n i d cs m = .error (.pipe f)) ∧ (∃ q, d.Matching q ∧ ¬ (cs q).Healthy) ∨
      ∃ d' cs', distributeLoop n i d cs m = .ok (d', cs') ∧ Offered d cs m i d' cs' := by
  induction n generalizing i d cs with
  | zero =>
    have hnone : ∀ q, ¬ d.Remaining i q := by
      rintro q ⟨hq, hge⟩
      have := hq.2
      omega
    exact .inr ⟨d, cs, rfl, fun _ _ => rfl, fun q hq => absurd hq (hnone q),
      ⟨h, rfl, fun _ => .rfl, by simp [hnone], by simp [hnone], by simp [hnone]⟩⟩
  | succ n ih =>
    have hsize := h.matching
    have hsize' := h.active
    have hsize'' := h.eligible
    obtain ⟨p, hp, hi⟩ := exists_index_eq (a := d.pipes) (i := i) (by omega)
    have hget : inRange (d.pipes.get? i) = .ok p := by
      rw [get?_eq_some_iff.mpr ⟨hp, hi⟩]
      rfl
    have hmatch : d.Matching p := ⟨hp, by omega⟩
    have hrem : d.Remaining i p := ⟨hmatch, hi.ge⟩
    rw [distributeLoop, hget]
    rcases write_spec hmsg h hmatch (halive p hmatch) with
      ⟨f, hf, hsick⟩ | ⟨cs₁, hothers, hpassed, hcase⟩
    · exact .inl ⟨⟨f, by simp [hf]⟩, p, hmatch, hsick⟩
    have hsick₁ : ∀ q, ¬ (cs₁ q).Healthy → ¬ (cs q).Healthy := by
      intro q
      rcases eq_or_ne q p with rfl | hne
      · exact mt hpassed.kept.healthy
      · rw [hothers q hne]
        exact id
    have halive₁ : ∀ q, d.Matching q → ¬ (cs₁ q).gone := by
      intro q hq
      rcases eq_or_ne q p with rfl | hne
      · exact hpassed.gone
      · rw [hothers q hne]
        exact halive q hq
    rcases hcase with ⟨hyes, hwrite⟩ | ⟨hno, d₁, hretire, hwrite⟩ <;>
      simp [hwrite]
    · have hrest : ∀ q, d.Remaining (i + 1) q ↔ d.Remaining i q ∧ q ≠ p := by
        intro q
        simp only [Remaining, Matching, Below]
        grind
      rcases ih (i + 1) d cs₁ h (by omega) halive₁ with ⟨hf, q, hq, hsick⟩ | ⟨d', cs', hrun, ho⟩
      · exact .inl ⟨hf, q, hq, hsick₁ q hsick⟩
      · exact .inr ⟨d', cs', hrun, ho.cons hrem hrest hothers hpassed
          ⟨h, rfl, fun _ => .rfl, by simp [hyes], by simp [hyes], by simp [hyes]⟩⟩
    · obtain ⟨d₂, hretire', hfewer, hbelow, hg⟩ := retire_spec h hmatch
      cases hretire.symm.trans hretire'
      have hrest : ∀ q, d₁.Remaining i q ↔ d.Remaining i q ∧ q ≠ p := by
        intro q
        -- the pipes before `p` have kept their places
        have hpos := hbelow i q hi.ge
        have hmem := hg.mem q
        have hin : d.Matching q → q ∈ d.pipes := And.left
        simp only [Remaining, hg.matching, Below] at hpos ⊢
        grind
      have hpassive : ∀ q, (q = p → (cs p).Writable) ↔ q ≠ p := by simp [hno]
      rcases ih i d₁ cs₁ hg.nested (by omega) fun q hq => halive₁ q ((hg.matching q).mp hq).1 with
        ⟨hf, q, hq, hsick⟩ | ⟨d', cs', hrun, ho⟩
      · exact .inl ⟨hf, q, ((hg.matching q).mp hq).1, hsick₁ q hsick⟩
      · exact .inr ⟨d', cs', hrun, ho.cons hrem hrest hothers hpassed
          (by simpa [hpassive] using hg)⟩

/-- What `send_to_matching` does. -/
structure Distributes (d : Dist) (cs : Channels) (m : Msg) (d' : Dist) (cs' : Channels) : Prop where
  nested : d'.Nested
  more : d'.more = m.hasMore
  mem : ∀ q, q ∈ d'.pipes ↔ q ∈ d.pipes
  matching : ∀ q, d'.Matching q ↔ d.Matching q ∧ (cs q).Writable
  eligible : ∀ q, d'.Eligible q ↔ d.Eligible q ∧ (d.Matching q → (cs q).Writable)
  active : m.hasMore = true → ∀ q, d'.Active q ↔ d.Active q ∧ (d.Matching q → (cs q).Writable)
  others : ∀ q, ¬ d.Matching q → cs' q = cs q
  each : ∀ q, d.Matching q → (cs q).Passed (cs' q) m

theorem Distributes.kept (h : Distributes d cs m d' cs') (q : PipeId) : (cs q).Kept (cs' q) := by
  by_cases hq : d.Matching q
  · exact (h.each q hq).kept
  · rw [h.others q hq]
    exact .refl _

/-- **A part is offered to all matching pipes and to no other.** -/
theorem sendToMatching_spec (hmsg : m.Ordinary)
    (h : d.Nested) (halive : ∀ q, d.Matching q → ¬ (cs q).gone) :
    (∃ f, d.sendToMatching cs m = .error (.pipe f)) ∧ (∃ q, d.Matching q ∧ ¬ (cs q).Healthy) ∨
      ∃ d' cs', d.sendToMatching cs m = .ok (d', cs') ∧ Distributes d cs m d' cs' := by
  rw [sendToMatching, distribute]
  rcases distributeLoop_spec hmsg d.matching 0 d cs h (by omega) halive with
    ⟨⟨f, hf⟩, hsick⟩ | ⟨d₁, cs', hrun, ho⟩
  · exact .inl ⟨⟨f, by rw [hf]; rfl⟩, hsick⟩
  obtain ⟨hnested, -, hmem, hmatching, hactive, heligible⟩ := ho.groups
  have hall : ∀ q, d.Remaining 0 q ↔ d.Matching q := fun q => and_iff_left (Nat.zero_le _)
  simp only [hall] at hmatching hactive heligible
  refine .inr ⟨_, cs', by rw [hrun]; rfl, ?_, rfl, ?_, ?_, ?_, fun hmore q => ?_,
    fun q hq => ho.others q (mt (hall q).mp hq), fun q hq => ho.each q ((hall q).mpr hq)⟩
  · cases m.hasMore with
    | true => exact { hnested with between := nofun }
    | false =>
      exact ⟨Nat.le_trans hnested.matching hnested.active, le_rfl, hnested.eligible, fun _ => rfl⟩
  · intro q
    cases m.hasMore <;> exact hmem q
  · intro q
    have hw := (hmatching q).trans (and_congr_right imp_iff_right)
    cases m.hasMore <;> exact hw
  · intro q
    cases m.hasMore <;> exact heligible q
  · simp only [hmore]
    exact hactive q

end writing

/-! ## The distributor and its pipes -/

/-- The distributor knows which of its pipes can be written to. -/
structure Tracks (d : Dist) (cs : Channels) : Prop where
  nested : d.Nested
  alive : ∀ q ∈ d.pipes, ¬ (cs q).gone
  /-- A pipe that is not eligible will report when it becomes writable. -/
  agrees : ∀ q, (cs q).pipe.state = .active →
    ((cs q).pipe.outActive = true ↔ (q ∈ d.pipes → d.Eligible q))

namespace Tracks

variable {cs cs' : Channels}

section
variable (h : d.Tracks cs)
include h

/-- Only the groups of `p` and its end have changed. -/
theorem update (hn : d'.Nested) (hmem : ∀ q, q ≠ p → (q ∈ d'.pipes ↔ q ∈ d.pipes))
    (heligible : ∀ q, q ≠ p → (d'.Eligible q ↔ d.Eligible q)) (hothers : ∀ q, q ≠ p → cs' q = cs q)
    (halive : p ∈ d'.pipes → ¬ (cs' p).gone)
    (hself : (cs' p).pipe.state = .active →
      ((cs' p).pipe.outActive = true ↔ (p ∈ d'.pipes → d'.Eligible p))) : d'.Tracks cs' := by
  refine ⟨hn, fun q hq => ?_, fun q hst => ?_⟩
  · rcases eq_or_ne q p with rfl | hne
    · exact halive hq
    · rw [hothers q hne]
      exact h.alive q ((hmem q hne).mp hq)
  · rcases eq_or_ne q p with rfl | hne
    · exact hself hst
    · rw [hothers q hne] at hst ⊢
      rw [hmem q hne, heligible q hne]
      exact h.agrees q hst

theorem keeps (hothers : ∀ q, q ≠ p → cs' q = cs q) (hgone : (cs' p).gone → (cs p).gone)
    (hkeeps : KeepsOut (cs p).pipe (cs' p).pipe) : d.Tracks cs' := by
  refine h.update h.nested (fun _ _ => .rfl) (fun _ _ => .rfl) hothers
    (fun hp hg => h.alive p hp (hgone hg)) fun hst => ?_
  obtain ⟨hst', hout⟩ := hkeeps hst
  rw [hout]
  exact h.agrees p hst'

theorem groups {matching active : PipeId → Prop}
    (hg : d.Groups d' (· ∈ d.pipes) matching active d.Eligible) : d'.Tracks cs := by
  refine ⟨hg.nested, fun q hq => h.alive q ((hg.mem q).mp hq), fun q hst => ?_⟩
  rw [hg.mem, hg.eligible]
  exact h.agrees q hst

theorem distributes (hd : d.Distributes cs m d' cs') : d'.Tracks cs' := by
  refine ⟨hd.nested, fun q hq => ?_, fun q hst => ?_⟩
  · by_cases hmatch : d.Matching q
    · exact (hd.each q hmatch).gone
    · rw [hd.others q hmatch]
      exact h.alive q ((hd.mem q).mp hq)
  · rw [hd.mem, hd.eligible]
    by_cases hmatch : d.Matching q
    · rw [(hd.each q hmatch).offered.outActive hst]
      have helig := h.nested.eligible_of_active (h.nested.active_of_matching hmatch)
      simp [hmatch, helig, hmatch.1]
    · rw [hd.others q hmatch] at hst ⊢
      rw [h.agrees q hst]
      simp [hmatch]

theorem eligible_of_writable (hp : p ∈ d.pipes) (hw : (cs p).Writable) : d.Eligible p :=
  (h.agrees p hw.1).mp hw.2.1 hp

end
end Tracks
end Dist
end LibZmq
