import Mathlib.Data.Finset.Basic
import LibZmq.Core.ActiveArray
import LibZmq.Socket.Channel

/-!
# Load balancing

`lb_t` (`lb.cpp`) distributes messages among a set of outbound pipes. As in `fq_t` the
active pipes stand at the beginning of an array. All parts of a message go to the current
pipe. When this becomes impossible in the middle of a message, the parts written so far are
taken back and the rest of the message is dropped.

`Sends` says once what a call of `sendpipe` can do; the two results about runs are in
`LibZmq.Socket.LbAtomicity` and `LibZmq.Socket.LbActive`.
-/

namespace LibZmq

open LibZmq.Core PipePair ActiveArray Channels

/-- `lb_t`. The array, the number of active pipes and `_current` are in `pipes`. -/
structure Lb where
  pipes : ActiveArray PipeId
  /-- We are in the middle of a message. -/
  more : Bool
  /-- We are dropping the current message. -/
  dropping : Bool

/-- What `sendpipe` returns. -/
inductive SendStatus where
  /-- `0`, and the pipe that was used; none if the part was dropped. -/
  | done (pipe : Option PipeId)
  /-- `-1`: there is no pipe to write to. -/
  | again
  /-- `-2`: the pipe of the message cannot take the rest of it. -/
  | abandoned
deriving DecidableEq, Repr

namespace Lb

def new : Lb := { pipes := .empty, more := false, dropping := false }

def attach (b : Lb) (p : PipeId) : Except Failure Lb := do
  let pipes ← inRange (b.pipes.attach p)
  pure { b with pipes := pipes }

def pipeTerminated (b : Lb) (p : PipeId) : Except Failure Lb := do
  -- if the current pipe goes away, the remainder of its message has to be dropped
  let dropping := if b.pipes.items.index p = b.pipes.current ∧ b.more = true then true
    else b.dropping
  let pipes ← inRange (b.pipes.remove p)
  pure { b with pipes := pipes, dropping := dropping }

def activated (b : Lb) (p : PipeId) : Except Failure Lb := do
  let pipes ← inRange (b.pipes.activate p)
  pure { b with pipes := pipes }

/-- `_pipes[_current]`. -/
def currentPipe (b : Lb) : Except Failure PipeId :=
  inRange (b.pipes.items.get? b.pipes.current)

/-- The way `sendpipe` deactivates the current pipe. -/
def retire (b : Lb) : Except Failure Lb := do
  let l := { b.pipes with active := b.pipes.active - 1 }
  if l.current < l.active then
    let pipes ← inRange (l.swap l.current l.active)
    pure { b with pipes := pipes }
  else pure { b with pipes := { l with current := 0 } }

/-- The way `has_out` deactivates the current pipe. -/
def deactivate (b : Lb) : Except Failure Lb := do
  let pipes ← inRange (b.pipes.deactivate b.pipes.current)
  pure { b with pipes := pipes }

/-- The loop of `sendpipe`, which runs while there are active pipes. The status is `done`
when a pipe has taken the part. -/
def writeLoop : Nat → Lb → Channels → Msg → Except Failure (SendStatus × Lb × Channels)
  | 0, b, cs, _ => .ok (.again, b, cs)
  | n + 1, b, cs, m => do
      let p ← b.currentPipe
      match ← cs.write p m with
      | (true, cs) => .ok (.done (some p), b, cs)
      | (false, cs) =>
          if b.more then do
            let cs ← cs.rollback p
            .ok (.abandoned, { b with dropping := m.hasMore, more := false }, cs)
          else do
            let b ← b.retire
            writeLoop n b cs m

/-- The rest of `sendpipe`: after the last part the message is flushed, and it is the turn of
the next pipe. -/
def finish (m : Msg) : SendStatus × Lb × Channels → Except Failure (SendStatus × Lb × Channels)
  | (.done p, b, cs) =>
      if m.hasMore then .ok (.done p, { b with more := true }, cs)
      else do
        let q ← b.currentPipe
        let cs ← cs.flush q
        let next := b.pipes.current + 1
        let current := if next ≥ b.pipes.active then 0 else next
        .ok (.done p, { b with more := false, pipes := { b.pipes with current := current } }, cs)
  | r => .ok r

def sendpipe (b : Lb) (cs : Channels) (m : Msg) : Except Failure (SendStatus × Lb × Channels) :=
  if b.dropping then .ok (.done none, { b with more := m.hasMore, dropping := m.hasMore }, cs)
  else do
    let r ← writeLoop b.pipes.active b cs m
    finish m r

/-- The loop of `has_out`. -/
def hasOutLoop : Nat → Lb → Channels → Except Failure (Bool × Lb × Channels)
  | 0, b, cs => .ok (false, b, cs)
  | n + 1, b, cs => do
      let p ← b.currentPipe
      match cs.checkWrite p with
      | (true, cs) => .ok (true, b, cs)
      | (false, cs) => do
          let b ← b.deactivate
          hasOutLoop n b cs

def hasOut (b : Lb) (cs : Channels) : Except Failure (Bool × Lb × Channels) :=
  if b.more then .ok (true, b, cs) else hasOutLoop b.pipes.active b cs

def handle (b : Lb) (p : PipeId) : PipeEvent → Except Failure Lb
  | .writeActivated => b.activated p
  | .pipeTerminated => b.pipeTerminated p
  | .readActivated | .hiccuped | .statsPublish _ _ => .ok b

/-! ## The array and the pipes -/

/-- The pipes of the array are alive, and the counters are in range. -/
structure Ranged (l : ActiveArray PipeId) (cs : Channels) : Prop where
  placed : l.Placed
  alive : ∀ {p}, p ∈ l.items → ¬ (cs p).gone

variable {l l' : ActiveArray PipeId} {cs cs' : Channels} {sent : List (List Msg)} {begun : List Msg}
  {n : Nat}

theorem Ranged.update (h : Ranged l cs) (hplaced : l'.Placed)
    (hmem : ∀ q, q ≠ p → (q ∈ l'.items → q ∈ l.items)) (hothers : ∀ q, q ≠ p → cs' q = cs q)
    (halive : p ∈ l'.items → ¬ (cs' p).gone) : Ranged l' cs' := by
  refine ⟨hplaced, fun {q} hq => ?_⟩
  rcases eq_or_ne q p with rfl | hne
  · exact halive hq
  · rw [hothers q hne]
    exact h.alive (hmem q hne hq)

theorem Ranged.calls (h : Ranged l cs) (hplaced : l'.Placed)
    (hmem : ∀ {q}, q ∈ l'.items ↔ q ∈ l.items) (hc : cs.Calls cs' p sent begun n) : Ranged l' cs' :=
  h.update hplaced (fun _ _ hq => hmem.mp hq) hc.others (fun _ => hc.gone)

/-- Pipes that do not take a message become inactive, one after the other. -/
inductive Skips : ActiveArray PipeId → Channels → ActiveArray PipeId → Channels → Prop
  | refl (l : ActiveArray PipeId) (cs : Channels) : Skips l cs l cs
  | skip {l l₁ l' : ActiveArray PipeId} {cs cs₁ cs' : Channels} {p : PipeId} :
      l.IsCurrent p → cs.Offers cs₁ p false → ActiveArray.Leaves l l₁ p → Skips l₁ cs₁ l' cs' →
      Skips l cs l' cs'

theorem Skips.ranged (h : Skips l cs l' cs') (hr : Ranged l cs) : Ranged l' cs' := by
  induction h with
  | refl => exact hr
  | skip _ ho hl _ ih => exact ih (hr.calls hl.placed hl.mem ho.toCalls)

theorem Skips.kept (h : Skips l cs l' cs') (q : PipeId) : (cs q).Kept (cs' q) := by
  induction h with
  | refl => exact .refl _
  | skip _ ho _ _ ih => exact (ho.all_kept q).trans ih

/-- A call has ended with a failure of a pipe, which was not in order before. -/
def PipeFails {β : Type} (cs : Channels) (r : Except Failure β) : Prop :=
  (∃ f, r = .error (.pipe f)) ∧ ¬ ∀ p, (cs p).Healthy

/-- What a call of `sendpipe` can do. -/
inductive Sends (b : Lb) (cs : Channels) (m : Msg) : SendStatus → Lb → Channels → Prop
  | drop : b.dropping = true →
      Sends b cs m (.done none) { b with more := m.hasMore, dropping := m.hasMore } cs
  | again {l : ActiveArray PipeId} {cs' : Channels} : b.dropping = false → b.more = false →
      Skips b.pipes cs l cs' → Sends b cs m .again { b with pipes := l } cs'
  | abandon {cs₁ cs' : Channels} {p : PipeId} : b.dropping = false → b.more = true →
      b.pipes.IsCurrent p → cs.Offers cs₁ p false → (cs' p).pipe = (cs₁ p).pipe →
      cs₁.Calls cs' p (cs₁ p).sent [] (cs₁ p).flushes →
      Sends b cs m .abandoned { b with dropping := m.hasMore, more := false } cs'
  | part {l : ActiveArray PipeId} {cs₁ cs' : Channels} {p : PipeId} : b.dropping = false →
      (b.more = true → l = b.pipes ∧ cs₁ = cs) → Skips b.pipes cs l cs₁ → l.IsCurrent p →
      cs₁.Writes cs' p m → m.hasMore = true →
      Sends b cs m (.done (some p)) { b with pipes := l, more := true } cs'
  | last {l : ActiveArray PipeId} {cs₁ cs₂ cs' : Channels} {p : PipeId} {k : Nat} :
      b.dropping = false → (b.more = true → l = b.pipes ∧ cs₁ = cs) → Skips b.pipes cs l cs₁ →
      l.IsCurrent p → cs₁.Writes cs₂ p m → m.hasMore = false → (cs' p).pipe = (cs₂ p).pipe →
      cs₂.Calls cs' p (cs₂ p).sent (cs₂ p).begun ((cs₂ p).flushes + 1) →
      ActiveArray.Placed { l with current := k } →
      Sends b cs m (.done (some p)) { b with pipes := { l with current := k }, more := false } cs'

section sending
variable {b : Lb} {cs : Channels} {p : PipeId} {m : Msg}

theorem currentPipe_eq (h : b.pipes.IsCurrent p) : b.currentPipe = .ok p := by
  rw [currentPipe, h.get?]
  rfl

theorem deactivate_eq (h : b.pipes.Placed) (hp : b.pipes.IsCurrent p) :
    ∃ l, b.deactivate = .ok { b with pipes := l } ∧ Leaves b.pipes l p := by
  obtain ⟨l, hl, hleaves⟩ := deactivate_spec h hp.1
  refine ⟨l, ?_, hleaves⟩
  rw [deactivate, ← hp.2, hl]
  rfl

/-- The two ways to deactivate the current pipe differ only in that `sendpipe` does not
exchange a pipe with itself. -/
theorem retire_eq (h : b.pipes.Placed) (hp : b.pipes.IsCurrent p) :
    ∃ l, b.retire = .ok { b with pipes := l } ∧ Leaves b.pipes l p := by
  have hlt := hp.1.2
  rw [hp.2] at hlt
  unfold retire
  by_cases hlast : b.pipes.current < b.pipes.active - 1
  · obtain ⟨l, hl, hleaves⟩ := deactivate_spec h hp.1
    rw [hp.2] at hl
    obtain ⟨g, hg, rfl⟩ := Option.map_eq_some_iff.mp hl
    refine ⟨_, ?_, hleaves⟩
    simp only [if_pos hlast, hg]
    obtain ⟨-, -, rfl⟩ := Option.map_eq_some_iff.mp hg
    simp only [if_neg (Nat.ne_of_lt hlast)]
    rfl
  · refine ⟨{ b.pipes with active := b.pipes.active - 1, current := 0 }, ?_,
      hp.leaves_last h (by omega)⟩
    simp only [if_neg hlast]
    rfl

section part
variable (hmsg : m.Ordinary)
include hmsg

/-- Between two messages the first pipe that takes the part is used. -/
theorem writeLoop_of_not_more (h : Ranged b.pipes cs) (hmore : b.more = false) :
    PipeFails cs (writeLoop b.pipes.active b cs m) ∨ ∃ l cs₁, Skips b.pipes cs l cs₁ ∧
      (writeLoop b.pipes.active b cs m = .ok (.again, { b with pipes := l }, cs₁) ∨
        ∃ p cs', writeLoop b.pipes.active b cs m =
            .ok (.done (some p), { b with pipes := l }, cs') ∧
          l.IsCurrent p ∧ cs₁.Writes cs' p m) := by
  induction hn : b.pipes.active generalizing b cs with
  | zero => exact .inr ⟨b.pipes, cs, .refl .., .inl rfl⟩
  | succ n ih =>
    obtain ⟨p, hp⟩ := h.placed.exists_current (by omega)
    rw [writeLoop, currentPipe_eq hp]
    rcases write_spec (h.alive hp.1.1) hmsg with
      ⟨f, hwrite, hsick⟩ | ⟨taken, cs₁, hwrite, hcase⟩ <;>
      simp only [ok_bind, hwrite]
    · exact .inl ⟨⟨f, rfl⟩, fun hh => hsick (hh p)⟩
    rcases hcase with ⟨rfl, hw⟩ | ⟨rfl, ho⟩
    · exact .inr ⟨b.pipes, cs, .refl .., .inr ⟨p, cs₁, rfl, hp, hw⟩⟩
    obtain ⟨l, hl, hleaves⟩ := retire_eq h.placed hp
    have hfewer := hleaves.fewer
    have hbetween : ¬ b.more = true := by simp [hmore]
    simp only [if_neg hbetween, hl]
    rcases ih (b := { b with pipes := l })
      (h.calls hleaves.placed hleaves.mem ho.toCalls) hmore (by simp only; omega) with
      ⟨hfail, hsick⟩ | ⟨l', cs', hskips, hcase⟩
    · exact .inl ⟨hfail, fun hh => hsick fun q => (ho.all_kept q).healthy (hh q)⟩
    · exact .inr ⟨l', cs', .skip hp ho hleaves hskips, hcase⟩

/-- In the middle of a message only the current pipe is used. -/
theorem writeLoop_of_more (h : Ranged b.pipes cs) (hmore : b.more = true)
    (hp : b.pipes.IsCurrent p) :
    PipeFails cs (writeLoop b.pipes.active b cs m) ∨
    (∃ cs₁ cs', writeLoop b.pipes.active b cs m =
        .ok (.abandoned, { b with dropping := m.hasMore, more := false }, cs') ∧
      cs.Offers cs₁ p false ∧ (cs' p).pipe = (cs₁ p).pipe ∧
      cs₁.Calls cs' p (cs₁ p).sent [] (cs₁ p).flushes) ∨
    ∃ cs', writeLoop b.pipes.active b cs m = .ok (.done (some p), b, cs') ∧ cs.Writes cs' p m := by
  obtain ⟨n, hn⟩ := Nat.exists_eq_succ_of_ne_zero (Nat.ne_zero_of_lt hp.1.2)
  rw [hn, writeLoop, currentPipe_eq hp]
  rcases write_spec (h.alive hp.1.1) hmsg with
    ⟨f, hwrite, hsick⟩ | ⟨taken, cs₁, hwrite, hcase⟩ <;>
    simp only [ok_bind, hwrite]
  · exact .inl ⟨⟨f, rfl⟩, fun hh => hsick (hh p)⟩
  rcases hcase with ⟨rfl, hw⟩ | ⟨rfl, ho⟩
  · exact .inr (.inr ⟨cs₁, rfl, hw⟩)
  simp only [if_pos hmore]
  rcases rollback_spec ho.gone with ⟨f, hroll, hsick⟩ | ⟨cs', hroll, hpipe, hcalls⟩ <;>
    simp only [hroll]
  · exact .inl ⟨⟨f, rfl⟩, fun hh => hsick (ho.healthy (hh p))⟩
  · exact .inr (.inl ⟨cs₁, cs', rfl, ho, hpipe, hcalls⟩)

omit hmsg in
/-- A part has been written to the current pipe. -/
theorem finish_spec (hdrop : b.dropping = false)
    (hsame : b.more = true → l = b.pipes ∧ cs₁ = cs) (hs : Skips b.pipes cs l cs₁)
    (hplaced : l.Placed) (hp : l.IsCurrent p) (hw : cs₁.Writes cs₂ p m) :
    PipeFails cs (finish m (.done (some p), { b with pipes := l }, cs₂)) ∨
    ∃ st b' cs', finish m (.done (some p), { b with pipes := l }, cs₂) = .ok (st, b', cs') ∧
      Sends b cs m st b' cs' := by
  unfold finish
  cases hm : m.hasMore with
  | true => exact .inr ⟨_, _, cs₂, rfl, .part hdrop hsame hs hp hw hm⟩
  | false =>
    have hcur : currentPipe { b with pipes := l } = .ok p := currentPipe_eq hp
    simp only [Bool.false_eq_true, if_false, hcur, ok_bind]
    rcases flush_spec hw.gone with ⟨f, hflush, hsick⟩ | ⟨cs', hflush, hpipe, hcalls⟩ <;>
      simp only [hflush]
    · exact .inl ⟨⟨f, rfl⟩, fun hh => hsick (hw.healthy ((hs.kept p).healthy (hh p)))⟩
    · refine .inr ⟨_, _, cs', rfl,
        .last hdrop hsame hs hp hw hm hpipe hcalls ⟨hplaced.active, .inl ?_⟩⟩
      have hlt := hp.1.2
      simp only
      split <;> omega

theorem sendpipe_spec (h : Ranged b.pipes cs)
    (hcur : b.dropping = false → b.more = true → ∃ p, b.pipes.IsCurrent p) :
    PipeFails cs (b.sendpipe cs m) ∨
      ∃ st b' cs', b.sendpipe cs m = .ok (st, b', cs') ∧ Sends b cs m st b' cs' := by
  unfold sendpipe
  cases hdrop : b.dropping with
  | true => exact .inr ⟨_, _, _, rfl, .drop hdrop⟩
  | false =>
    cases hmore : b.more with
    | false =>
      rcases writeLoop_of_not_more hmsg h hmore with
        ⟨⟨f, heq⟩, hsick⟩ | ⟨l, cs₁, hskips, heq | ⟨p, cs₂, heq, hp, hw⟩⟩ <;>
        simp only [heq]
      · exact .inl ⟨⟨f, rfl⟩, hsick⟩
      · exact .inr ⟨_, _, _, rfl, .again hdrop hmore hskips⟩
      · exact finish_spec hdrop (by simp [hmore]) hskips (hskips.ranged h).placed hp hw
    | true =>
      obtain ⟨p, hp⟩ := hcur hdrop hmore
      rcases writeLoop_of_more hmsg h hmore hp with
        ⟨⟨f, heq⟩, hsick⟩ | ⟨cs₁, cs', heq, ho, hpipe, hcalls⟩ | ⟨cs₁, heq, hw⟩ <;>
        simp only [heq]
      · exact .inl ⟨⟨f, rfl⟩, hsick⟩
      · exact .inr ⟨_, _, _, rfl, .abandon hdrop hmore hp ho hpipe hcalls⟩
      · exact finish_spec hdrop (fun _ => ⟨rfl, rfl⟩) (.refl ..) h.placed hp hw

end part

/-- `has_out` does not write anything. -/
theorem hasOutLoop_spec (h : Ranged b.pipes cs) :
    ∃ r l cs₁ cs', hasOutLoop b.pipes.active b cs = .ok (r, { b with pipes := l }, cs') ∧
      Skips b.pipes cs l cs₁ ∧ (cs' = cs₁ ∨ ∃ p, l.IsCurrent p ∧ cs₁.Offers cs' p true) := by
  induction hn : b.pipes.active generalizing b cs with
  | zero => exact ⟨false, b.pipes, cs, cs, rfl, .refl .., .inl rfl⟩
  | succ n ih =>
    obtain ⟨p, hp⟩ := h.placed.exists_current (by omega)
    have ho := checkWrite_offers (h.alive hp.1.1)
    rw [hasOutLoop, currentPipe_eq hp]
    simp only [ok_bind]
    generalize cs.checkWrite p = c at ho
    obtain ⟨taken, cs₁⟩ := c
    cases taken with
    | true => exact ⟨true, b.pipes, cs, cs₁, rfl, .refl .., .inr ⟨p, hp, ho⟩⟩
    | false =>
      obtain ⟨l, hl, hleaves⟩ := deactivate_eq h.placed hp
      have hfewer := hleaves.fewer
      obtain ⟨r, l', cs₂, cs', heq, hskips, hlast⟩ := ih (b := { b with pipes := l })
        (h.calls hleaves.placed hleaves.mem ho.toCalls) (by simp only; omega)
      simp only [hl]
      exact ⟨r, l', cs₂, cs', heq, .skip hp ho hleaves hskips, hlast⟩

variable {cs' : Channels} {b' : Lb} {cs : Channels} {m : Msg} {b : Lb} {p : PipeId}

/-- The array has the same pipes after a call. -/
theorem Skips.mem (h : Skips l cs l' cs') (q : PipeId) : q ∈ l'.items ↔ q ∈ l.items := by
  induction h with
  | refl => exact .rfl
  | skip _ _ hl _ ih => exact ih.trans hl.mem

theorem Sends.mem
    (h : Sends b cs m st b' cs') (q : PipeId) : q ∈ b'.pipes.items ↔ q ∈ b.pipes.items := by
  cases h with
  | drop | abandon => exact .rfl
  | again _ _ hskips | part _ _ hskips | last _ _ hskips => exact hskips.mem q

theorem Sends.kept (h : Sends b cs m st b' cs') (q : PipeId) : (cs q).Kept (cs' q) := by
  cases h with
  | drop => exact .refl _
  | again _ _ hskips => exact hskips.kept q
  | abandon _ _ _ ho _ hcalls => exact (ho.all_kept q).trans (hcalls.all_kept q)
  | part _ _ hskips _ hw => exact (hskips.kept q).trans (hw.all_kept q)
  | last _ _ hskips _ hw _ _ hcalls =>
    exact (hskips.kept q).trans ((hw.all_kept q).trans (hcalls.all_kept q))

end sending

/-! ## Events -/

/-- What a step of pipe `p` can do to the load balancer. -/
inductive Hears (b : Lb) (cs : Channels) (p : PipeId) (a : PipePair.Action) :
    Lb → Channels → Prop
  | nothing {cs' : Channels} : ((cs' p).gone ↔ (cs p).gone) →
      KeepsOut (cs p).pipe (cs' p).pipe → Hears b cs p a b cs'
  /-- A full pipe has room again. -/
  | activated {cs' : Channels} {l : ActiveArray PipeId} : p ∈ b.pipes.items →
      (cs p).pipe.outActive = false → (cs p).pipe.state = .active →
      (cs' p).pipe.outActive = true → ¬ (cs' p).gone → b.pipes.activate p = some l →
      Hears b cs p a { b with pipes := l } cs'
  | terminated {cs' : Channels} {l : ActiveArray PipeId} : p ∈ b.pipes.items →
      a = .deliver .first → ((cs p).pair.mail .first).head? = some .pipeTermAck →
      (cs' p).gone → (cs' p).pipe.state ≠ .active → ActiveArray.Forgets b.pipes l p →
      Hears b cs p a { b with
        pipes := l
        dropping := if b.pipes.items.index p = b.pipes.current ∧ b.more = true then true
          else b.dropping } cs'

section events
variable {b : Lb} {cs cs' : Channels} {p : PipeId} {a : Action}

theorem attach_eq (h : b.pipes.Placed) (hp : p ∉ b.pipes.items) :
    ∃ l, b.attach p = .ok { b with pipes := l } ∧ Joins b.pipes l p := by
  obtain ⟨l, hl, hjoins⟩ := attach_spec h hp
  exact ⟨l, by rw [attach, hl]; rfl, hjoins⟩

theorem pipeTerminated_eq (h : b.pipes.Placed) (hp : p ∈ b.pipes.items) :
    ∃ l, Forgets b.pipes l p ∧ b.pipeTerminated p = .ok { b with
      pipes := l
      dropping := if b.pipes.items.index p = b.pipes.current ∧ b.more = true then true
        else b.dropping } := by
  obtain ⟨l, hl, hforgets⟩ := remove_spec h hp
  exact ⟨l, hforgets, by rw [pipeTerminated, hl]; rfl⟩

theorem handle_mem (h : b.pipes.Placed) (hp : p ∈ b.pipes.items) (hb : b.handle p e = .ok b')
    (q : PipeId) : q ∈ b'.pipes.items ↔ q ∈ b.pipes.items ∧ (e = .pipeTerminated → q ≠ p) := by
  cases e with
  | writeActivated =>
    obtain ⟨l, hl, ⟨⟩⟩ := bind_ok hb
    have hmem := (placed_of_activate h hp (inRange_ok hl)).2.1 (q := q)
    rw [hmem, and_iff_left nofun]
  | pipeTerminated =>
    obtain ⟨l, hforgets, hl⟩ := pipeTerminated_eq h hp
    rw [handle, hl] at hb
    cases hb
    rw [hforgets.mem, forall_prop_of_true rfl]
  | readActivated | hiccuped | statsPublish =>
    cases hb
    rw [and_iff_left nofun]

/-- The events of a step are handled, unless `activated` finds no place for the pipe. -/
theorem hears (h : Ranged b.pipes cs) (hc : Called cs cs' p (a, r))
    (hfirst : a.side = .first → p ∈ b.pipes.items ∧ a.writes = false)
    (hhic : a = .deliver .first → (cs p).pair.hiccupNext .first = false)
    (hev : ev = if a.side = .first then (cs p).pair.news .first a else []) :
    (∃ b', ev.foldlM (fun b e => b.handle p e) b = .ok b' ∧ Hears b cs p a b' cs') ∨
      (ev = [.writeActivated] ∧ p ∈ b.pipes.items ∧ (cs p).pipe.outActive = false ∧
        (cs p).pipe.state = .active ∧ b.pipes.activate p = none) := by
  obtain ⟨htold, hside⟩ := Called.told (fun hside => (hfirst hside).2) hhic hc hev
  cases htold with
  | quiet hquiet hgone hkeeps =>
    refine .inl ⟨b, ?_, .nothing hgone hkeeps⟩
    rcases hquiet with rfl | ⟨e, rfl, hwrite, hterm⟩
    · rfl
    cases e with
    | writeActivated => exact absurd rfl hwrite
    | pipeTerminated => exact absurd rfl hterm
    | _ => rfl
  | writable hout hst hout' hgone =>
    obtain ⟨hp, -⟩ := hfirst (hside nofun)
    simp only [foldlM_singleton, handle, activated]
    cases hact : b.pipes.activate p with
    | none => exact .inr ⟨trivial, hp, hout, hst, rfl⟩
    | some => exact .inl ⟨_, rfl, .activated hp hout hst hout' (mt hgone.mp (h.alive hp)) hact⟩
  | terminated hhead hgone hst =>
    have hfirst' := hside nofun
    obtain ⟨hp, -⟩ := hfirst hfirst'
    rw [if_pos hfirst'] at hev
    obtain ⟨y, rfl, -⟩ := news_eq_pipeTerminated hev.symm
    obtain rfl : y = .first := hfirst'
    obtain ⟨l, hf, heq⟩ := pipeTerminated_eq h.placed hp
    exact .inl ⟨_, by rw [List.foldlM_cons, handle, heq]; rfl,
      .terminated hp rfl hhead hgone hst hf⟩

end events
end Lb

/-! ## Runs -/

/-- A load balancer, its pipes and the messages that were passed to it. -/
structure LbNet where
  lb : Lb
  channels : Channels
  /-- The messages that were passed to `sendpipe`, oldest first. -/
  messages : List (List Msg)
  /-- The parts of the next one. -/
  opened : List Msg

namespace LbNet

inductive Act where
  | attach (p : PipeId)
  | pipe (p : PipeId) (a : PipePair.Action)
  | sendpipe (m : Msg)
  | hasOut
deriving DecidableEq, Repr

def initial (hwm₀ hwm₁ : PipeId → Int) : LbNet :=
  { lb := .new, channels := fun p => .start (hwm₀ p) (hwm₁ p), messages := [], opened := [] }

/-- A part was passed on. With `-1` it was not, and will have to be sent again; with `-2`
it is dropped like the rest of its message. -/
def pass (n : LbNet) (m : Msg) : SendStatus → LbNet
  | .again => n
  | .done _ | .abandoned =>
      if m.hasMore then { n with opened := n.opened ++ [m] }
      else { n with opened := [], messages := n.messages ++ [n.opened ++ [m]] }

def next (n : LbNet) : Act → Except Failure LbNet
  | .attach p => do
      let b ← n.lb.attach p
      .ok { n with lb := b }
  | .pipe p a => do
      let (ev, cs) ← n.channels.act p a
      let b ← ev.foldlM (fun b e => b.handle p e) n.lb
      .ok { n with lb := b, channels := cs }
  | .sendpipe m => do
      let (st, b, cs) ← n.lb.sendpipe n.channels m
      .ok { n.pass m st with lb := b, channels := cs }
  | .hasOut => do
      let (_, b, cs) ← n.lb.hasOut n.channels
      .ok { n with lb := b, channels := cs }

/-- A pipe is attached once, and lives until the load balancer is told that it is terminated.
Only the load balancer writes to its end. Nobody replaces its queue. -/
def Enabled (n : LbNet) : Act → Prop
  | .attach p => p ∉ n.lb.pipes.items ∧ ¬ (n.channels p).gone
  | .pipe p a => (n.channels p).pair.Enabled a ∧
      (a.side = .first → p ∈ n.lb.pipes.items ∧ a.writes = false) ∧ a ≠ .hiccup .second ∧
      (a = .deliver .first → (n.channels p).pair.hiccupNext .first = false)
  | .sendpipe m => m.isDelimiter = false ∧ m.isCredential = false
  | .hasOut => True

def Step (n : LbNet) (a : Act) (n' : LbNet) : Prop := n.Enabled a ∧ n.next a = .ok n'

instance (n : LbNet) (a : Act) : Decidable (n.Enabled a) := by
  rcases a <;> dsimp only [Enabled] <;> infer_instance

/-- What a step can do. -/
inductive Moves (n : LbNet) : Act → LbNet → Prop
  | attach {p : PipeId} {l : ActiveArray PipeId} : p ∉ n.lb.pipes.items →
      ¬ (n.channels p).gone → ActiveArray.Joins n.lb.pipes l p →
      Moves n (.attach p) { n with lb := { n.lb with pipes := l } }
  | pipe {p : PipeId} {a : PipePair.Action} {r : Reply} {b : Lb} {cs : Channels} :
      n.Enabled (.pipe p a) → n.channels.Called cs p (a, r) → n.lb.Hears n.channels p a b cs →
      Moves n (.pipe p a) { n with lb := b, channels := cs }
  | sendpipe {m : Msg} {st : SendStatus} {b : Lb} {cs : Channels} :
      n.Enabled (.sendpipe m) → n.lb.Sends n.channels m st b cs →
      Moves n (.sendpipe m) { n.pass m st with lb := b, channels := cs }
  | midway : n.lb.more = true → Moves n .hasOut n
  | hasOut {l : ActiveArray PipeId} {cs₁ cs : Channels} : n.lb.more = false →
      Lb.Skips n.lb.pipes n.channels l cs₁ →
      (cs = cs₁ ∨ ∃ p, l.IsCurrent p ∧ cs₁.Offers cs p true) →
      Moves n .hasOut { n with lb := { n.lb with pipes := l }, channels := cs }

section moves
variable {n n' : LbNet} {a : Act} (h : Lb.Ranged n.lb.pipes n.channels)
include h

theorem sendpipe_moves (hen : n.Enabled (.sendpipe m))
    (hcur : n.lb.dropping = false → n.lb.more = true → ∃ p, n.lb.pipes.IsCurrent p) :
    Lb.PipeFails n.channels (n.next (.sendpipe m)) ∨
      ∃ n', n.next (.sendpipe m) = .ok n' ∧ n.Moves (.sendpipe m) n' := by
  rcases Lb.sendpipe_spec hen h hcur with ⟨⟨f, heq⟩, hsick⟩ | ⟨st, b, cs, heq, hs⟩ <;>
    simp only [next, heq]
  · exact .inl ⟨⟨f, rfl⟩, hsick⟩
  · exact .inr ⟨_, rfl, .sendpipe hen hs⟩

theorem hasOut_moves : ∃ n', n.next .hasOut = .ok n' ∧ n.Moves .hasOut n' := by
  cases hmore : n.lb.more with
  | true => exact ⟨n, by simp [next, Lb.hasOut, hmore], .midway hmore⟩
  | false =>
    obtain ⟨r, l, cs₁, cs, heq, hs, hlast⟩ := Lb.hasOutLoop_spec h
    refine ⟨_, ?_, .hasOut hmore hs hlast⟩
    simp [next, Lb.hasOut, hmore, heq]

variable {p : PipeId}

theorem attach_moves (hen : n.Enabled (.attach p)) :
    ∃ n', n.next (.attach p) = .ok n' ∧ n.Moves (.attach p) n' := by
  obtain ⟨l, hl, hj⟩ := Lb.attach_eq h.placed hen.1
  exact ⟨_, by simp [next, hl], .attach hen.1 hen.2 hj⟩

/-- A step of a pipe is carried out, unless the pair fails or `activated` is called for a
pipe that is active already. -/
theorem pipe_moves {a : Action} (hen : n.Enabled (.pipe p a)) :
    (∃ f, n.next (.pipe p a) = .error (.pipe f)) ∨
      (∃ n', n.next (.pipe p a) = .ok n' ∧ n.Moves (.pipe p a) n') ∨
      n.lb.pipes.IsActive p ∧ (n.channels p).pipe.outActive = false ∧
        (n.channels p).pipe.state = .active ∧ n.next (.pipe p a) = .error .outOfRange := by
  have ⟨hpair, hfirst, hhic, hnext⟩ := hen
  rcases act_spec n.channels p a with ⟨f, hact⟩ | ⟨ev, cs, hact⟩
  · exact .inl ⟨f, by simp [next, hact, bind, Except.bind]⟩
  obtain ⟨r, hc, hev⟩ := act_called hpair hact
  rcases Lb.hears h hc hfirst hnext hev with ⟨b, hb, hhears⟩ | ⟨rfl, hp, hout, hst, hnone⟩
  · exact .inr (.inl ⟨_, by simp [next, hact, hb], .pipe hen hc hhears⟩)
  refine .inr (.inr ⟨by_contra fun hpassive => ?_, hout, hst, ?_⟩)
  · obtain ⟨l, hl, -⟩ := activate_spec h.placed hp hpassive
    rw [hnone] at hl
    cases hl
  · simp [next, hact, Lb.handle, Lb.activated, hnone, inRange]

theorem moves_of_next (hen : n.Enabled a)
    (hcur : n.lb.dropping = false → n.lb.more = true → ∃ p, n.lb.pipes.IsCurrent p)
    (hnext : n.next a = .ok n') : n.Moves a n' := by
  have hdet : (∃ n', n.next a = .ok n' ∧ n.Moves a n') → n.Moves a n' := by
    rintro ⟨n₁, hn₁, hm⟩
    rw [hnext] at hn₁
    cases hn₁
    exact hm
  cases a with
  | attach => exact hdet (attach_moves h hen)
  | sendpipe =>
    rcases sendpipe_moves h hen hcur with ⟨⟨f, herr⟩, -⟩ | hok
    · rw [hnext] at herr
      cases herr
    · exact hdet hok
  | hasOut => exact hdet (hasOut_moves h)
  | pipe =>
    rcases pipe_moves h hen with ⟨f, herr⟩ | hok | ⟨-, -, -, herr⟩
    · rw [hnext] at herr
      cases herr
    · exact hdet hok
    · rw [hnext] at herr
      cases herr

omit h in
theorem Moves.ranged (hm : n.Moves a n') (h : Lb.Ranged n.lb.pipes n.channels) :
    Lb.Ranged n'.lb.pipes n'.channels := by
  cases hm with
  | @attach p l hp hg hj =>
    refine h.update (p := p) hj.placed (fun q hq hmem => ?_) (fun _ _ => rfl) (fun _ => hg)
    exact (hj.mem.mp hmem).resolve_right hq
  | @pipe p _ _ _ _ hen hc hears =>
    have hothers : ∀ q, q ≠ p → _ = n.channels q := fun q hq => hc.channel_of_ne hq
    cases hears with
    | nothing hg =>
      exact h.update h.placed (fun _ _ => id) hothers (fun hp e => h.alive hp (hg.mp e))
    | activated hp _ _ _ hg hl =>
      obtain ⟨hplaced, hmem, -⟩ := placed_of_activate h.placed hp hl
      exact h.update hplaced (fun _ _ hq => hmem.mp hq) hothers (fun _ => hg)
    | terminated _ _ _ _ _ hf =>
      exact h.update hf.placed (fun _ _ hq => (hf.mem.mp hq).1) hothers
        (fun hq => absurd rfl (hf.mem.mp hq).2)
  | sendpipe _ hs =>
    cases hs with
    | drop => exact h
    | again _ _ hskips => exact hskips.ranged h
    | abandon _ _ _ ho _ hcalls =>
      exact (h.calls h.placed .rfl ho.toCalls).calls h.placed .rfl hcalls
    | part _ _ hskips _ hw =>
      have h₁ := hskips.ranged h
      exact h₁.calls h₁.placed .rfl hw.toCalls
    | last _ _ hskips _ hw _ _ hcalls hplaced =>
      have h₁ := hskips.ranged h
      exact (h₁.calls h₁.placed .rfl hw.toCalls).calls hplaced .rfl hcalls
  | midway => exact h
  | hasOut _ hskips hlast =>
    have h₁ := hskips.ranged h
    rcases hlast with rfl | ⟨p, -, ho⟩
    · exact h₁
    · exact h₁.calls h₁.placed .rfl ho.toCalls

omit h in
/-- Only `sendpipe` begins and ends messages. -/
theorem Moves.phase (hm : n.Moves a n') (hne : ∀ m, a ≠ .sendpipe m) :
    n'.lb.more = n.lb.more ∧ (n.lb.more = false → n'.lb.dropping = n.lb.dropping) ∧
      (n'.lb.dropping = false → n.lb.dropping = false) := by
  cases hm with
  | attach | midway | hasOut => exact ⟨rfl, fun _ => rfl, id⟩
  | pipe _ _ hears =>
    cases hears with
    | nothing | activated => exact ⟨rfl, fun _ => rfl, id⟩
    | terminated =>
      refine ⟨rfl, fun hmore => if_neg fun hyes => ?_, fun hdrop => ?_⟩
      · rw [hmore] at hyes
        cases hyes.2
      · simp only at hdrop
        split at hdrop
        · cases hdrop
        · exact hdrop
  | @sendpipe m => exact absurd rfl (hne m)

/-- In the middle of a message that is not dropped there is a current pipe. -/
theorem Moves.exists_current (hm : n.Moves a n')
    (hcur : n.lb.dropping = false → n.lb.more = true → ∃ p, n.lb.pipes.IsCurrent p) :
    n'.lb.dropping = false → n'.lb.more = true → ∃ p, n'.lb.pipes.IsCurrent p := by
  have hplaced := (hm.ranged h).placed
  intro hdrop hmore
  cases hm with
  | attach _ _ hj =>
    obtain ⟨q, hq⟩ := hcur hdrop hmore
    exact ⟨q, hj.current hq⟩
  | @pipe p _ _ _ _ hen hc hears =>
    cases hears with
    | nothing => exact hcur hdrop hmore
    | activated hp _ _ _ _ hl =>
      obtain ⟨l, -, rfl⟩ := Option.map_eq_some_iff.mp hl
      exact hplaced.exists_current (Nat.succ_pos _)
    | terminated hp _ _ _ _ hf =>
      -- a pipe other than the current one goes away
      split at hdrop
      · cases hdrop
      rename_i hother
      obtain ⟨q, hq⟩ := hcur hdrop hmore
      have hne : q ≠ p := fun e => hother ⟨e ▸ hq.2, hmore⟩
      exact hplaced.exists_current (Nat.zero_lt_of_lt (hf.active.mpr ⟨hq.1, hne⟩).2)
  | sendpipe _ hs =>
    cases hs with
    | drop => exact absurd (hdrop.symm.trans hmore) (by simp)
    | again _ hno => exact absurd (hno.symm.trans hmore) (by simp)
    | abandon | last => cases hmore
    | part _ _ _ hp => exact ⟨_, hp⟩
  | midway => exact hcur hdrop hmore
  | hasOut hno => exact absurd (hno.symm.trans hmore) (by simp)

end moves

/-! ## Concrete runs -/

end LbNet
end LibZmq
