import Mathlib.Data.Finset.Basic
import LibZmq.Socket.Channel

/-!
# What all sockets have in common

`socket_base_t` (`socket_base.cpp`) owns the pipes and passes calls and events on to the
functions that a socket type overrides. This module has the result of `xsend`, and what may
happen to the pipes of a socket between two calls of its user.
-/

namespace LibZmq

open LibZmq.Core PipePair

/-- The call does not fail with an assertion, and what it returns has the property `Q`. -/
def Ensures {β : Type} (e : Except Failure β) (Q : β → Prop) : Prop :=
  match e with
  | .error f => f ≠ .assertion
  | .ok b => Q b

section ensures
variable {β γ : Type} {Q Q' : β → Prop}

theorem Ensures.ok (h : Q b) : Ensures (.ok b) Q := h

theorem Ensures.mono (h : Ensures e Q) (himp : ∀ b, Q b → Q' b) : Ensures e Q' := by
  cases e with
  | error => exact h
  | ok b => exact himp b h

theorem Ensures.bind {g : β → Except Failure γ} {R : γ → Prop} (h : Ensures e Q)
    (hg : ∀ b, Q b → Ensures (g b) R) : Ensures (e >>= g) R := by
  cases e with
  | error => exact h
  | ok b => exact hg b h

theorem Ensures.of_eq (h : Ensures e Q) (he : e = .ok b) : Q b := by
  rw [he] at h
  exact h

/-- A call that cannot fail with an assertion. -/
theorem Ensures.ne_assertion (h : Ensures e Q) : e ≠ .error .assertion := by
  rintro rfl
  exact h rfl

theorem Ensures.intro (h : e ≠ .error .assertion) : Ensures e fun b => e = .ok b := by
  cases e with
  | error => exact fun hf => h (by rw [hf])
  | ok => rfl

end ensures

/-- The values of `errno` that `xsend` and `xrecv` set. -/
inductive Errno where
  | eagain
  | einval
  | ehostunreach
  | efsm
  | enotsup
deriving DecidableEq, Repr

/-- What `xsend` leaves behind. -/
structure SendResult where
  /-- The return value. -/
  rc : Int
  /-- `errno`, if the call has set it. -/
  errno : Option Errno
  /-- The message of the caller; none if it was closed and not initialised again. -/
  msg : Option Msg
deriving DecidableEq

namespace SendResult

/-- The part was taken; the caller is left with an empty message. -/
def accepted : SendResult := { rc := 0, errno := none, msg := some Msg.init }

/-- The part was not taken. -/
def refused (e : Errno) (m : Msg) : SendResult := { rc := -1, errno := some e, msg := some m }

@[simp] theorem rc_accepted : accepted.rc = 0 := rfl

@[simp] theorem rc_refused (e : Errno) (m : Msg) : (refused e m).rc = -1 := rfl

end SendResult

namespace Channels

/-- A fault of a pipe is not an assertion of the socket. -/
theorem lift_ne_assertion {β γ : Type} {f : Except Fault β} {g : β → Except Failure γ}
    (hg : ∀ b, g b ≠ .error .assertion) : (lift f >>= g) ≠ .error .assertion := by
  cases f with
  | error => simp [lift]
  | ok b => exact hg b

section
variable (cs : Channels) (p : PipeId)

theorem read_ne_assertion : cs.read p ≠ .error .assertion := lift_ne_assertion fun _ => nofun

theorem write_ne_assertion (m : Msg) : cs.write p m ≠ .error .assertion :=
  lift_ne_assertion fun _ => nofun

theorem rollback_ne_assertion :
    cs.rollback p ≠ .error .assertion := lift_ne_assertion fun _ => nofun

theorem flush_ne_assertion : cs.flush p ≠ .error .assertion := lift_ne_assertion fun _ => nofun

theorem terminate_ne_assertion (delay : Bool) : cs.terminate p delay ≠ .error .assertion :=
  lift_ne_assertion fun _ => nofun

end

/-- A message is flushed after its last part. -/
def flushLast (cs : Channels) (p : PipeId) (m : Msg) : Except Failure Channels :=
  if m.hasMore then .ok cs else cs.flush p

/-- `hiccuped` of a socket type that does not expect it. A pipe whose connection is lost is given
up, if the socket wants no messages to be queued for a peer that is not there. -/
def hiccuped (cs : Channels) (immediate : Bool) (p : PipeId) : Except Failure Channels :=
  if immediate then cs.terminate p false else .error .assertion

/-- What may happen to pipe `p` between two calls on a socket with the pipes `pipes`: its peer
does something, commands are delivered, or the socket terminates its end or changes its
watermarks. Only the functions of the socket read and write. The peers write whole messages. -/
def Outside (cs : Channels) (pipes : Finset PipeId) (p : PipeId) (a : Action) : Prop :=
  (cs p).pair.Enabled a ∧ (cs p).pair.Prudent a ∧
    (a.side = .first → p ∈ pipes ∧ a.reads = false ∧ a.writes = false) ∧
    Undivided .second ((cs p).pair, (cs p).log .second) a

instance (cs : Channels) (pipes : Finset PipeId) (p : PipeId) (a : Action) :
    Decidable (cs.Outside pipes p a) :=
  inferInstanceAs (Decidable (_ ∧ _ ∧ _ ∧ _))

/-! ## Steps in which the socket does not read -/

variable {cs cs' cs'' : Channels} {p : PipeId} {a : Action}

/-- Nothing was read from pipe `p`; the other pipes are as before. -/
structure Unread (cs cs' : Channels) (p : PipeId) : Prop where
  others : ∀ q, q ≠ p → cs' q = cs q
  healthy : (cs p).Healthy → (cs' p).Healthy
  follows : (cs p).Healthy → (cs p).Follows .second → (cs' p).Follows .second
  got : (cs' p).got = (cs p).got

namespace Unread

theorem refl (cs : Channels) (p : PipeId) : Unread cs cs p :=
  ⟨fun _ _ => rfl, id, fun _ => id, rfl⟩

theorem trans (h : Unread cs cs' p) (h' : Unread cs' cs'' p) : Unread cs cs'' p :=
  ⟨fun q hq => (h'.others q hq).trans (h.others q hq), fun hh => h'.healthy (h.healthy hh),
    fun hh hf => h'.follows (h.healthy hh) (h.follows hh hf), h'.got.trans h.got⟩

/-- What holds of every pipe and does not depend on the others. -/
theorem forall_of {P : PipeId → Channel → Prop} (h : Unread cs cs' p) (hall : ∀ q, P q (cs q))
    (hp : P p (cs' p)) (q : PipeId) : P q (cs' q) := by
  rcases eq_or_ne q p with rfl | hne
  · exact hp
  · rw [h.others q hne]
    exact hall q

end Unread

theorem Called.unread (h : Called cs cs' p (a, r)) (hprudent : (cs p).pair.Prudent a)
    (hreads : a.side = .first → a.reads = false)
    (hund : Undivided .second ((cs p).pair, (cs p).log .second) a) : Unread cs cs' p := by
  have hread : a ≠ .read .first := by
    rintro rfl
    cases hreads rfl
  have hhic : a ≠ .hiccup .first := by
    rintro rfl
    cases hreads rfl
  exact ⟨fun q hq => h.channel_of_ne hq, fun hh => h.healthy hh hprudent,
    fun hh hf => h.follows hh hf hprudent hund, h.got_of_ne hread hhic⟩

theorem Calls.unread (h : Calls cs cs' p l b n) : Unread cs cs' p :=
  ⟨h.others, h.kept.healthy, h.kept.heard, h.kept.got⟩

/-- A message is flushed after its last part; this changes neither the pipe nor its history. -/
theorem flushLast_spec (halive : ¬ (cs p).gone) (h : cs.flushLast p m = .ok cs') :
    (cs' p).pipe = (cs p).pipe ∧ Calls cs cs' p (cs p).sent (cs p).begun
        (if m.hasMore then (cs p).flushes else (cs p).flushes + 1) := by
  unfold flushLast at h
  by_cases hmore : m.hasMore = true
  · rw [if_pos hmore] at h ⊢
    cases h
    exact ⟨rfl, fun _ _ => rfl, .refl _, fun _ => id, halive, rfl, rfl, rfl⟩
  rw [if_neg hmore] at h ⊢
  exact flush_calls halive h

/-! ## Pipes in good order -/

/-- Asking a pipe that can be written changes nothing. -/
theorem checkWrite_of_writable (h : (cs.checkWrite p).1 = true) : (cs.checkWrite p).2 = cs := by
  have hpair : ((cs p).pair.checkWrite .first).2 = (cs p).pair := by
    rcases ((cs p).pair.pipe .first).checkWrite_cases with ⟨heq, -⟩ | ⟨heq, -⟩ | ⟨heq, -⟩
    · simp [checkWrite, PipePair.checkWrite, heq] at h
    · simp [checkWrite, PipePair.checkWrite, heq] at h
    · simp [PipePair.checkWrite, heq, setPipe]
  simp only [checkWrite, hpair]
  exact Function.update_eq_self ..

section
variable (halive : ¬ (cs p).gone) (hh : (cs p).Healthy)
include halive hh

/-- A pipe that can be written takes the part. -/
theorem write_of_writable (hmsg : m.Ordinary) (h : (cs.checkWrite p).1 = true) :
    ∃ cs', cs.write p m = .ok (true, cs') ∧ Writes cs cs' p m := by
  rcases write_spec halive hmsg with ⟨f, -, hsick⟩ | ⟨b, cs', hwrite, hcase⟩
  · exact absurd hh hsick
  rcases hcase with ⟨rfl, hwrites⟩ | ⟨rfl, hoffers⟩
  · exact ⟨cs', hwrite, hwrites⟩
  · exact absurd ((checkWrite_offers halive).offered.taken.mp h) hoffers.not_writable

theorem flush_ok : ∃ cs', cs.flush p = .ok cs' ∧ (cs' p).pipe = (cs p).pipe ∧
      Calls cs cs' p (cs p).sent (cs p).begun ((cs p).flushes + 1) := by
  rcases flush_spec halive with ⟨f, -, hsick⟩ | hok
  · exact absurd hh hsick
  · exact hok

theorem terminate_ok (delay : Bool) : ∃ cs', cs.terminate p delay = .ok cs' := by
  obtain ⟨s, hs, -⟩ := hh.sound.terminate_outcome (of_not_not halive) delay
  exact ⟨_, by rw [terminate, hs]; rfl⟩

end

/-! ## Steps in which the socket neither reads nor writes -/

/-- Pipe `p` was neither read nor written. -/
structure Rests (cs cs' : Channels) (p : PipeId) : Prop extends Unread cs cs' p where
  unwritten : (cs p).Unwritten (cs' p)

namespace Rests

theorem refl (cs : Channels) (p : PipeId) : Rests cs cs p := ⟨.refl cs p, .refl _⟩

theorem trans (h : Rests cs cs' p) (h' : Rests cs' cs'' p) : Rests cs cs'' p :=
  ⟨h.toUnread.trans h'.toUnread, h.unwritten.trans h'.unwritten⟩

end Rests

theorem Called.rests (h : Called cs cs' p (a, r)) (hprudent : (cs p).pair.Prudent a)
    (hfirst : a.side = .first → a.reads = false ∧ a.writes = false)
    (hund : Undivided .second ((cs p).pair, (cs p).log .second) a) : Rests cs cs' p :=
  ⟨h.unread hprudent (fun hside => (hfirst hside).1) hund,
    h.unwritten (fun hside => (hfirst hside).2) p⟩

theorem terminate_rests (halive : ¬ (cs p).gone) (h : cs.terminate p delay = .ok cs') :
    Rests cs cs' p ∧ ((cs' p).gone ↔ (cs p).gone) := by
  have hc := terminate_called halive h
  exact ⟨hc.rests trivial (fun _ => ⟨rfl, rfl⟩) trivial, hc.gone_iff fun _ => by simp [news]⟩

theorem hiccuped_rests (halive : ¬ (cs p).gone) (h : cs.hiccuped immediate p = .ok cs') :
    Rests cs cs' p ∧ ((cs' p).gone ↔ (cs p).gone) := by
  unfold hiccuped at h
  split at h
  · exact terminate_rests halive h
  · cases h

/-- What the socket is told in a step from outside. -/
structure Tells (cs cs' : Channels) (pipes : Finset PipeId) (p : PipeId) (ev : List PipeEvent) :
    Prop where
  rests : Rests cs cs' p
  few : ev = [] ∨ ∃ e, ev = [e]
  mem : ev ≠ [] → p ∈ pipes
  gone : (cs' p).gone ↔ (cs p).gone ∨ ev = [.pipeTerminated]

theorem act_tells (hout : cs.Outside pipes p a)
    (h : cs.act p a = .ok (ev, cs')) : Tells cs cs' pipes p ev := by
  obtain ⟨hen, hprudent, hfirst, hund⟩ := hout
  obtain ⟨r, hc, hev⟩ := act_called hen h
  refine ⟨hc.rests hprudent (fun hside => (hfirst hside).2) hund, ?_, fun hne => ?_, ?_⟩
  · rw [hev]
    split
    · exact news_cases ..
    · exact .inl rfl
  · by_contra hmem
    rw [if_neg fun hside => hmem (hfirst hside).1] at hev
    exact hne hev
  · by_cases hterm : ev = [.pipeTerminated]
    · rw [hterm] at hev
      have hside : a.side = .first := by
        by_contra hne
        rw [if_neg hne] at hev
        cases hev
      rw [if_pos hside] at hev
      obtain ⟨u, hu⟩ := hc.viewed
      refine iff_of_true ?_ (.inr hterm)
      rw [Channel.gone, hu.deallocated, hside, if_pos hev.symm]
      exact Nat.succ_ne_zero _
    · rw [or_iff_left hterm]
      refine hc.gone_iff fun hside hnews => hterm ?_
      rw [hev, if_pos hside, hnews]

/-- The socket is told of a new queue when the command for it is delivered. -/
theorem hiccupNext_of_told (hen : (cs p).pair.Enabled a) (h : cs.act p a = .ok ([.hiccuped], cs')) :
    a = .deliver .first ∧ (cs p).pair.hiccupNext .first = true := by
  obtain ⟨-, -, hev⟩ := act_called hen h
  have hside : a.side = .first := by
    by_contra hne
    rw [if_neg hne] at hev
    cases hev
  rw [if_pos hside] at hev
  cases a with
  | deliver y =>
    obtain rfl : y = .first := hside
    refine ⟨rfl, ?_⟩
    cases hmail : (cs p).pair.mail .first with
    | nil => simp [news, hmail] at hev
    | cons c =>
      simp only [news, hmail] at hev
      rw [hiccupNext_cons hmail]
      cases c with
      | hiccup => rfl
      | _ =>
        simp only [commandEvents] at hev
        (try split at hev) <;> cases hev
  | _ => cases hev

/-- The pipes that are attached after the events `ev` of pipe `p`. -/
def remaining (pipes : Finset PipeId) (p : PipeId) (ev : List PipeEvent) : Finset PipeId :=
  if ev = [.pipeTerminated] then pipes.erase p else pipes

@[simp] theorem remaining_nil (pipes : Finset PipeId) (p : PipeId) : remaining pipes p [] = pipes :=
  if_neg nofun

theorem remaining_subset (pipes : Finset PipeId) (p : PipeId) (ev : List PipeEvent) :
    remaining pipes p ev ⊆ pipes := by
  unfold remaining
  split
  · exact Finset.erase_subset p pipes
  · exact Finset.Subset.refl pipes

theorem mem_remaining : q ∈ remaining pipes p [e] ↔ q ∈ pipes ∧ (e = .pipeTerminated → q ≠ p) := by
  unfold remaining
  split
  · rename_i hterm
    simp only [List.cons.injEq, and_true] at hterm
    rw [hterm, Finset.mem_erase, and_comm, forall_prop_of_true rfl]
  · rename_i hterm
    rw [and_iff_left fun he => absurd (by rw [he]) hterm]

theorem Tells.alive (h : Tells cs cs' pipes p ev)
    (halive : ∀ q ∈ pipes, ¬ (cs q).gone) : ∀ q ∈ remaining pipes p ev, ¬ (cs' q).gone := by
  intro q hq
  unfold remaining at hq
  split at hq
  · obtain ⟨hne, hmem⟩ := Finset.mem_erase.mp hq
    rw [h.rests.others q hne]
    exact halive q hmem
  rename_i hterm
  rcases eq_or_ne q p with rfl | hne
  · exact fun hg => halive q hq ((h.gone.mp hg).resolve_right hterm)
  · rw [h.rests.others q hne]
    exact halive q hq

end Channels

/-! ## What was written to a pipe -/

namespace Channel

/-- The pipe does not hold the first parts of a message. -/
def Idle (c : Channel) : Prop := c.pipe.state = .active → c.begun = []

/-- The parts `l` were written: complete messages, and perhaps the first parts of another one,
which are taken back when the pipe is closed. -/
def Accounts (c : Channel) (l : List Msg) : Prop :=
  ∃ rest, l = c.sent.flatten ++ rest ∧ (∀ m ∈ rest, m.hasMore = true) ∧
    (c.pipe.state = .active → c.begun = rest)

theorem Unwritten.accounts (h : Unwritten c c') (ha : c.Accounts l) : c'.Accounts l := by
  obtain ⟨rest, hl, hmore, hbegun⟩ := ha
  refine ⟨rest, by rw [h.sent, hl], hmore, fun hst => ?_⟩
  obtain ⟨hst', hsame⟩ := h.active hst
  rw [hsame, hbegun hst']

theorem Unwritten.idle (h : Unwritten c c') (hidle : c.Idle) : c'.Idle := by
  intro hst
  obtain ⟨hst', hbegun⟩ := h.active hst
  rw [hbegun]
  exact hidle hst'

end Channel

namespace Channels

variable {cs cs' : Channels} {p : PipeId}

theorem Writes.accounts (h : Writes cs cs' p m) (ha : (cs p).Accounts l) :
    (cs' p).Accounts (l ++ [m]) := by
  obtain ⟨rest, rfl, hrest, hbegun⟩ := ha
  have hb := hbegun h.writable.1
  by_cases hmore : m.hasMore = true
  · refine ⟨rest ++ [m], ?_, ?_, fun _ => ?_⟩
    · rw [h.sent, if_pos hmore, List.append_assoc]
    · intro x hx
      rcases List.mem_append.mp hx with hx | hx
      · exact hrest x hx
      · rw [List.mem_singleton.mp hx, hmore]
    · rw [h.begun, if_pos hmore, hb]
  · refine ⟨[], ?_, nofun, fun _ => ?_⟩
    · rw [h.sent, if_neg hmore, hb]
      simp
    · rw [h.begun, if_neg hmore]

theorem Rests.idle (h : Rests cs cs' p) (hidle : ∀ q, (cs q).Idle) : ∀ q, (cs' q).Idle :=
  h.forall_of hidle (h.unwritten.idle (hidle p))

/-- A call that leaves an idle pipe behind. -/
theorem Calls.idle {sent : List (List Msg)} {begun : List Msg}
    (h : Calls cs cs' p sent begun n) (hidle : ∀ q, (cs q).Idle)
    (hself : (cs' p).pipe.state = .active → begun = []) : ∀ q, (cs' q).Idle := by
  intro q
  rcases eq_or_ne q p with rfl | hne
  · exact fun hst => h.begun.trans (hself hst)
  · rw [h.others q hne]
    exact hidle q

theorem Offers.idle (h : Offers cs cs' p taken) (hidle : ∀ q, (cs q).Idle) : ∀ q, (cs' q).Idle :=
  h.toCalls.idle hidle fun hst => hidle p (h.offered.state ▸ hst)

/-- A call that changes nothing of what was written. -/
theorem Calls.accounts (h : Calls cs cs' p (cs p).sent (cs p).begun n)
    (hpipe : (cs' p).pipe.state = .active → (cs p).pipe.state = .active)
    (ha : (cs p).Accounts l) : (cs' p).Accounts l := by
  obtain ⟨rest, hl, hmore, hbegun⟩ := ha
  exact ⟨rest, by rw [h.sent, hl], hmore, fun hst => by rw [h.begun, hbegun (hpipe hst)]⟩

end Channels
end LibZmq
