import LibZmq.Core.Execution
import LibZmq.YPipe.Basic
import Mathlib.Data.Finset.Card

/-!
# `mailbox_t`

The mailbox through which an object gets its commands (`mailbox.cpp`). Any number of threads send
and one receives. A receiver that has found the pipe empty is passive, and a sender whose `flush`
finds it so wakes it up with a signal, after the lock is released.

A step is what a sender does to the pipe while it holds the lock, what the receiver does to it, or
one operation on the signaler. `Wake` says where the signal is in a state.
-/

namespace LibZmq

open Finset
open LibZmq.Core (Exec exists_exec_with step_of_pure)

/-- Where the receiver is in `recv`. -/
inductive Mailbox.Receiver where
  | outside
  /-- In `_signaler.wait`. -/
  | waiting
  /-- `wait` has returned `0`. -/
  | signalled
  /-- `recv_failable` has returned `0`. -/
  | woken
deriving DecidableEq, Repr

/-- `mailbox_t`, with the threads `ι` that send to it. -/
structure Mailbox (ι α : Type) where
  cpipe : YPipe α
  active : Bool
  /-- The value of the `eventfd` object of `_signaler`. -/
  signals : Nat
  /-- The senders between `flush` and `_signaler.send`. -/
  signalling : Finset ι
  receiver : Mailbox.Receiver
  /-- A `zmq_assert` has failed. -/
  failed : Bool
  /-- The commands, in the order in which they were written. -/
  sent : List α
  /-- What `recv` has returned. -/
  received : List α

namespace Mailbox

variable {ι α : Type}

def new : Mailbox ι α :=
  { cpipe := YPipe.new.checkRead.2, active := false, signals := 0, signalling := ∅
    receiver := .outside, failed := (YPipe.new : YPipe α).checkRead.1, sent := [], received := [] }

inductive Act (ι α : Type) where
  /-- `send` of a thread, until the lock is released. -/
  | send (i : ι) (cmd : α)
  /-- `_signaler.send` of this thread. -/
  | signal (i : ι)
  /-- `recv`, until it returns or waits. -/
  | recv
  /-- `wait` returns; not `ok` if it is interrupted or the time is over. -/
  | wait (ok : Bool)
  | recvFailable
  /-- The rest of `recv`. -/
  | read

def next [DecidableEq ι] (m : Mailbox ι α) : Act ι α → Mailbox ι α
  | .send i cmd =>
      let (ok, cpipe) := (m.cpipe.write cmd false).flush
      { m with
        cpipe := cpipe
        sent := m.sent ++ [cmd]
        signalling := if ok then m.signalling else insert i m.signalling }
  | .signal i => { m with signals := m.signals + 1, signalling := m.signalling.erase i }
  | .recv =>
      if m.active then
        match m.cpipe.read with
        | (some cmd, cpipe) => { m with cpipe := cpipe, received := m.received ++ [cmd] }
        | (none, cpipe) => { m with cpipe := cpipe, active := false, receiver := .waiting }
      else { m with receiver := .waiting }
  | .wait ok => { m with receiver := if ok then .signalled else .outside }
  | .recvFailable =>
      if m.signals = 0 then { m with receiver := .outside }
      -- signals that were grabbed along with the first one are returned
      else { m with signals := m.signals - 1, active := true, receiver := .woken }
  | .read =>
      match m.cpipe.read with
      | (some cmd, cpipe) =>
          { m with cpipe := cpipe, received := m.received ++ [cmd], receiver := .outside }
      | (none, cpipe) => { m with cpipe := cpipe, failed := true }

def Enabled (m : Mailbox ι α) : Act ι α → Prop
  | .send i _ => i ∉ m.signalling
  | .signal i => i ∈ m.signalling
  | .recv => m.receiver = .outside
  | .wait ok => m.receiver = .waiting ∧ (ok = true → 0 < m.signals)
  | .recvFailable => m.receiver = .signalled
  | .read => m.receiver = .woken

instance [DecidableEq ι] (m : Mailbox ι α) : (a : Act ι α) → Decidable (m.Enabled a) := by
  rintro (_ | _) <;> dsimp only [Enabled] <;> infer_instance

def Step [DecidableEq ι] (m : Mailbox ι α) (a : Act ι α) (m' : Mailbox ι α) : Prop :=
  m.Enabled a ∧ m.next a = m'

/-- The signals that were sent or are about to be sent. -/
def onTheWay (m : Mailbox ι α) : Nat := m.signals + m.signalling.card

/-- There is a signal on the way if and only if something was written for a passive receiver. -/
def Wake (m : Mailbox ι α) : Prop :=
  (m.active = !m.cpipe.asleep ∧ m.onTheWay = 0) ∨
  (m.active = false ∧ m.cpipe.asleep = false ∧ m.cpipe.readable ≠ [] ∧ m.onTheWay = 1)

structure Sound (m : Mailbox ι α) : Prop where
  ordered : m.cpipe.Ordered
  ready : m.cpipe.ready = []
  unfinished : m.cpipe.unfinished = []
  stream : m.sent = m.received ++ m.cpipe.readable
  failed : m.failed = false
  passive : m.receiver = .waiting ∨ m.receiver = .signalled → m.active = false
  woken : m.receiver = .woken → m.active = true ∧ m.cpipe.readable ≠ []
  wake : m.Wake

variable {m m' : Mailbox ι α}

theorem sound_new : (new : Mailbox ι α).Sound := by
  have hnew := YPipe.ordered_new (α := α)
  obtain ⟨hreadable, hready, hunfinished⟩ := YPipe.checkRead_segments (YPipe.new : YPipe α)
  have hasleep : (new : Mailbox ι α).cpipe.asleep = true := YPipe.asleep_checkRead hnew
  exact ⟨hnew.checkRead, hready, hunfinished, hreadable.symm, YPipe.checkRead_eq hnew,
    fun _ => rfl, by simp [new], .inl ⟨by rw [hasleep]; rfl, rfl⟩⟩

/-- `read` takes the first command, or puts the receiver to sleep. -/
theorem Sound.reads (h : m.Sound) :
    (m.cpipe.readable = [] ∧ ∃ p, m.cpipe.read = (none, p) ∧ p.Ordered ∧ p.ready = [] ∧
      p.unfinished = [] ∧ p.readable = [] ∧ p.asleep = true) ∨
    ∃ cmd p, m.cpipe.read = (some cmd, p) ∧ p.Ordered ∧ p.ready = [] ∧ p.unfinished = [] ∧
      m.cpipe.readable = cmd :: p.readable ∧ p.asleep = false := by
  obtain ⟨hhead, htail, hready, hunfinished, hasleep⟩ := YPipe.read_segments h.ordered
  have hordered := h.ordered.read
  rw [h.ready] at hready
  rw [h.unfinished] at hunfinished
  generalize m.cpipe.read = res at *
  obtain ⟨cmd, p⟩ := res
  cases hr : m.cpipe.readable with
  | nil =>
    rw [hr] at hhead htail hasleep
    cases hhead
    exact .inl ⟨rfl, p, rfl, hordered, hready, hunfinished, htail, hasleep⟩
  | cons c =>
    rw [hr] at hhead htail hasleep
    cases hhead
    exact .inr ⟨c, p, rfl, hordered, hready, hunfinished, by rw [htail]; rfl, hasleep⟩

/-- An active receiver is not sent signals. -/
theorem Wake.none_of_active (h : m.Wake) (hactive : m.active = true) : m.onTheWay = 0 := by
  rcases h with ⟨-, hzero⟩ | ⟨hpassive, -⟩
  · exact hzero
  · simp [hactive] at hpassive

/-- An active receiver returns a command. -/
theorem Sound.took (h : m.Sound) (hactive : m.active = true) (hp : p.Ordered)
    (hready : p.ready = []) (hunfinished : p.unfinished = [])
    (hreadable : m.cpipe.readable = cmd :: p.readable) (hawake : p.asleep = false) :
    { m with cpipe := p, received := m.received ++ [cmd], receiver := .outside }.Sound := by
  refine ⟨hp, hready, hunfinished, ?_, h.failed, by simp, by simp,
    .inl ⟨by rw [hactive, hawake]; rfl, h.wake.none_of_active hactive⟩⟩
  rw [h.stream, hreadable, List.append_assoc]
  rfl

variable [DecidableEq ι]

/-- The command can be read now, and a receiver that was asleep has to be woken up. -/
theorem Sound.send (h : m.Sound) (hi : i ∉ m.signalling) : (m.next (.send i cmd)).Sound := by
  have hw := h.ordered.write cmd false
  have hone : (m.cpipe.write cmd false).ready = [cmd] := by
    rw [YPipe.ready_write_complete h.ordered, h.ready, h.unfinished]
    rfl
  obtain ⟨hreadable, hready, hunfinished, hawake⟩ := YPipe.flushSet_segments hw
  rw [YPipe.readable_write h.ordered, hone] at hreadable
  rw [YPipe.unfinished_write_complete h.ordered] at hunfinished
  have hne : (m.cpipe.write cmd false).flushSet.readable ≠ [] := by simp [hreadable]
  have hflush : (m.cpipe.write cmd false).flush =
      (!m.cpipe.asleep, (m.cpipe.write cmd false).flushSet) :=
    YPipe.flush_of_ready hw (by simp [hone])
  simp only [next, hflush]
  refine ⟨hw.flushSet, hready, hunfinished, ?_, h.failed, h.passive,
    fun hwoken => ⟨(h.woken hwoken).1, hne⟩, ?_⟩
  · rw [h.stream, hreadable, List.append_assoc]
  · -- only the first command after the receiver fell asleep needs a signal
    rcases h.wake with ⟨hactive, hzero⟩ | ⟨hpassive, hpipe, -, hone⟩
    · cases hasleep : m.cpipe.asleep with
      | false => exact .inl ⟨by rw [hactive, hasleep, hawake], by simpa [onTheWay] using hzero⟩
      | true =>
        refine .inr ⟨by rw [hactive, hasleep]; rfl, hawake, hne, ?_⟩
        simp only [onTheWay] at hzero
        simp [onTheWay, card_insert_of_notMem hi]
        omega
    · exact .inr ⟨hpassive, hawake, hne, by simpa [onTheWay, hpipe] using hone⟩

theorem Sound.signal (h : m.Sound) (hi : i ∈ m.signalling) : (m.next (.signal i)).Sound := by
  have hsame : (m.next (.signal i)).onTheWay = m.onTheWay := by
    have hpos := card_pos.mpr ⟨i, hi⟩
    simp only [onTheWay, next, card_erase_of_mem hi]
    omega
  refine { h with wake := ?_ }
  unfold Wake
  rw [hsame]
  exact h.wake

theorem Sound.recv (h : m.Sound) (houtside : m.receiver = .outside) : (m.next .recv).Sound := by
  simp only [next]
  by_cases hactive : m.active = true
  · rw [if_pos hactive]
    rcases h.reads with ⟨hnil, p, hread, hp, hready, hunf, hreadable, hasleep⟩ |
      ⟨cmd, p, hread, hp, hready, hunf, hreadable, hawake⟩
    · rw [hread]
      refine ⟨hp, hready, hunf, ?_, h.failed, fun _ => rfl, by simp,
        .inl ⟨by rw [hasleep]; rfl, h.wake.none_of_active hactive⟩⟩
      rw [h.stream, hnil, hreadable]
    · rw [hread]
      have htook := h.took hactive hp hready hunf hreadable hawake
      rwa [← houtside] at htook
  · rw [if_neg hactive]
    exact { h with passive := fun _ => by simpa using hactive, woken := by simp }

theorem Sound.recvFailable (h : m.Sound) : (m.next .recvFailable).Sound := by
  by_cases hzero : m.signals = 0
  · simp only [next, hzero]
    exact { h with passive := by simp, woken := by simp
                   wake := by simpa [Wake, onTheWay, hzero] using h.wake }
  simp only [next, hzero, if_false]
  -- the signal was sent after something was written
  rcases h.wake with ⟨-, hnone⟩ | ⟨-, hawake, hne, hone⟩
  · simp only [onTheWay] at hnone
    omega
  refine { h with passive := by simp, woken := fun _ => ⟨rfl, hne⟩
                  wake := .inl ⟨by rw [hawake]; rfl, ?_⟩ }
  simp only [onTheWay] at hone ⊢
  omega

theorem Sound.step (h : m.Sound) (hstep : Step m a m') : m'.Sound := by
  obtain ⟨henabled, rfl⟩ := hstep
  cases a with
  | send => exact h.send henabled
  | signal => exact h.signal henabled
  | recv => exact h.recv henabled
  | wait ok =>
    refine { h with passive := fun _ => h.passive (.inl henabled.1), woken := ?_ }
    cases ok <;> simp [next]
  | recvFailable => exact h.recvFailable
  | read =>
    obtain ⟨hactive, hne⟩ := h.woken henabled
    rcases h.reads with ⟨hnil, -⟩ | ⟨cmd, p, hread, hp, hready, hunf, hreadable, hawake⟩
    · exact absurd hnil hne
    · simp only [next, hread]
      exact h.took hactive hp hready hunf hreadable hawake

/-- **No command and no wake-up is lost.**  Commands are received in the order in which they were
written, and those that were not received can be read. No assertion fails, and at most one signal
is pending. If the receiver is passive and there is a command for it, a signal is pending or a
sender is about to send one. -/
theorem no_lost_wakeup {tr : List (Act ι α)} (h : Exec Step new tr m) :
    m.sent = m.received ++ m.cpipe.readable ∧ m.failed = false ∧ m.signals ≤ 1 ∧
    (m.active = false → m.received ≠ m.sent → m.signals = 1 ∨ ∃ i, i ∈ m.signalling) := by
  have hs : m.Sound := h.invariant Sound (fun _ _ _ hsound hstep => hsound.step hstep) sound_new
  refine ⟨hs.stream, hs.failed, ?_, fun hpassive hne => ?_⟩
  · rcases hs.wake with ⟨-, hway⟩ | ⟨-, -, -, hway⟩ <;> simp only [onTheWay] at hway <;> omega
  · rcases hs.wake with ⟨hactive, -⟩ | ⟨-, -, -, hone⟩
    · have hasleep : m.cpipe.asleep = true := by simpa [hpassive] using hactive
      rw [hs.stream, YPipe.readable_of_asleep hs.ordered hasleep, List.append_nil] at hne
      exact absurd rfl hne
    by_cases hsignal : m.signals = 1
    · exact .inl hsignal
    · refine .inr (card_pos.mp ?_)
      simp only [onTheWay] at hone
      omega

/-- The second of two senders writes before the first has signalled. -/
theorem no_lost_wakeup_two_senders : ∃ tr m, Exec (Step (ι := Bool) (α := Nat)) new tr m ∧
    m.received = [5] ∧ m.sent = [5, 6] ∧ m.signals ≤ 1 := by
  refine exists_exec_with step_of_pure (fun m => m.received = [5] ∧ m.sent = [5, 6])
    [.send true 5, .recv, .send false 6, .signal true, .wait true, .recvFailable, .read]
    (by decide +kernel) ?_
  rintro tr m hexec ⟨hreceived, hsent⟩
  exact ⟨hreceived, hsent, (no_lost_wakeup hexec).2.2.1⟩

end Mailbox
end LibZmq
