import LibZmq.Core.Execution
import LibZmq.Msg

/-!
# Encoders

`encoder_base_t` (`encoder.hpp`) turns messages into a stream of bytes. A derived class gives the
actions of its state machine; each of them provides some bytes and says whether they are the last
ones of the message. `encode` fills a buffer of any size, its own or that of the caller.

`Frames` says what a class writes for a whole message. Whatever buffers are used, the
bytes that have been written and those that are still to come are the frames of the messages
(`output_eq`). The encoders of ZMTP 1.0 and 2.0 write a header and then the data
(`headerEncoder`).
-/

namespace LibZmq.Wire

open LibZmq.Core List

/-- The class derived from `encoder_base_t`. Its state includes `_next`. -/
structure EncoderClass (D : Type) where
  /-- The action `_next` for the message in progress: what it passes to `next_step`, that is the
  bytes to write and `new_msg_flag`, and the state after it. -/
  next : D → Msg → Bytes × Bool × D

/-- `encoder_base_t`. -/
structure Encoder (D : Type) where
  derived : D
  /-- The bytes from `_write_pos` on; `_to_write` is their number. -/
  toWrite : Bytes
  newMsgFlag : Bool
  bufSize : Nat
  inProgress : Option Msg

namespace Encoder

variable {D : Type} (cls : EncoderClass D)

/-- The constructor, with the call of `next_step` in that of the derived class. -/
def new (bufSize : Nat) (derived : D) : Encoder D :=
  { derived := derived, toWrite := [], newMsgFlag := true, bufSize := bufSize, inProgress := none }

/-- Run the state machine. -/
def step (e : Encoder D) (m : Msg) : Encoder D :=
  { e with
    derived := (cls.next e.derived m).2.2
    toWrite := (cls.next e.derived m).1
    newMsgFlag := (cls.next e.derived m).2.1 }

/-- `load_msg`; `none` if the assertion fails. -/
def loadMsg (e : Encoder D) (m : Msg) : Option (Encoder D) :=
  if e.inProgress = none then some (step cls { e with inProgress := some m } m) else none

/-- The loop of `encode` for the message `m`, with at most `n` rounds. The buffer has room for
`room` more bytes, and `out` is in it already. `whole` is its size, if it is not the caller's. -/
def encodeLoop (m : Msg) (whole : Option Nat) : Nat → Nat → Bytes → Encoder D →
    Bytes × Encoder D
  | 0, _, out, e => (out, e)
  | n + 1, room, out, e =>
      if room = 0 then (out, e)
      else if e.toWrite = [] ∧ e.newMsgFlag = true then (out, { e with inProgress := none })
      else
        let e := if e.toWrite = [] then step cls e m else e
        -- the bytes are not copied if they fill the whole buffer
        if out = [] ∧ whole.any (· ≤ e.toWrite.length) = true then
          (e.toWrite, { e with toWrite := [] })
        else
          encodeLoop m whole n (room - e.toWrite.length) (out ++ e.toWrite.take room)
            { e with toWrite := e.toWrite.drop room }

/-- `encode`, with the size of the caller's buffer if there is one. -/
def encode (e : Encoder D) (buffer : Option Nat) : Bytes × Encoder D :=
  match e.inProgress with
  | none => ([], e)
  | some m =>
      let size := buffer.getD e.bufSize
      encodeLoop cls m (if buffer.isSome then none else some size) (size + 2) size [] e

end Encoder

/-! ## Frames -/

/-- What a class writes for a message. -/
structure Frames {D : Type} (cls : EncoderClass D) where
  /-- The state between two messages. -/
  start : D
  /-- The bytes of the message from the action `_next` on. -/
  rest : D → Msg → Bytes
  rest_eq : ∀ d m, rest d m =
    (cls.next d m).1 ++ if (cls.next d m).2.1 then [] else rest (cls.next d m).2.2 m
  /-- The last action leads back to the start. -/
  restart : ∀ d m, (cls.next d m).2.1 = true → (cls.next d m).2.2 = start
  /-- Only the last action may have nothing to write. -/
  last : ∀ d m, (cls.next d m).1 = [] → (cls.next d m).2.1 = true

/-- The member `_next` of an encoder that writes a header and then the data. -/
inductive Write where
  | messageReady
  | sizeReady
deriving DecidableEq, Repr

/-- The actions `message_ready` and `size_ready`, for the bytes that the first of them writes. -/
def headerEncoder (header : Msg → Bytes) : EncoderClass Write where
  next
    | .messageReady, m => (header m, false, .sizeReady)
    | .sizeReady, m => (m.data, true, .messageReady)

def headerFrames (header : Msg → Bytes) (h : ∀ m, header m ≠ []) :
    Frames (headerEncoder header) where
  start := .messageReady
  rest
    | .messageReady, m => header m ++ m.data
    | .sizeReady, m => m.data
  rest_eq := by
    intro d m
    cases d <;> simp [headerEncoder]
  restart := by
    intro d m hlast
    cases d with
    | messageReady => cases hlast
    | sizeReady => rfl
  last := by
    intro d m hnil
    cases d with
    | messageReady => exact absurd hnil (h m)
    | sizeReady => rfl

namespace Frames

variable {D : Type} {cls : EncoderClass D} (F : Frames cls)

/-- What is still to be written of the message in progress. -/
def pending (e : Encoder D) : Bytes :=
  match e.inProgress with
  | none => []
  | some m => e.toWrite ++ if e.newMsgFlag then [] else F.rest e.derived m

/-- After the last action of a message the encoder is where the next one starts. -/
def Settled (e : Encoder D) : Prop :=
  e.inProgress = none ∨ e.newMsgFlag = true → e.derived = F.start

variable {F} {e : Encoder D} {m : Msg}

theorem pending_step (h : e.inProgress = some m) (hempty : e.toWrite = [])
    (hmore : e.newMsgFlag = false) : F.pending (e.step cls m) = F.pending e := by
  simp only [pending, Encoder.step, h, hempty, hmore]
  exact (F.rest_eq e.derived m).symm

theorem settled_step (h : e.inProgress = some m) : F.Settled (e.step cls m) := by
  rintro (hnone | hlast)
  · cases h.symm.trans hnone
  · exact F.restart e.derived m hlast

/-- What the loop of `encode` does: it writes the next bytes, and it ends when the buffer is full
or the message is complete. -/
structure Writes (F : Frames cls) (e : Encoder D) (room : Nat) (written : Bytes)
    (e' : Encoder D) : Prop where
  pending : written ++ F.pending e' = F.pending e
  settled : F.Settled e → F.Settled e'
  ends : e'.inProgress = none ∨ room ≤ written.length

theorem encodeLoop_spec (whole : Option Nat) (n room : Nat) (out : Bytes) (e : Encoder D)
    (h : e.inProgress = some m) (hwhole : out = [] → ∀ size ∈ whole, size = room)
    (hn : room + (if e.toWrite = [] ∧ e.newMsgFlag = true then 1 else 2) ≤ n) :
    ∃ written e', Encoder.encodeLoop cls m whole n room out e = (out ++ written, e') ∧
      F.Writes e room written e' := by
  induction n generalizing room out e with
  | zero => split at hn <;> omega
  | succ n ih =>
    rw [Encoder.encodeLoop]
    by_cases hroom : room = 0
    · rw [if_pos hroom]
      exact ⟨[], e, by simp, ⟨rfl, id, .inr (by simp [hroom])⟩⟩
    rw [if_neg hroom]
    by_cases hdone : e.toWrite = [] ∧ e.newMsgFlag = true
    · rw [if_pos hdone]
      refine ⟨[], { e with inProgress := none }, by simp,
        ⟨?_, fun hsettled _ => hsettled (.inr hdone.2), .inl rfl⟩⟩
      simp [pending, h, hdone.1, hdone.2]
    rw [if_neg hdone] at hn ⊢
    simp only
    -- the state machine runs if there are no bytes left
    obtain ⟨e₁, he₁, h₁, hpending, hsettled, hnext⟩ : ∃ e₁,
        (if e.toWrite = [] then e.step cls m else e) = e₁ ∧ e₁.inProgress = some m ∧
        F.pending e₁ = F.pending e ∧ (F.Settled e → F.Settled e₁) ∧
        (e₁.toWrite = [] → e₁.newMsgFlag = true) := by
      by_cases hempty : e.toWrite = []
      · have hmore : e.newMsgFlag = false := by simpa [hempty] using hdone
        exact ⟨_, if_pos hempty, h, pending_step h hempty hmore, fun _ => settled_step h,
          F.last e.derived m⟩
      · exact ⟨e, if_neg hempty, h, rfl, id, fun hno => absurd hno hempty⟩
    rw [he₁]
    have hsplit : F.pending e₁ = e₁.toWrite.take room ++
        F.pending { e₁ with toWrite := e₁.toWrite.drop room } := by
      simp only [pending, h₁]
      rw [← append_assoc, take_append_drop]
    split
    · rename_i hzero
      obtain ⟨rfl, hsize⟩ := hzero
      obtain ⟨size, hwh, hle⟩ := (Option.any_eq_true ..).mp hsize
      have hsame := hwhole rfl size hwh
      refine ⟨e₁.toWrite, _, rfl, ⟨?_, hsettled, .inr (by simpa [← hsame] using hle)⟩⟩
      rw [← hpending]
      simp [pending, h₁]
    have hbound : room - e₁.toWrite.length +
        (if e₁.toWrite.drop room = [] ∧ e₁.newMsgFlag = true then 1 else 2) ≤ n := by
      by_cases hempty : e₁.toWrite = []
      · simp only [hempty, drop_nil, hnext hempty, and_self, if_true]
        omega
      · have hpos : 0 < e₁.toWrite.length := length_pos_iff.mpr hempty
        split <;> omega
    obtain ⟨written, e', heq, hw⟩ := ih (room - e₁.toWrite.length)
      (out ++ e₁.toWrite.take room) { e₁ with toWrite := e₁.toWrite.drop room } h₁ (by
        intro hnil size hsize
        obtain ⟨hout, htake⟩ := append_eq_nil_iff.mp hnil
        have hempty : e₁.toWrite = [] := (take_eq_nil_iff.mp htake).resolve_left hroom
        rw [hwhole hout size hsize, hempty]
        simp) hbound
    refine ⟨e₁.toWrite.take room ++ written, e', by rw [heq, append_assoc],
      ⟨?_, fun h => hw.settled (hsettled h), ?_⟩⟩
    · rw [← hpending, hsplit, append_assoc, hw.pending]
    · refine hw.ends.imp_right fun _ => ?_
      simp only [length_append, length_take]
      omega

theorem encode_spec (e : Encoder D) (buffer : Option Nat) :
    ∃ written e', e.encode cls buffer = (written, e') ∧
      F.Writes e (buffer.getD e.bufSize) written e' := by
  rw [Encoder.encode]
  cases h : e.inProgress with
  | none => exact ⟨[], e, rfl, ⟨rfl, id, .inl h⟩⟩
  | some =>
    obtain ⟨written, e', heq, hw⟩ := encodeLoop_spec
      (if buffer.isSome then none else some (buffer.getD e.bufSize)) (buffer.getD e.bufSize + 2)
      (buffer.getD e.bufSize) [] e h (by
        intro _ _ hsize
        split at hsize
        · cases hsize
        · exact (Option.mem_some_iff.mp hsize).symm) (by split <;> omega)
    exact ⟨written, e', heq, hw⟩

end Frames

/-! ## Runs -/

/-- An encoder, the messages that were loaded and the bytes that were returned. -/
structure Sender (D : Type) where
  encoder : Encoder D
  loaded : List Msg
  output : Bytes

namespace Sender

inductive Act where
  | load (m : Msg)
  /-- With a buffer of the caller, if a size is given. -/
  | encode (buffer : Option Nat)
deriving DecidableEq, Repr

variable {D : Type}

def start (bufSize : Nat) (derived : D) : Sender D :=
  { encoder := .new bufSize derived, loaded := [], output := [] }

/-- A message is loaded when there is none in progress. -/
inductive Step (cls : EncoderClass D) : Sender D → Act → Sender D → Prop
  | load {s : Sender D} {m : Msg} {e : Encoder D} : s.encoder.loadMsg cls m = some e →
      Step cls s (.load m) { s with encoder := e, loaded := s.loaded ++ [m] }
  | encode (s : Sender D) (buffer : Option Nat) :
      Step cls s (.encode buffer) { s with
        encoder := (s.encoder.encode cls buffer).2
        output := s.output ++ (s.encoder.encode cls buffer).1 }

/-- The output and what is still to come are the frames of the messages. -/
structure Framed {cls : EncoderClass D} (F : Frames cls) (s : Sender D) : Prop where
  bytes : s.output ++ F.pending s.encoder = s.loaded.flatMap (F.rest F.start)
  settled : F.Settled s.encoder

variable {cls : EncoderClass D}

theorem Framed.step {F : Frames cls} (h : s.Framed F) (hs : Step cls s a s') : s'.Framed F := by
  cases hs with
  | @load m e hload =>
    rw [Encoder.loadMsg] at hload
    split at hload
    · rename_i hidle
      cases hload
      have hbytes := h.bytes
      rw [Frames.pending, hidle, append_nil] at hbytes
      refine ⟨?_, Frames.settled_step rfl⟩
      rw [flatMap_append, ← hbytes, flatMap_singleton, F.rest_eq, ← h.settled (.inl hidle)]
      rfl
    · cases hload
  | encode buffer =>
    obtain ⟨written, e', heq, hw⟩ := Frames.encode_spec (F := F) s.encoder buffer
    simp only [heq]
    refine ⟨?_, hw.settled h.settled⟩
    rw [append_assoc, hw.pending]
    exact h.bytes

/-- **Whatever buffers are used, the output consists of the frames of the messages.** -/
theorem output_eq (F : Frames cls) (h : Exec (Step cls) (start bufSize F.start) tr s) :
    s.output ++ F.pending s.encoder = s.loaded.flatMap (F.rest F.start) :=
  (h.invariant (Framed F) (fun _ _ _ hb hs => hb.step hs) ⟨rfl, fun _ => rfl⟩).bytes

/-- When no message is in progress, the output is complete. -/
theorem output_of_idle (F : Frames cls) (h : Exec (Step cls) (start bufSize F.start) tr s)
    (hidle : s.encoder.inProgress = none) : s.output = s.loaded.flatMap (F.rest F.start) := by
  have := output_eq F h
  rwa [Frames.pending, hidle, append_nil] at this

/-- Any messages can be encoded to the end, with buffers that are large enough. -/
theorem exists_finished (F : Frames cls) (ms : List Msg) {s : Sender D}
    (hidle : s.encoder.inProgress = none) :
    ∃ tr s', Exec (Step cls) s tr s' ∧ s'.encoder.inProgress = none ∧
      s'.loaded = s.loaded ++ ms := by
  induction ms generalizing s with
  | nil => exact ⟨[], s, .nil s, hidle, (append_nil _).symm⟩
  | cons m ms ih =>
    have hload : Step cls s (.load m) { s with encoder := _, loaded := s.loaded ++ [m] } :=
      .load (if_pos hidle)
    generalize Encoder.step cls { s.encoder with inProgress := some m } m = e at hload
    obtain ⟨written, e', heq, hw⟩ := Frames.encode_spec (F := F) e (some ((F.pending e).length + 1))
    have hdone : e'.inProgress = none := by
      refine hw.ends.resolve_right fun hfull => ?_
      have hlength := congrArg length hw.pending
      simp only [length_append, Option.getD_some] at hlength hfull
      omega
    have hencode : Step cls { s with encoder := e, loaded := s.loaded ++ [m] } (.encode _) _ :=
      .encode _ (some ((F.pending e).length + 1))
    simp only [heq] at hencode
    obtain ⟨tr, s', hrun, hidle', hloaded⟩ := ih (s := { s with
      encoder := e', loaded := s.loaded ++ [m], output := s.output ++ written }) hdone
    refine ⟨_, s', .cons hload (.cons hencode hrun), hidle', ?_⟩
    rw [hloaded, append_assoc]
    rfl

end Sender
end LibZmq.Wire
