import LibZmq.Wire.Bytes
import LibZmq.Wire.Encoder

/-!
# The output of an engine

After the handshake `out_event` encodes messages until a batch is full and writes what the socket
takes; the rest is left for the next call (`stream_engine_base.cpp`, `v2_encoder.cpp`). The poller
calls it while `POLLOUT` is set, `restart_output` when there is something new to send, and the
heartbeats without looking at either.

* `output_batched`: the bytes are the frames of the messages, and no assertion fails but the one of
  a heartbeat after the descriptor was removed;
* `unsent_bytes_polled`: for bytes that are left `POLLOUT` is set, if the socket takes the whole
  batch of a heartbeat that finds it reset.
-/

namespace LibZmq

open List
open LibZmq.Core (Exec Guarded exists_exec_of_replay exists_exec_with guarded_of_attempt
  step_of_attempt)
open Wire (Encoder EncoderClass Frames Sender Write putUint64)

namespace Wire.V2

/-- The bytes that `message_ready` writes. -/
def header (m : Msg) : Bytes :=
  let flags : UInt8 := (if m.hasMore then 1 else 0) ||| (if 255 < m.data.length then 2 else 0) |||
    if m.flags &&& MsgFlag.command ≠ 0 then 4 else 0
  if 255 < m.data.length then flags :: putUint64 (UInt64.ofNat m.data.length)
  else [flags, UInt8.ofNat m.data.length]

/-- `v2_encoder_t`. -/
def encoder : EncoderClass Write := headerEncoder header

theorem header_ne_nil (m : Msg) : header m ≠ [] := by
  unfold header
  dsimp only
  split <;> simp

def frames : Frames encoder := headerFrames header header_ne_nil

end Wire.V2

/-! ## The buffer of the encoder -/

namespace Wire.Encoder

variable {D : Type} {e : Encoder D}

/-- `encode` returns the bytes where they are, instead of copying them to its buffer. -/
def zeroCopy (cls : EncoderClass D) (e : Encoder D) (buffer : Option Nat) : Bool :=
  buffer.isNone && e.inProgress.any fun m =>
    (e.toWrite ≠ [] || !e.newMsgFlag) &&
      e.bufSize ≤ (if e.toWrite = [] then e.step cls m else e).toWrite.length

/-- The size of the buffer does not change, and what is copied fits into it. -/
theorem encodeLoop_keeps (F : Frames cls) (whole : Option Nat) (n room : Nat) (out : Bytes)
    (e : Encoder D) : (encodeLoop cls m whole n room out e).2.bufSize = e.bufSize ∧
      ((out = [] → whole.any (· ≤ (if e.toWrite = [] then e.step cls m else e).toWrite.length) =
          true → e.toWrite = [] ∧ e.newMsgFlag = true) →
        (encodeLoop cls m whole n room out e).1.length ≤ out.length + room) := by
  induction n generalizing room out e with
  | zero => exact ⟨rfl, fun _ => Nat.le_add_right ..⟩
  | succ n ih =>
    have hstep : (if e.toWrite = [] then e.step cls m else e).bufSize = e.bufSize := by
      split <;> rfl
    have hlast : (if e.toWrite = [] then e.step cls m else e).toWrite = [] →
        (if e.toWrite = [] then e.step cls m else e).newMsgFlag = true := by
      split
      · exact F.last e.derived m
      · exact fun hnil => absurd hnil ‹_›
    rw [encodeLoop]
    split
    · exact ⟨rfl, fun _ => Nat.le_add_right ..⟩
    rename_i hroom
    split
    · exact ⟨rfl, fun _ => Nat.le_add_right ..⟩
    rename_i hdone
    dsimp only
    generalize (if e.toWrite = [] then e.step cls m else e) = e₁ at *
    split
    · rename_i hzero
      exact ⟨hstep, fun hcopy => absurd (hcopy hzero.1 hzero.2) hdone⟩
    obtain ⟨hsize, hlength⟩ := ih (room - e₁.toWrite.length) (out ++ e₁.toWrite.take room)
      { e₁ with toWrite := e₁.toWrite.drop room }
    refine ⟨hsize.trans hstep, fun _ => (hlength fun hnil _ => ?_).trans ?_⟩
    · -- nothing was copied only if the message is complete
      have hempty : e₁.toWrite = [] :=
        (take_eq_nil_iff.mp (append_eq_nil_iff.mp hnil).2).resolve_left hroom
      exact ⟨by simp [hempty], hlast hempty⟩
    · simp only [length_append, length_take]
      omega

theorem encode_keeps (F : Frames cls) (buffer : Option Nat) :
    (e.encode cls buffer).2.bufSize = e.bufSize ∧ (e.zeroCopy cls buffer = false →
      (e.encode cls buffer).1.length ≤ buffer.getD e.bufSize) := by
  unfold encode
  split
  · exact ⟨rfl, fun _ => Nat.zero_le _⟩
  rename_i m hm
  obtain ⟨hsize, hlength⟩ := encodeLoop_keeps (m := m) F
    (if buffer.isSome then none else some (buffer.getD e.bufSize)) (buffer.getD e.bufSize + 2)
    (buffer.getD e.bufSize) [] e
  refine ⟨hsize, fun hcopy => (hlength fun _ hwhole => ?_).trans (by simp)⟩
  cases buffer with
  | some => cases hwhole
  | none =>
    have hle : e.bufSize ≤ (if e.toWrite = [] then e.step cls m else e).toWrite.length := by
      simpa using hwhole
    simpa [zeroCopy, hm, hle] using hcopy

end Wire.Encoder

/-! ## The engine -/

/-- The encoder and the batch. -/
structure Batch where
  encoder : Encoder Write
  /-- The bytes from `_outpos` on; `_outsize` is their number. -/
  out : Bytes
  /-- What `_next_msg` has returned. -/
  pulled : List Msg

/-- The part of `stream_engine_base_t` that has to do with output. -/
structure OutEngine extends Batch where
  outputStopped : Bool
  /-- The poller waits for `POLLOUT`. -/
  pollout : Bool
  ioError : Bool
  /-- A write has failed. -/
  failed : Bool
  /-- What the socket has taken. -/
  sent : Bytes

/-- The assertions of `load_msg` and `out_event`, and a write past the end of the buffer. -/
inductive OutFault where
  | messageInProgress
  | nothingEncoded
  | ioError
  | overrun
deriving DecidableEq

namespace Batch

/-- A call of `encode`, with the room that is left behind `_outpos` if it is not `NULL`. -/
def encode (b : Batch) (buffer : Option Nat) : Except OutFault Batch :=
  let (bytes, encoder) := b.encoder.encode Wire.V2.encoder buffer
  if b.encoder.zeroCopy Wire.V2.encoder buffer = false ∧
      buffer.getD b.encoder.bufSize < bytes.length then .error .overrun
  else .ok { b with encoder, out := b.out ++ bytes }

/-- The loop of `out_event`, for the messages that `_next_msg` returns before it fails. -/
def fill : List Msg → Bool → Batch → Except OutFault Batch
  | [], _, b => .ok b
  | m :: msgs, isNull, b =>
      if b.out.length < b.encoder.bufSize then
        match b.encoder.loadMsg Wire.V2.encoder m with
        | none => .error .messageInProgress
        | some encoder => do
            let b' ← encode { b with encoder, pulled := b.pulled ++ [m] }
              (if isNull then none else some (b.encoder.bufSize - b.out.length))
            if b'.out = b.out then .error .nothingEncoded else fill msgs false b'
      else .ok b

/-- The first part of `out_event`: a new batch, if the last one is written. `_outpos` stays `NULL`
behind the first call of `encode` if no message is in progress. -/
def renew (b : Batch) (msgs : List Msg) : Except OutFault Batch :=
  if b.out = [] then b.encode none >>= fill msgs b.encoder.inProgress.isNone else .ok b

end Batch

namespace OutEngine

/-- After the handshake; the rest of the greeting may still be there. The buffer of the encoder has
the size `_options.out_batch_size`. -/
def initial (outBatchSize : Nat) (greeting : Bytes) : OutEngine :=
  ⟨⟨.new outBatchSize .messageReady, greeting, []⟩, false, true, false, false, []⟩

/-- `out_event`; `nbytes` is what `write` returns, with `none` for an error. -/
def outEvent (e : OutEngine) (msgs : List Msg) (nbytes : Option Nat) :
    Except OutFault OutEngine := do
  if e.ioError then .error .ioError else
  let b ← e.renew msgs
  if b.out = [] then pure { e with toBatch := b, outputStopped := true, pollout := false }
  else
    match nbytes with
    | none => pure { e with toBatch := b, pollout := false, failed := true }
    | some n =>
        pure { e with toBatch := { b with out := b.out.drop n }, sent := e.sent ++ b.out.take n }

def restartOutput (e : OutEngine) (msgs : List Msg) (nbytes : Option Nat) :
    Except OutFault OutEngine :=
  if e.ioError then .ok e
  else
    outEvent { e with pollout := e.outputStopped || e.pollout, outputStopped := false } msgs nbytes

/-- The events; `heartbeat` is a timer or a PING, and with `ioError` the poller reports an error
while the input is stopped, so that the descriptor is removed. -/
inductive Act where
  | outEvent (msgs : List Msg) (nbytes : Option Nat)
  | restartOutput (msgs : List Msg) (nbytes : Option Nat)
  | heartbeat (msgs : List Msg) (nbytes : Option Nat)
  | ioError

def next (e : OutEngine) : Act → Except OutFault OutEngine
  | .outEvent msgs nbytes | .heartbeat msgs nbytes => e.outEvent msgs nbytes
  | .restartOutput msgs nbytes => e.restartOutput msgs nbytes
  | .ioError => .ok { e with ioError := true, pollout := false }

def Enabled (e : OutEngine) : Act → Prop
  | .outEvent .. => e.pollout = true ∧ e.ioError = false
  -- the timers stay when the descriptor is removed, and a PING may be left in the input
  | .restartOutput .. | .heartbeat .. => True
  | .ioError => e.ioError = false

instance (e : OutEngine) (a : Act) : Decidable (e.Enabled a) := by
  rcases a <;> dsimp only [Enabled] <;> infer_instance

def Step (e : OutEngine) (a : Act) (e' : OutEngine) : Prop := e.Enabled a ∧ e.next a = .ok e'

/-- The write of a heartbeat that finds `POLLOUT` reset fails or takes the whole batch, and the
descriptor stays. -/
def Drained (e : OutEngine) : Act → Prop
  | .heartbeat msgs nbytes =>
      e.pollout = true ∨ ∀ n ∈ nbytes, ∀ b ∈ (e.renew msgs).toOption, b.out.length ≤ n
  | .ioError => False
  | _ => True

instance (e : OutEngine) (a : Act) : Decidable (e.Drained a) := by
  rcases a <;> dsimp only [Drained] <;> infer_instance

variable {e e' : OutEngine}

/-! ## The bytes -/

/-- The output and what is still to come are the frames of the messages. -/
structure Batched (outBatchSize : Nat) (sent : Bytes) (b : Batch) : Prop where
  framed : Sender.Framed Wire.V2.frames ⟨b.encoder, b.pulled, sent ++ b.out⟩
  bufSize : b.encoder.bufSize = outBatchSize

section
variable {outBatchSize : Nat} {sent : Bytes} (h : Batched outBatchSize sent b)
include h

theorem Batched.encode (buffer : Option Nat) : ∃ b', b.encode buffer = .ok b' ∧
    Batched outBatchSize sent b' ∧ ∃ bytes, b'.out = b.out ++ bytes ∧
      Wire.V2.frames.Writes b.encoder (buffer.getD outBatchSize) bytes b'.encoder := by
  obtain ⟨bytes, encoder, heq, hwrites⟩ := Frames.encode_spec (F := Wire.V2.frames) b.encoder buffer
  obtain ⟨hsize, hfits⟩ := Encoder.encode_keeps (e := b.encoder) Wire.V2.frames buffer
  have hframed := h.framed.step (.encode _ buffer)
  simp only [heq, append_assoc] at hsize hfits hframed
  rw [h.bufSize] at hwrites hsize
  refine ⟨{ b with encoder, out := b.out ++ bytes }, ?_, ⟨hframed, hsize⟩, bytes, rfl, hwrites⟩
  simp only [Batch.encode, heq]
  exact if_neg fun hover => Nat.not_lt.mpr (hfits hover.1) hover.2

/-- A message begins with its header. -/
theorem Batched.load (hidle : b.encoder.inProgress = none) : ∃ encoder,
    b.encoder.loadMsg Wire.V2.encoder m = some encoder ∧ Wire.V2.frames.pending encoder ≠ [] ∧
      Batched outBatchSize sent { b with encoder, pulled := b.pulled ++ [m] } := by
  have hload : b.encoder.loadMsg Wire.V2.encoder m = some _ := if_pos hidle
  refine ⟨_, hload, ?_, h.framed.step (.load hload), h.bufSize⟩
  have hderived : b.encoder.derived = .messageReady := h.framed.settled (.inl hidle)
  simp [Frames.pending, Encoder.step, Wire.V2.encoder, Wire.headerEncoder, hderived,
    Wire.V2.header_ne_nil]

/-- The loop loads a message only if the one before is complete, and always encodes something. -/
theorem Batched.fill (hsize : 0 < outBatchSize) (isNull : Bool)
    (hnext : b.encoder.inProgress = none ∨ outBatchSize ≤ b.out.length) :
    ∃ b', Batch.fill msgs isNull b = .ok b' ∧ Batched outBatchSize sent b' := by
  induction msgs generalizing b isNull with
  | nil => exact ⟨b, rfl, h⟩
  | cons m _ ih =>
    rw [Batch.fill, h.bufSize]
    split
    · obtain ⟨encoder, hload, hpending, hloaded⟩ := h.load (m := m) (hnext.resolve_right (by omega))
      generalize hbuffer : (if isNull then none else some (outBatchSize - b.out.length)) = buffer
      have hroom : 0 < buffer.getD outBatchSize ∧
          outBatchSize ≤ b.out.length + buffer.getD outBatchSize := by
        rw [← hbuffer]
        cases isNull <;> simp <;> omega
      obtain ⟨b', hencode, hbatched, bytes, hout, hwrites⟩ := hloaded.encode buffer
      have hne : b'.out ≠ b.out := by
        rw [hout]
        intro hsame
        obtain rfl := append_right_eq_self.mp hsame
        rcases hwrites.ends with hdone | hfull
        · have hrest := hwrites.pending
          rw [Frames.pending, hdone] at hrest
          exact hpending hrest.symm
        · exact Nat.not_le.mpr hroom.1 hfull
      rw [hload]
      dsimp only
      rw [hencode]
      show ∃ b₂, (if b'.out = b.out then _ else _) = _ ∧ _
      rw [if_neg hne]
      refine ih hbatched false (hwrites.ends.imp_right fun hfull => ?_)
      rw [hout, length_append]
      exact hroom.2.trans (Nat.add_le_add_left hfull _)
    · exact ⟨b, rfl, h⟩

theorem Batched.renew (hsize : 0 < outBatchSize) (msgs : List Msg) :
    ∃ b', b.renew msgs = .ok b' ∧ Batched outBatchSize sent b' := by
  unfold Batch.renew
  split
  · obtain ⟨b', hencode, hbatched, bytes, hout, hwrites⟩ := h.encode none
    rw [hencode]
    refine hbatched.fill hsize _ (hwrites.ends.imp_right fun hfull => ?_)
    rw [hout, length_append]
    exact hfull.trans (Nat.le_add_left ..)
  · exact ⟨b, rfl, h⟩

end

section
variable {outBatchSize : Nat} (h : Batched outBatchSize e.sent e.toBatch) (hsize : 0 < outBatchSize)
include h hsize

theorem Batched.outEvent (hio : e.ioError = false) :
    ∃ e', e.outEvent msgs nbytes = .ok e' ∧ Batched outBatchSize e'.sent e'.toBatch := by
  obtain ⟨b, heq, hb⟩ := h.renew hsize msgs
  unfold OutEngine.outEvent
  simp only [hio, heq, ok_bind, Bool.false_eq_true, if_false]
  split
  · exact ⟨_, rfl, hb⟩
  cases nbytes with
  | none => exact ⟨_, rfl, hb⟩
  | some =>
    refine ⟨_, rfl, ?_, hb.bufSize⟩
    simpa using hb.framed

theorem Batched.step (hen : e.Enabled a) :
    (∃ e', e.next a = .ok e' ∧ Batched outBatchSize e'.sent e'.toBatch) ∨
      ∃ msgs nbytes, a = .heartbeat msgs nbytes ∧ e.ioError = true ∧
        e.next a = .error .ioError := by
  cases a with
  | outEvent => exact .inl (h.outEvent hsize hen.2)
  | heartbeat msgs nbytes =>
    cases hio : e.ioError with
    | true =>
      exact .inr ⟨msgs, nbytes, rfl, rfl, by simp only [next, OutEngine.outEvent, hio, if_true]⟩
    | false => exact .inl (h.outEvent hsize hio)
  | ioError => exact .inl ⟨_, rfl, h⟩
  | restartOutput =>
    simp only [next, restartOutput]
    split
    · exact .inl ⟨e, rfl, h⟩
    rename_i hio
    refine .inl (Batched.outEvent ?_ hsize ?_)
    · exact h
    · simpa using hio

end

/-- **Output is the concatenation of frames**: what the socket has taken, what is left of the batch
and what the encoder has still to write are the frames of the messages in the order in which they
were pulled, and no event makes an assertion fail or writes past the end of the buffer, apart from a
heartbeat after the descriptor was removed. -/
theorem output_batched {outBatchSize : Nat} (hsize : 0 < outBatchSize) {tr : List Act}
    (h : Exec Step (initial outBatchSize []) tr e) :
    e.sent ++ e.out ++ Wire.V2.frames.pending e.encoder =
        e.pulled.flatMap (fun m => Wire.V2.header m ++ m.data) ∧
      ∀ a, e.Enabled a → (∃ e', e.next a = .ok e') ∨
        ∃ msgs nbytes, a = .heartbeat msgs nbytes ∧ e.ioError = true ∧
          e.next a = .error .ioError := by
  have hb : Batched outBatchSize e.sent e.toBatch := by
    refine h.invariant (fun e => Batched outBatchSize e.sent e.toBatch) (fun e a e' hb hs => ?_)
      ⟨⟨rfl, fun _ => rfl⟩, rfl⟩
    rcases hb.step hsize hs.1 with ⟨e₁, hnext, hb'⟩ | ⟨_, _, -, -, herror⟩
    · cases hnext.symm.trans hs.2
      exact hb'
    · cases herror.symm.trans hs.2
  refine ⟨hb.framed.bytes, fun a hen => ?_⟩
  exact (hb.step hsize hen).imp_left fun ⟨e', hnext, _⟩ => ⟨e', hnext⟩

/-- A short message, and a long one in a batch of three bytes, which is not copied. -/
theorem output_batched_of_three : ∃ tr e, Exec Step (initial 3 []) tr e ∧
    e.sent = [1, 1, 7, 0, 4, 1, 2, 3, 4] ∧ ∀ a, e.Enabled a → (∃ e', e.next a = .ok e') ∨
      ∃ msgs nbytes, a = .heartbeat msgs nbytes ∧ e.ioError = true ∧
        e.next a = .error .ioError := by
  refine exists_exec_with step_of_attempt (fun e => e.sent = [1, 1, 7, 0, 4, 1, 2, 3, 4])
    [.outEvent [⟨.vsm, MsgFlag.more, [7]⟩] (some 2),
      .outEvent [⟨.vsm, 0, [1, 2, 3, 4]⟩] (some 1), .outEvent [⟨.vsm, 0, [1, 2, 3, 4]⟩] (some 9),
      .outEvent [] (some 9)] (by decide +kernel) ?_
  intro _ e hexec hsent
  exact ⟨hsent, (output_batched (by decide) hexec).2⟩

/-! ## The wake-up -/

/-- `POLLOUT` is set unless the output is stopped, and for bytes that are left in any case. -/
def Polled (e : OutEngine) : Prop :=
  e.failed = false → e.outputStopped = false ∨ e.out ≠ [] → e.pollout = true

/-- `out_event` stops the output, or leaves `POLLOUT` as it is. -/
theorem Polled.outEvent (hevent : e.outEvent msgs nbytes = .ok e')
    (h : e.failed = false → e.pollout = true ∨ e.Polled ∧
      ∀ n ∈ nbytes, ∀ b ∈ (e.renew msgs).toOption, b.out.length ≤ n) : e'.Polled := by
  unfold OutEngine.outEvent at hevent
  split at hevent
  · cases hevent
  obtain ⟨b, hb, hevent⟩ := bind_ok hevent
  split at hevent
  · rename_i hnil
    cases hevent
    rintro - (hno | hno)
    · cases hno
    · exact absurd hnil hno
  cases nbytes with
  | none =>
    cases hevent
    exact nofun
  | some =>
    cases hevent
    intro hfailed hwait
    rcases h hfailed with hp | ⟨hp, htaken⟩
    · exact hp
    · have hdrop := drop_eq_nil_of_le (htaken _ rfl b (by rw [hb]; rfl))
      exact hp hfailed (.inl (hwait.resolve_right (absurd hdrop)))

theorem Polled.step (h : e.Polled) (hs : Guarded Step Drained e a e') : e'.Polled := by
  obtain ⟨⟨hen, hnext⟩, hdrained⟩ := hs
  cases a with
  | outEvent => exact .outEvent hnext fun _ => .inl hen.1
  | heartbeat => exact .outEvent hnext fun _ => hdrained.imp_right fun htaken => ⟨h, htaken⟩
  | ioError => exact hdrained.elim
  | restartOutput =>
    simp only [next, restartOutput] at hnext
    split at hnext
    · cases hnext
      exact h
    refine .outEvent hnext fun hfailed => .inl ?_
    cases hst : e.outputStopped with
    | true => rfl
    | false => exact h hfailed (.inl hst)

/-- **Unsent bytes have a wake-up**: in runs in which the socket takes the whole batch of a
heartbeat that finds `POLLOUT` reset, it is set as long as there are bytes and no write has
failed. -/
theorem unsent_bytes_polled {outBatchSize : Nat} {greeting : Bytes} {tr : List Act}
    (h : Exec (Guarded Step Drained) (initial outBatchSize greeting) tr e) (hout : e.out ≠ [])
    (hfailed : e.failed = false) : e.pollout = true :=
  h.invariant Polled (fun _ _ _ hp hs => hp.step hs) (fun _ _ => rfl) hfailed (.inr hout)

/-- The output stops, a heartbeat is sent, and the socket takes a part of the next message. -/
theorem unsent_bytes_polled_after_ping : ∃ tr e, Exec (Guarded Step Drained) (initial 8 []) tr e ∧
    (e.out ≠ [] ∧ e.failed = false) ∧ e.pollout = true := by
  refine exists_exec_with guarded_of_attempt (fun e => e.out ≠ [] ∧ e.failed = false)
    [.outEvent [] none, .heartbeat [⟨.vsm, MsgFlag.command, [7]⟩] (some 3),
      .restartOutput [⟨.vsm, 0, [1]⟩] (some 2)] (by decide +kernel) ?_
  intro _ e hexec hleft
  exact ⟨hleft, unsent_bytes_polled hexec hleft.1 hleft.2⟩

/-- The output is stopped, and the socket takes only a part of a ping. -/
theorem ping_without_pollout : ∃ tr e, Exec Step (initial 8 []) tr e ∧
    e.out = [7] ∧ e.failed = false ∧ e.ioError = false ∧ e.pollout = false :=
  exists_exec_of_replay step_of_attempt
    [.outEvent [] none, .heartbeat [⟨.vsm, MsgFlag.command, [7]⟩] (some 2)] (by decide +kernel)

end OutEngine
end LibZmq
