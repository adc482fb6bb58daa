import LibZmq.Core.Execution
import LibZmq.Core.PortionReader
import LibZmq.Msg

/-!
# Decoders

`decoder_base_t` (`decoder.hpp`) parses a stream of bytes that arrives in chunks. A derived class
gives the actions of its state machine; each of them says with `next_step` where the next bytes go
and how many are needed. A chunk is either read directly to that place or to memory of the caller.
The engine (`stream_engine_base.cpp`) decodes it until nothing is left.

A class implements a `PortionReader` if its actions agree with it (`Implements`). Then the messages
that come out are those that the reader finds in the stream, whatever the chunks are
(`Decoder.decode_spec`, `Decoder.drain_spec`, `Receiver.tracks_decodeChunks`).
-/

namespace LibZmq.Wire

open LibZmq.Core List
open PortionReader (complete feed_append_of_error feed_append_of_ok)

/-! ## Memory -/

/-- The memory that a pointer points into. -/
inductive Region where
  /-- The member `_tmpbuf` of the decoder. -/
  | tmpbuf
  /-- The message in progress, if it has memory of its own. -/
  | message
  /-- Memory that the decoder knows nothing about. -/
  | foreign
deriving DecidableEq, Repr

structure Ptr where
  region : Region
  offset : Nat
deriving DecidableEq, Repr

namespace Ptr

def advance (p : Ptr) (n : Nat) : Ptr := { p with offset := p.offset + n }

/-- A place of the decoder's own. -/
def Home (p : Ptr) : Prop := p.region = .tmpbuf ∨ p.region = .message

end Ptr

/-! ## `decoder_base_t` -/

inductive Errno where
  | eproto
  | emsgsize
  | enomem
deriving DecidableEq, Repr

/-- What must not happen. -/
inductive DecodeFault where
  /-- `zmq_assert (size_ <= _to_read)`. -/
  | assertion
  /-- The loop over the actions does not end. -/
  | stuck
deriving DecidableEq, Repr

/-- Why decoding ends. -/
inductive Stop where
  /-- The return value -1, with the value of `errno`. -/
  | failed (errno : Errno)
  | fault (f : DecodeFault)
deriving DecidableEq, Repr

/-- The message in progress, apart from its data. -/
structure InProgress where
  type : MsgType
  size : Nat
  flags : UInt8
deriving DecidableEq, Repr

/-- `init ()`. -/
def InProgress.init : InProgress := { type := .vsm, size := 0, flags := 0 }

/-- The message when its data is there. -/
def InProgress.complete (p : InProgress) (data : Bytes) : Msg :=
  { type := p.type, flags := p.flags, data := data }

/-- An action that succeeds: the arguments of `next_step`, the state after it, and the message
if it is complete (the return value 1). -/
structure Scheduled (D : Type) where
  ready : Option Msg
  derived : D
  readPos : Ptr
  toRead : Nat

/-- The class derived from `decoder_base_t`, whose state includes `_next`. -/
structure DecoderClass (D : Type) where
  /-- The action `_next`, with the bytes that were asked for. -/
  next : D → Bytes → Except Stop (Scheduled D)

/-- `decoder_base_t`. -/
structure Decoder (D : Type) where
  derived : D
  readPos : Ptr
  /-- The bytes that were stored since the last call of `next_step`. -/
  filled : Bytes
  toRead : Nat

namespace Decoder

variable {D : Type} (cls : DecoderClass D)

/-- Bytes are stored at `_read_pos`, or found there. -/
def store (dec : Decoder D) (bytes : Bytes) : Decoder D :=
  { dec with
    readPos := dec.readPos.advance bytes.length
    filled := dec.filled ++ bytes
    toRead := dec.toRead - bytes.length }

/-- Call the action. -/
def act (dec : Decoder D) : Except Stop (Option Msg × Decoder D) :=
  (cls.next dec.derived dec.filled).map fun t => (t.ready, ⟨t.derived, t.readPos, [], t.toRead⟩)

/-- `while (!_to_read)`, with at most `n` calls. -/
def actions : Nat → Decoder D → Except Stop (Option Msg × Decoder D)
  | 0, dec => if dec.toRead = 0 then .error (.fault .stuck) else .ok (none, dec)
  | n + 1, dec =>
      if dec.toRead = 0 then
        match act cls dec with
        | .ok (none, dec') => actions n dec'
        | r => r
      else .ok (none, dec)

/-- The loop of `decode` that copies, with at most `n` rounds. `used` is `bytes_used_`, and `bytes`
is what follows in the chunk. -/
def copyLoop : Nat → Nat → Bytes → Decoder D → Except Stop (Option Msg × Nat × Decoder D)
  | _, used, [], dec => .ok (none, used, dec)
  | 0, _, _ :: _, _ => .error (.fault .stuck)
  | n + 1, used, b :: bs, dec =>
      let toCopy := min dec.toRead (b :: bs).length
      match actions cls 2 (dec.store ((b :: bs).take toCopy)) with
      | .error s => .error s
      | .ok (some m, dec') => .ok (some m, used + toCopy, dec')
      | .ok (none, dec') => copyLoop n (used + toCopy) ((b :: bs).drop toCopy) dec'

/-- `decode`: the message if one is complete, and `bytes_used_`. -/
def decode (dec : Decoder D) (data : Ptr) (bytes : Bytes) :
    Except Stop (Option Msg × Nat × Decoder D) :=
  if data = dec.readPos then
    if bytes.length ≤ dec.toRead then
      (actions cls 2 (dec.store bytes)).map fun r => (r.1, bytes.length, r.2)
    else .error (.fault .assertion)
  else copyLoop cls bytes.length 0 bytes dec

/-- The loop of the engine: decode the input until nothing is left. Returns the messages, and
the input at the end. -/
def drain : Nat → Decoder D → Ptr → Bytes → List Msg × Except Stop (Decoder D × Bytes)
  | 0, dec, _, input => ([], .ok (dec, input))
  | n + 1, dec, inpos, input =>
      if input = [] then ([], .ok (dec, input))
      else
        match decode cls dec inpos input with
        | .error s => ([], .error s)
        | .ok (none, used, dec') => ([], .ok (dec', input.drop used))
        | .ok (some m, used, dec') =>
            let rest := drain n dec' (inpos.advance used) (input.drop used)
            (m :: rest.1, rest.2)

end Decoder

/-! ## Implementing a reader -/

variable {D σ : Type}

/-- What the actions of a class do, in terms of a reader. -/
structure Implements (cls : DecoderClass D) (R : PortionReader UInt8 σ Errno Msg) where
  abs : D → σ
  /-- What the actions keep. -/
  Inv : D → Prop
  /-- A failure of the reader is a failure of the action, and a step of the reader is a step of the
  action, after which the next bytes are stored in a place of the decoder's own. -/
  next : ∀ {d portion}, Inv d → portion.length = R.need (abs d) →
    match R.next (abs d) portion with
    | .error errno => cls.next d portion = .error (.failed errno)
    | .ok (m, s') =>
        ∃ d' q, cls.next d portion = .ok ⟨m, d', q, R.need s'⟩ ∧ abs d' = s' ∧ Inv d' ∧ q.Home

namespace Decoder

variable {cls : DecoderClass D} {R : PortionReader UInt8 σ Errno Msg}

/-- The decoder waits for more, as the reader does at `c`. -/
structure At (I : Implements cls R) (dec : Decoder D) (c : Cursor UInt8 σ) : Prop where
  state : I.abs dec.derived = c.state
  got : dec.filled = c.got
  need : dec.filled.length + dec.toRead = R.need (I.abs dec.derived)
  waiting : 0 < dec.toRead
  inv : I.Inv dec.derived
  home : dec.readPos.Home

variable {I : Implements cls R} {dec : Decoder D} {c c₀ : Cursor UInt8 σ}

/-- One action on a complete portion. -/
theorem act_spec (dec : Decoder D) (hfull : dec.filled.length = R.need (I.abs dec.derived))
    (hinv : I.Inv dec.derived) :
    match R.next (I.abs dec.derived) dec.filled with
    | .error errno => act cls dec = .error (.failed errno)
    | .ok (m, s') => ∃ d q, act cls dec = .ok (m, ⟨d, q, [], R.need s'⟩) ∧ I.abs d = s' ∧
        I.Inv d ∧ q.Home := by
  have hact := I.next hinv hfull
  split at hact
  · exact congrArg (Except.map _) hact
  · obtain ⟨d, q, hact, hrest⟩ := hact
    exact ⟨d, q, congrArg (Except.map _) hact, hrest⟩

/-- The actions on a complete portion. If the portion that follows is empty, there are two. -/
theorem actions_spec (hR : R.Progressive) (hfull : dec.filled.length = R.need (I.abs dec.derived))
    (hzero : dec.toRead = 0) (hinv : I.Inv dec.derived) :
    match R.complete (I.abs dec.derived) dec.filled with
    | .error errno => actions cls 2 dec = .error (.failed errno)
    | .ok (m, s') => ∃ dec', actions cls 2 dec = .ok (m, dec') ∧ At I dec' ⟨s', []⟩ := by
  have hact := act_spec dec hfull hinv
  rw [complete, actions, if_pos hzero]
  cases hnext : R.next (I.abs dec.derived) dec.filled with
  | error =>
    rw [hnext] at hact
    simp only [hact]
  | ok r =>
    obtain ⟨m, s'⟩ := r
    rw [hnext] at hact
    obtain ⟨d, q, hact, rfl, hinv', hhome⟩ := hact
    rw [hact]
    cases m with
    | some => exact ⟨_, rfl, rfl, rfl, by simp, hR.message _ _ _ _ hnext, hinv', hhome⟩
    | none =>
      simp only [actions]
      by_cases hneed : R.need (I.abs d) = 0
      · rw [if_pos hneed, if_pos hneed]
        have hsecond := act_spec ⟨d, q, [], R.need (I.abs d)⟩ hneed.symm hinv'
        cases hnext' : R.next (I.abs d) [] with
        | error =>
          rw [hnext'] at hsecond
          simp only [hsecond]
        | ok r =>
          obtain ⟨m', s''⟩ := r
          rw [hnext'] at hsecond
          obtain ⟨d', q', hact', rfl, hinv'', hhome'⟩ := hsecond
          rw [hact']
          cases m' with
          | none => exact absurd hnext' (hR.zero _ _ hneed)
          | some => exact ⟨_, rfl, rfl, rfl, by simp, hR.message _ _ _ _ hnext', hinv'', hhome'⟩
      · rw [if_neg hneed, if_neg hneed]
        exact ⟨_, rfl, rfl, rfl, by simp, Nat.pos_of_ne_zero hneed, hinv', hhome⟩

/-- A call of `decode` on a chunk that starts at `data`. -/
inductive Decodes (I : Implements cls R) (c : Cursor UInt8 σ) (data : Ptr) (bytes : Bytes) :
    Except Stop (Option Msg × Nat × Decoder D) → Prop
  | failed {errno : Errno} : R.feed c bytes = ([], .error errno) →
      Decodes I c data bytes (.error (.failed errno))
  | more {c' : Cursor UInt8 σ} {dec' : Decoder D} : R.feed c bytes = ([], .ok c') →
      At I dec' c' → Decodes I c data bytes (.ok (none, bytes.length, dec'))
  | message {c' : Cursor UInt8 σ} {dec' : Decoder D} {m : Msg} {used : Nat} : 0 < used →
      used ≤ bytes.length → R.feed c (bytes.take used) = ([m], .ok c') → At I dec' c' →
      used = bytes.length ∨ ¬ data.Home → Decodes I c data bytes (.ok (some m, used, dec'))

variable {bytes : Bytes} {data : Ptr}

theorem At.store (h : At I dec c) (hlt : bytes.length < dec.toRead) :
    At I (dec.store bytes) ⟨c.state, c.got ++ bytes⟩ := by
  refine ⟨h.state, by rw [Decoder.store, h.got], ?_, Nat.sub_pos_of_lt hlt, h.inv, h.home⟩
  have := h.need
  simp only [Decoder.store, length_append] at this ⊢
  omega

theorem At.feed_short (h : At I dec c) (hlt : bytes.length < dec.toRead) :
    R.feed c bytes = ([], .ok ⟨c.state, c.got ++ bytes⟩) := by
  refine PortionReader.feed_short bytes ?_
  rw [← h.state, ← h.got, ← h.need]
  omega

/-- The rest of a portion: what the reader makes of it, and what the actions do. -/
theorem At.completed (hR : R.Progressive) (h : At I dec c) (bytes : Bytes)
    (hlen : bytes.length = dec.toRead) :
    (∃ errno, R.feed c bytes = ([], .error errno) ∧
      actions cls 2 (dec.store bytes) = .error (.failed errno)) ∨
    ∃ m c' dec', R.feed c bytes = (m.toList, .ok c') ∧
      actions cls 2 (dec.store bytes) = .ok (m, dec') ∧ At I dec' c' := by
  have hneed := h.need
  have hne : bytes ≠ [] := ne_nil_of_length_pos (hlen ▸ h.waiting)
  have hportion : c.got.length + bytes.length = R.need c.state := by
    rw [← h.state, ← h.got, hlen]
    exact hneed
  have hfull : (dec.store bytes).filled.length = R.need (I.abs (dec.store bytes).derived) := by
    simp only [Decoder.store, length_append]
    omega
  have hact := actions_spec hR hfull (Nat.sub_eq_zero_of_le (Nat.le_of_eq hlen.symm)) h.inv
  rw [PortionReader.feed_portion hne hportion]
  simp only [Decoder.store, h.state, h.got] at hact ⊢
  cases hc : R.complete c.state (c.got ++ bytes) with
  | error errno =>
    rw [hc] at hact
    exact .inl ⟨errno, rfl, hact⟩
  | ok r =>
    rw [hc] at hact
    obtain ⟨dec', hact, hat⟩ := hact
    exact .inr ⟨r.1, ⟨r.2, []⟩, dec', rfl, hact, hat⟩

/-- The loop, when `pre` has been consumed without a message. -/
theorem copyLoop_spec (hR : R.Progressive) (hdata : ¬ data.Home) (fuel : Nat)
    (pre bytes : Bytes) (dec : Decoder D) (c : Cursor UInt8 σ) (hfuel : bytes.length ≤ fuel)
    (h : At I dec c) (hfed : R.feed c₀ pre = ([], .ok c)) :
    Decodes I c₀ data (pre ++ bytes) (copyLoop cls fuel pre.length bytes dec) := by
  induction fuel generalizing pre bytes dec c with
  | zero =>
    obtain rfl : bytes = [] := length_eq_zero_iff.mp (by omega)
    rw [append_nil]
    exact .more hfed h
  | succ _ ih =>
    cases bytes with
    | nil =>
      rw [append_nil]
      exact .more hfed h
    | cons b bs =>
      rw [copyLoop]
      generalize hbytes : b :: bs = bytes at *
      by_cases hshort : bytes.length < dec.toRead
      · -- the chunk ends within the portion
        have hstored := h.store hshort
        have hmore : ¬ (dec.store bytes).toRead = 0 := Nat.ne_of_gt hstored.waiting
        rw [Nat.min_eq_right (Nat.le_of_lt hshort), take_length, drop_length]
        simp only [actions, if_neg hmore, copyLoop]
        rw [← length_append]
        refine .more ?_ hstored
        rw [feed_append_of_ok hfed, h.feed_short hshort]
        rfl
      have hle : dec.toRead ≤ bytes.length := Nat.le_of_not_lt hshort
      have hpos := h.waiting
      rw [Nat.min_eq_left hle]
      obtain ⟨xs, ys, hxs, hys, hlen⟩ : ∃ xs ys, bytes.take dec.toRead = xs ∧
          bytes.drop dec.toRead = ys ∧ xs.length = dec.toRead :=
        ⟨_, _, rfl, rfl, length_take_of_le hle⟩
      have hsplit : bytes = xs ++ ys := by rw [← hxs, ← hys, take_append_drop]
      have hrest : ys.length = bytes.length - dec.toRead := by rw [← hys, length_drop]
      rw [hxs, hys, hsplit, ← append_assoc]
      -- the portion is complete, and its action is run
      rcases h.completed hR xs hlen with ⟨errno, hfeed, hact⟩ | ⟨m, c', dec', hfeed, hact, hat⟩
      · rw [hact]
        refine .failed (feed_append_of_error ?_)
        rw [feed_append_of_ok hfed, hfeed]
        rfl
      · have hlen' : pre.length + dec.toRead = (pre ++ xs).length := by rw [length_append, hlen]
        have hfed' : R.feed c₀ (pre ++ xs) = (m.toList, .ok c') := by
          rw [feed_append_of_ok hfed, hfeed]
          rfl
        rw [hact, hlen']
        cases m with
        | none => exact ih (pre ++ xs) ys dec' c' (by omega) hat hfed'
        | some =>
          exact .message (by omega) (by simp) (by rw [take_left]; exact hfed') hat (.inr hdata)

/-- A chunk may be decoded: it was read to the place that the decoder asked for, or it is somewhere
else. -/
def Accepts (dec : Decoder D) (data : Ptr) (n : Nat) : Prop :=
  data = dec.readPos ∧ n ≤ dec.toRead ∨ ¬ data.Home

theorem decode_spec (hR : R.Progressive) (h : At I dec c)
    (haccepts : dec.Accepts data bytes.length) :
    Decodes I c data bytes (dec.decode cls data bytes) := by
  rw [decode]
  by_cases hdirect : data = dec.readPos
  · have hle : bytes.length ≤ dec.toRead := by
      rcases haccepts with ⟨-, hle⟩ | hno
      · exact hle
      · exact absurd (hdirect ▸ h.home) hno
    rw [if_pos hdirect, if_pos hle]
    by_cases hshort : bytes.length < dec.toRead
    · have hstored := h.store hshort
      have hmore : ¬ (dec.store bytes).toRead = 0 := Nat.ne_of_gt hstored.waiting
      simp only [actions, if_neg hmore]
      exact .more (h.feed_short hshort) hstored
    have hpos := h.waiting
    rcases h.completed hR bytes (by omega) with
      ⟨errno, hfeed, hact⟩ | ⟨m, c', dec', hfeed, hact, hat⟩
    · rw [hact]
      exact .failed hfeed
    · rw [hact]
      cases m with
      | none => exact .more hfeed hat
      | some =>
        exact .message (by omega) Nat.le.refl (by rw [take_length]; exact hfeed) hat (.inl rfl)
  · rw [if_neg hdirect]
    have hdata : ¬ data.Home := haccepts.resolve_left fun hin => hdirect hin.1
    exact copyLoop_spec hR hdata bytes.length [] bytes dec c Nat.le.refl h rfl

/-- The loop of the engine. -/
inductive Drains (I : Implements cls R) (c : Cursor UInt8 σ) (input : Bytes) :
    List Msg × Except Stop (Decoder D × Bytes) → Prop
  | failed {ms : List Msg} {errno : Errno} : R.feed c input = (ms, .error errno) →
      Drains I c input (ms, .error (.failed errno))
  | more {ms : List Msg} {c' : Cursor UInt8 σ} {dec' : Decoder D} :
      R.feed c input = (ms, .ok c') → At I dec' c' → Drains I c input (ms, .ok (dec', []))

theorem drain_spec (hR : R.Progressive) (fuel : Nat) (dec : Decoder D) (c : Cursor UInt8 σ)
    (inpos : Ptr) (input : Bytes) (hfuel : input.length ≤ fuel) (h : At I dec c)
    (haccepts : input ≠ [] → dec.Accepts inpos input.length) :
    Drains I c input (drain cls fuel dec inpos input) := by
  induction fuel generalizing dec c inpos input with
  | zero =>
    obtain rfl : input = [] := length_eq_zero_iff.mp (by omega)
    exact .more rfl h
  | succ fuel ih =>
    rw [drain]
    by_cases hnil : input = []
    · subst hnil
      exact .more rfl h
    rw [if_neg hnil]
    have hdec := decode_spec hR h (haccepts hnil)
    generalize decode cls dec inpos input = r at hdec
    cases hdec with
    | failed hfeed => exact .failed hfeed
    | more hfeed hat =>
      simp only [drop_length]
      exact .more hfeed hat
    | @message c' dec' m used hpos hle hfeed hat hend =>
      have hsplit : R.feed c input = (m :: (R.feed c' (input.drop used)).1,
          (R.feed c' (input.drop used)).2) := by
        rw [← singleton_append, ← feed_append_of_ok hfeed, take_append_drop]
      have hlen : (input.drop used).length = input.length - used := length_drop
      have haccepts' : input.drop used ≠ [] →
          dec'.Accepts (inpos.advance used) (input.drop used).length := by
        intro hleft
        have hnot : used ≠ input.length := fun heq => hleft (by rw [heq, drop_length])
        exact .inr (hend.resolve_left hnot)
      have hrest := ih dec' c' (inpos.advance used) (input.drop used) (by omega) hat haccepts'
      simp only
      generalize drain cls fuel dec' (inpos.advance used) (input.drop used) = r at hrest
      cases hrest with
      | failed hfeed' => exact .failed (by rw [hsplit, hfeed'])
      | more hfeed' hat' => exact .more (by rw [hsplit, hfeed']) hat'

end Decoder

/-! ## Runs -/

/-- The receiving side of an engine that accepts every message. -/
structure Receiver (D : Type) where
  decoder : Decoder D
  /-- The bytes at `_inpos`; `_insize` is their number. -/
  input : Bytes
  received : List Msg
  stopped : Option Stop

namespace Receiver

def start (dec : Decoder D) : Receiver D :=
  { decoder := dec, input := [], received := [], stopped := none }

variable (cls : DecoderClass D)

/-- The result of decoding. After a failure the connection is torn down. -/
def absorb (r : Receiver D) : List Msg × Except Stop (Decoder D × Bytes) → Receiver D
  | (ms, .ok (dec, input)) =>
      { decoder := dec, input := input, received := r.received ++ ms, stopped := none }
  | (ms, .error stop) => { r with received := r.received ++ ms, stopped := some stop }

/-- Decode a chunk that the caller has read to `_read_pos`, if `direct` is set and the decoder waits
for so much, and to memory of its own otherwise. -/
def decodeChunk (r : Receiver D) (direct : Bool) (chunk : Bytes) : Receiver D :=
  if r.stopped = none then
    r.absorb (r.decoder.drain cls chunk.length
      (if direct = true ∧ chunk.length ≤ r.decoder.toRead then r.decoder.readPos
        else ⟨.foreign, 0⟩) chunk)
  else r

/-- Decode the chunks one after the other. -/
def decodeChunks (r : Receiver D) (chunks : List (Bool × Bytes)) : Receiver D :=
  chunks.foldl (fun r chunk => r.decodeChunk cls chunk.1 chunk.2) r

variable {cls} {R : PortionReader UInt8 σ Errno Msg}

/-- What was received is what the reader finds in the stream. -/
inductive Tracks (I : Implements cls R) (c₀ : Cursor UInt8 σ) (stream : Bytes) :
    Receiver D → Prop
  | failed {r : Receiver D} {errno : Errno} : R.feed c₀ stream = (r.received, .error errno) →
      r.stopped = some (.failed errno) → Tracks I c₀ stream r
  | waits {r : Receiver D} {c : Cursor UInt8 σ} : R.feed c₀ stream = (r.received, .ok c) →
      r.decoder.At I c → r.input = [] → r.stopped = none → Tracks I c₀ stream r

variable {I : Implements cls R} {r r' : Receiver D} {c c₀ : Cursor UInt8 σ}
  {stream chunk : Bytes} {res : List Msg × Except Stop (Decoder D × Bytes)}

theorem Tracks.absorb (hfeed : R.feed c₀ stream = (r.received, .ok c))
    (h : Decoder.Drains I c chunk res) : Tracks I c₀ (stream ++ chunk) (r.absorb res) := by
  have hall : R.feed c₀ (stream ++ chunk) =
      (r.received ++ (R.feed c chunk).1, (R.feed c chunk).2) := feed_append_of_ok hfeed
  cases h with
  | failed hend => exact .failed (by rw [hall, hend]; rfl) rfl
  | more hend hat => exact .waits (by rw [hall, hend]; rfl) hat rfl rfl

/-- **What was received is what the reader finds in the bytes that arrived, in whatever chunks.** -/
theorem tracks_decodeChunks (hR : R.Progressive) (chunks : List (Bool × Bytes))
    (h : Tracks I c₀ stream r) :
    Tracks I c₀ (stream ++ chunks.flatMap Prod.snd) (r.decodeChunks cls chunks) := by
  induction chunks generalizing r stream with
  | nil =>
    rw [flatMap_nil, append_nil]
    exact h
  | cons chunk _ ih =>
    rw [flatMap_cons, ← append_assoc, decodeChunks, foldl_cons]
    refine ih ?_
    rw [decodeChunk]
    cases h with
    | failed hfeed hstop =>
      rw [if_neg (by rw [hstop]; simp)]
      exact .failed (feed_append_of_error hfeed) hstop
    | @waits c hfeed hat _ hrun =>
      rw [if_pos hrun]
      refine .absorb hfeed (Decoder.drain_spec hR chunk.2.length _ c _ chunk.2 Nat.le.refl hat
        fun _ => ?_)
      split
      · rename_i hdirect
        exact .inl ⟨rfl, hdirect.2⟩
      · exact .inr (by simp [Ptr.Home])

end Receiver
end LibZmq.Wire
