import LibZmq.Wire.Bytes
import LibZmq.Wire.Decoder
import LibZmq.Wire.Encoder

/-!
# The framing of ZMTP 1.0

A frame is a length, a byte of flags and the payload (`v1_encoder.cpp`, `v1_decoder.cpp`). The
length counts the flags; it is one byte, or the byte 255 and eight more bytes.

`Parse` is the grammar: how a string of bytes begins with frames, and why it does not go on.
Every string has one parse, and the decoder finds it, however the string is cut into chunks
(`framing`).
-/

namespace LibZmq.Wire.V1

open LibZmq.Core PortionReader List
open MsgFlag (more)

/-! ## `v1_encoder_t` -/

/-- The bytes that `message_ready` writes. -/
def header (m : Msg) : Bytes :=
  -- the flags are counted
  let size := m.data.length + 1
  if size < 255 then [UInt8.ofNat size, m.flags &&& MsgFlag.more]
  else 255 :: putUint64 (UInt64.ofNat size) ++ [m.flags &&& MsgFlag.more]

/-- `v1_encoder_t`. -/
def encoder : EncoderClass Write := headerEncoder header

theorem header_ne_nil (m : Msg) : header m ≠ [] := by
  unfold header
  simp only
  split <;> simp

def frames : Frames encoder := headerFrames header header_ne_nil

/-! ## `v1_decoder_t` -/

/-- The member `_next` of the decoder. -/
inductive Read where
  | oneByteSizeReady
  | eightByteSizeReady
  | flagsReady
  | messageReady
deriving DecidableEq, Repr

/-- The members of `v1_decoder_t`. -/
structure State where
  next : Read
  inProgress : InProgress
  maxMsgSize : Int
deriving DecidableEq, Repr

variable (malloc : Nat → Bool)

/-- The next bytes go to `_tmpbuf`. -/
def toTmpbuf (d : State) (toRead : Nat) : Scheduled State :=
  { ready := none, derived := d, readPos := ⟨.tmpbuf, 0⟩, toRead := toRead }

/-- The message is initialised for its size, and the flags are read. -/
def initSize (d : State) (size : Nat) :
    Except Stop (Scheduled State) :=
  match Msg.initSize malloc size with
  | none => .error (.failed .enomem)
  | some type =>
      .ok (toTmpbuf { d with next := .flagsReady, inProgress := ⟨type, size, 0⟩ } 1)

def oneByteSizeReady (d : State) (tmpbuf : Bytes) :
    Except Stop (Scheduled State) :=
  let first := tmpbuf.headD 0
  if first = 255 then .ok (toTmpbuf { d with next := .eightByteSizeReady } 8)
  else if first = 0 then .error (.failed .eproto)
  else if 0 ≤ d.maxMsgSize ∧ d.maxMsgSize < (first.toNat : Int) - 1 then
    .error (.failed .emsgsize)
  else initSize malloc d (first.toNat - 1)

def eightByteSizeReady (d : State) (tmpbuf : Bytes) :
    Except Stop (Scheduled State) :=
  let payloadLength := getUint64 tmpbuf
  if payloadLength = 0 then .error (.failed .eproto)
  else if 0 ≤ d.maxMsgSize ∧ d.maxMsgSize.toNat < (payloadLength - 1).toNat then
    .error (.failed .emsgsize)
  -- the largest value of `size_t`
  else if 2 ^ 64 - 1 < (payloadLength - 1).toNat then .error (.failed .emsgsize)
  else initSize malloc d (payloadLength - 1).toNat

def flagsReady (d : State) (tmpbuf : Bytes) :
    Except Stop (Scheduled State) :=
  let inProgress := { d.inProgress with flags := tmpbuf.headD 0 &&& MsgFlag.more }
  .ok { ready := none, derived := { d with next := .messageReady, inProgress := inProgress }
        readPos := ⟨.message, 0⟩, toRead := inProgress.size }

def messageReady (d : State) (data : Bytes) :
    Except Stop (Scheduled State) :=
  .ok { ready := some (d.inProgress.complete data), derived := { d with next := .oneByteSizeReady }
        readPos := ⟨.tmpbuf, 0⟩, toRead := 1 }

/-- `v1_decoder_t`. -/
def decoder : DecoderClass State where
  next d bytes :=
    match d.next with
    | .oneByteSizeReady => oneByteSizeReady malloc d bytes
    | .eightByteSizeReady => eightByteSizeReady malloc d bytes
    | .flagsReady => flagsReady d bytes
    | .messageReady => messageReady d bytes

def newDecoder (maxMsgSize : Int) : Decoder State :=
  { derived := { next := .oneByteSizeReady, inProgress := .init, maxMsgSize := maxMsgSize }
    readPos := ⟨.tmpbuf, 0⟩
    filled := []
    toRead := 1 }

/-! ## The grammar -/

/-- A length and the bytes that encode it. -/
inductive Length : Bytes → Nat → Prop
  | short {b : UInt8} : b ≠ 255 → Length [b] b.toNat
  | long {bytes : Bytes} : bytes.length = 8 → Length (255 :: bytes) (bigEndian bytes)

/-- Why a length is not accepted. -/
def refusal (maxMsgSize : Int) (length : Nat) : Option Errno :=
  if length = 0 then some .eproto
  else if 0 ≤ maxMsgSize ∧ maxMsgSize < (length : Int) - 1 then some .emsgsize
  else if Msg.initSize malloc (length - 1) = none then some .enomem
  else none

/-- The message with these flags and this payload. -/
def message (flags : UInt8) (payload : Bytes) : Msg :=
  { type := if payload.length ≤ Msg.maxVsmSize then .vsm else .lmsg
    flags := flags &&& MsgFlag.more
    data := payload }

/-- A frame, with its length and its message. -/
inductive Frame : Bytes → Nat → Msg → Prop
  | mk {len payload : Bytes} {flags : UInt8} : Length len (payload.length + 1) →
      Frame (len ++ flags :: payload) (payload.length + 1) (message flags payload)

inductive Outcome where
  | needsMore
  | fails (errno : Errno)
deriving DecidableEq, Repr

/-- A string consists of accepted frames, and then it ends within a frame or goes on with
a length that is not accepted. -/
inductive Parse (maxMsgSize : Int) : Bytes → List Msg → Outcome → Prop
  | frame {bytes rest : Bytes} {length : Nat} {m : Msg} {ms : List Msg} {o : Outcome} :
      Frame bytes length m → refusal malloc maxMsgSize length = none →
      Parse maxMsgSize rest ms o → Parse maxMsgSize (bytes ++ rest) (m :: ms) o
  | refused {len rest : Bytes} {length : Nat} {errno : Errno} : Length len length →
      refusal malloc maxMsgSize length = some errno →
      Parse maxMsgSize (len ++ rest) [] (.fails errno)
  | incomplete {bytes : Bytes} :
      (∀ len rest length, bytes = len ++ rest → Length len length →
        refusal malloc maxMsgSize length = none) →
      (∀ frame rest length m, bytes = frame ++ rest → ¬ Frame frame length m) →
      Parse maxMsgSize bytes [] .needsMore

/-! ## The decoder as a reader -/

/-- What the decoder waits for. -/
inductive Waits where
  | length
  | longLength
  | flags (p : InProgress)
  | payload (p : InProgress)
deriving DecidableEq, Repr

/-- The message that a length announces. -/
def announced (length : Nat) : InProgress :=
  { type := if length - 1 ≤ Msg.maxVsmSize then .vsm else .lmsg, size := length - 1, flags := 0 }

/-- A length is known. -/
def begins (maxMsgSize : Int) (length : Nat) : Except Errno (Option Msg × Waits) :=
  match refusal malloc maxMsgSize length with
  | some errno => .error errno
  | none => .ok (none, .flags (announced length))

def reader (maxMsgSize : Int) : PortionReader UInt8 Waits Errno Msg where
  need
    | .length => 1
    | .longLength => 8
    | .flags _ => 1
    | .payload p => p.size
  next
    | .length, bytes =>
        if bytes.headD 0 = 255 then .ok (none, .longLength)
        else begins malloc maxMsgSize (bytes.headD 0).toNat
    | .longLength, bytes => begins malloc maxMsgSize (bigEndian bytes)
    | .flags p, bytes =>
        .ok (none, .payload { p with flags := bytes.headD 0 &&& MsgFlag.more })
    | .payload p, bytes => .ok (some (p.complete bytes), .length)

variable {malloc} {maxMsgSize : Int}

theorem initSize_eq {type : MsgType} (h : Msg.initSize malloc size = some type) :
    type = if size ≤ Msg.maxVsmSize then .vsm else .lmsg := by
  rw [Msg.initSize] at h
  split at h
  · rename_i hsmall
    rw [if_pos hsmall]
    exact (Option.some.inj h).symm
  rename_i hlarge
  rw [if_neg hlarge]
  split at h
  · exact (Option.some.inj h).symm
  · cases h

variable {length : Nat} {bytes len : Bytes} {m : Msg}

/-- What the decoder does when a length is known. -/
def sized (malloc : Nat → Bool) (d : State) (length : Nat) : Except Stop (Scheduled State) :=
  match refusal malloc d.maxMsgSize length with
  | some errno => .error (.failed errno)
  | none => .ok (toTmpbuf { d with next := .flagsReady, inProgress := announced length } 1)

/-- The checks that both actions for a length make. -/
theorem initSize_eq_sized {d : State} (hpos : length ≠ 0)
    (hfits : ¬ (0 ≤ d.maxMsgSize ∧ d.maxMsgSize < (length : Int) - 1)) :
    initSize malloc d (length - 1) = sized malloc d length := by
  rw [initSize, sized, refusal, if_neg hpos, if_neg hfits]
  cases hinit : Msg.initSize malloc (length - 1) with
  | none => simp
  | some => simp [announced, initSize_eq hinit]

theorem oneByteSizeReady_eq_sized (d : State) (hbyte : bytes.headD 0 ≠ 255) :
    oneByteSizeReady malloc d bytes = sized malloc d (bytes.headD 0).toNat := by
  rw [oneByteSizeReady]
  simp only [if_neg hbyte]
  by_cases hzero : bytes.headD 0 = 0
  · rw [if_pos hzero, sized, refusal, hzero, if_pos (by rfl)]
  have hpos : (bytes.headD 0).toNat ≠ 0 := fun h => hzero (UInt8.toNat_inj.mp h)
  rw [if_neg hzero]
  by_cases hlarge : 0 ≤ d.maxMsgSize ∧ d.maxMsgSize < ((bytes.headD 0).toNat : Int) - 1
  · rw [if_pos hlarge, sized, refusal, if_neg hpos, if_pos hlarge]
  · rw [if_neg hlarge, initSize_eq_sized hpos hlarge]

theorem eightByteSizeReady_eq_sized (d : State) (hlen : bytes.length = 8) :
    eightByteSizeReady malloc d bytes = sized malloc d (bigEndian bytes) := by
  have hvalue := toNat_getUint64 hlen
  rw [eightByteSizeReady]
  by_cases hzero : getUint64 bytes = 0
  · have : bigEndian bytes = 0 := by rw [← hvalue, hzero]; rfl
    rw [if_pos hzero, sized, refusal, if_pos this]
  have hpos : bigEndian bytes ≠ 0 := by
    rw [← hvalue]
    exact fun h => hzero (UInt64.toNat_inj.mp h)
  have hle : (1 : UInt64) ≤ getUint64 bytes := by
    rw [UInt64.le_iff_toNat_le, hvalue]
    exact Nat.pos_of_ne_zero hpos
  have hpred : (getUint64 bytes - 1).toNat = bigEndian bytes - 1 := by
    rw [UInt64.toNat_sub_of_le _ _ hle, hvalue]
    rfl
  have hmax : ¬ 2 ^ 64 - 1 < bigEndian bytes - 1 := by
    have := (getUint64 bytes).toNat_lt
    omega
  rw [if_neg hzero, hpred, if_neg hmax]
  by_cases hlarge : 0 ≤ d.maxMsgSize ∧ d.maxMsgSize < (bigEndian bytes : Int) - 1
  · rw [if_pos (by omega), sized, refusal, if_neg hpos, if_pos hlarge]
  · rw [if_neg (by omega), initSize_eq_sized hpos hlarge]

theorem begins_ne_message (m : Msg) (s : Waits) :
    begins malloc maxMsgSize length ≠ .ok (some m, s) := by
  rw [begins]
  split <;> nofun

theorem progressive : (reader malloc maxMsgSize).Progressive where
  zero := by
    intro s s' hneed
    cases s with
    | payload => simp [reader]
    | length | longLength | flags => simp [reader] at hneed
  message := by
    intro s _ m _ h
    cases s with
    | payload =>
      cases h
      exact Nat.one_pos
    | length =>
      simp only [reader] at h
      split at h
      · cases h
      · exact absurd h (begins_ne_message _ _)
    | longLength => exact absurd h (begins_ne_message _ _)
    | flags => cases h

/-- What the decoder waits for in a state. -/
def State.waits (d : State) : Waits :=
  match d.next with
  | .oneByteSizeReady => .length
  | .eightByteSizeReady => .longLength
  | .flagsReady => .flags d.inProgress
  | .messageReady => .payload d.inProgress

/-- The decoder reads what the reader reads. -/
def implements (malloc : Nat → Bool) (maxMsgSize : Int) :
    Implements (decoder malloc) (reader malloc maxMsgSize) where
  abs := State.waits
  Inv d := d.maxMsgSize = maxMsgSize
  next := by
    rintro d portion rfl hlen
    cases hnext : d.next with
    | oneByteSizeReady =>
      simp only [State.waits, hnext, reader, decoder]
      by_cases hbyte : portion.headD 0 = 255
      · simp only [oneByteSizeReady, if_pos hbyte]
        exact ⟨_, _, rfl, rfl, rfl, .inl rfl⟩
      · rw [if_neg hbyte, oneByteSizeReady_eq_sized d hbyte, begins, sized]
        cases refusal malloc d.maxMsgSize (portion.headD 0).toNat with
        | some => rfl
        | none => exact ⟨_, _, rfl, rfl, rfl, .inl rfl⟩
    | eightByteSizeReady =>
      simp only [State.waits, hnext, reader, decoder] at hlen ⊢
      rw [eightByteSizeReady_eq_sized d hlen, begins, sized]
      cases refusal malloc d.maxMsgSize (bigEndian portion) with
      | some => rfl
      | none => exact ⟨_, _, rfl, rfl, rfl, .inl rfl⟩
    | flagsReady =>
      simp only [State.waits, hnext, reader, decoder, flagsReady]
      exact ⟨_, _, rfl, rfl, rfl, .inr rfl⟩
    | messageReady =>
      simp only [State.waits, hnext, reader, decoder, messageReady]
      exact ⟨_, _, rfl, rfl, rfl, .inl rfl⟩

/-- The constructor leaves the decoder where the reader starts. -/
theorem newDecoder_at (malloc : Nat → Bool) (maxMsgSize : Int) :
    (newDecoder maxMsgSize).At (implements malloc maxMsgSize) ⟨.length, []⟩ :=
  ⟨rfl, rfl, rfl, Nat.one_pos, rfl, .inl rfl⟩

/-! ## The reader finds the parse -/

theorem feed_longLength : (reader malloc maxMsgSize).feed ⟨.length, []⟩ [255] =
    ([], .ok ⟨.longLength, []⟩) :=
  feed_of_step rfl Nat.one_pos rfl (Nat.succ_pos 7)

theorem feed_length (h : Length len length) :
    (reader malloc maxMsgSize).feed ⟨.length, []⟩ len = match refusal malloc maxMsgSize length with
      | some errno => ([], .error errno)
      | none => ([], .ok ⟨.flags (announced length), []⟩) := by
  cases h with
  | @short b hb =>
    have hnext : (reader malloc maxMsgSize).next .length [b] =
        begins malloc maxMsgSize b.toNat := if_neg hb
    cases hrefusal : refusal malloc maxMsgSize b.toNat with
    | none =>
      exact feed_of_step rfl Nat.one_pos (by rw [hnext, begins, hrefusal]) Nat.one_pos
    | some =>
      exact feed_of_error rfl Nat.one_pos (by rw [hnext, begins, hrefusal])
  | @long bytes hlen =>
    have hnext : (reader malloc maxMsgSize).next .longLength bytes =
        begins malloc maxMsgSize (bigEndian bytes) := rfl
    rw [← singleton_append, feed_append_of_ok feed_longLength]
    cases hrefusal : refusal malloc maxMsgSize (bigEndian bytes) with
    | none =>
      rw [feed_of_step hlen (Nat.succ_pos 7) (by rw [hnext, begins, hrefusal]) Nat.one_pos]
      rfl
    | some =>
      rw [feed_of_error hlen (Nat.succ_pos 7) (by rw [hnext, begins, hrefusal])]
      rfl

theorem feed_refused (h : Length len length)
    (hrefused : refusal malloc maxMsgSize length = some errno) :
    (reader malloc maxMsgSize).feed ⟨.length, []⟩ len = ([], .error errno) := by
  rw [feed_length h, hrefused]

theorem feed_accepted (h : Length len length)
    (haccepted : refusal malloc maxMsgSize length = none) :
    (reader malloc maxMsgSize).feed ⟨.length, []⟩ len =
      ([], .ok ⟨.flags (announced length), []⟩) := by
  rw [feed_length h, haccepted]

theorem feed_frame (h : Frame bytes length m)
    (haccepted : refusal malloc maxMsgSize length = none) :
    (reader malloc maxMsgSize).feed ⟨.length, []⟩ bytes = ([m], .ok ⟨.length, []⟩) := by
  cases h with
  | @mk len payload flags hlen =>
    have hbody : (reader malloc maxMsgSize).feed ⟨.flags (announced (payload.length + 1)), []⟩
        ([flags] ++ payload) = ([message flags payload], .ok ⟨.length, []⟩) :=
      feed_of_step_message rfl Nat.one_pos rfl rfl rfl
    rw [← singleton_append, feed_append_of_ok (feed_accepted hlen haccepted), hbody]
    rfl

/-- A string begins with a length, or it is too short. -/
theorem length_or_short (malloc : Nat → Bool) (maxMsgSize : Int) (bytes : Bytes) :
    (∃ len rest length, bytes = len ++ rest ∧ Length len length) ∨
      ∃ c, (reader malloc maxMsgSize).feed ⟨.length, []⟩ bytes = ([], .ok c) := by
  cases bytes with
  | nil => exact .inr ⟨_, rfl⟩
  | cons b rest =>
    by_cases hb : b = 255
    · subst hb
      by_cases hshort : rest.length < 8
      · refine .inr ⟨⟨.longLength, rest⟩, ?_⟩
        rw [← singleton_append, feed_append_of_ok feed_longLength,
          feed_short rest (by simpa [reader] using hshort)]
        rfl
      · have hlen : (rest.take 8).length = 8 := length_take_of_le (by omega)
        refine .inl ⟨255 :: rest.take 8, rest.drop 8, _, ?_, .long hlen⟩
        rw [cons_append, take_append_drop]
    · exact .inl ⟨[b], rest, _, rfl, .short hb⟩

/-- A string begins with a frame or with a length that is not accepted, or it is too short. -/
theorem frame_or_refused_or_short (malloc : Nat → Bool) (maxMsgSize : Int) (bytes : Bytes) :
    (∃ frame rest length m, bytes = frame ++ rest ∧ Frame frame length m ∧
        refusal malloc maxMsgSize length = none) ∨
      (∃ len rest length errno, bytes = len ++ rest ∧ Length len length ∧
        refusal malloc maxMsgSize length = some errno) ∨
      ∃ c, (reader malloc maxMsgSize).feed ⟨.length, []⟩ bytes = ([], .ok c) := by
  rcases length_or_short malloc maxMsgSize bytes with ⟨len, rest, length, rfl, hlen⟩ | hshort
  · cases hrefusal : refusal malloc maxMsgSize length with
    | some errno => exact .inr (.inl ⟨len, rest, length, errno, rfl, hlen, hrefusal⟩)
    | none =>
      have hfed := feed_accepted hlen hrefusal
      cases rest with
      | nil =>
        rw [append_nil]
        exact .inr (.inr ⟨_, hfed⟩)
      | cons flags rest =>
        by_cases hshort : rest.length < length - 1
        · have hstep : (reader malloc maxMsgSize).feed ⟨.flags (announced length), []⟩ [flags] =
              ([], .ok ⟨.payload { announced length with flags := flags &&& more }, []⟩) :=
            feed_of_step rfl Nat.one_pos rfl (Nat.zero_lt_of_lt hshort)
          have hkept := feed_short (R := reader malloc maxMsgSize)
            (c := ⟨.payload { announced length with flags := flags &&& more }, []⟩) rest
            (by simpa [reader, announced] using hshort)
          exact .inr (.inr ⟨_, by
            rw [feed_append_of_ok hfed, ← singleton_append, feed_append_of_ok hstep, hkept]
            rfl⟩)
        have hpos : length ≠ 0 := by
          rintro rfl
          simp [refusal] at hrefusal
        obtain ⟨payload, tail, rfl, rfl⟩ :
            ∃ payload tail, rest = payload ++ tail ∧ length = payload.length + 1 := by
          refine ⟨rest.take (length - 1), rest.drop (length - 1), (take_append_drop ..).symm, ?_⟩
          rw [length_take_of_le (by omega)]
          omega
        exact .inl ⟨len ++ flags :: payload, tail, _, _, by simp, .mk hlen, hrefusal⟩
  · exact .inr (.inr hshort)

/-- How the reader ends, in terms of the grammar. -/
def Finds (malloc : Nat → Bool) (maxMsgSize : Int) (bytes : Bytes) (ms : List Msg) :
    Outcome → Prop
  | .needsMore => ∃ c, (reader malloc maxMsgSize).feed ⟨.length, []⟩ bytes = (ms, .ok c)
  | .fails errno =>
      (reader malloc maxMsgSize).feed ⟨.length, []⟩ bytes = (ms, .error errno)

theorem Finds.cons
    (h : (reader malloc maxMsgSize).feed ⟨.length, []⟩ bytes = ([m], .ok ⟨.length, []⟩))
    (hrest : Finds malloc maxMsgSize rest ms o) :
    Finds malloc maxMsgSize (bytes ++ rest) (m :: ms) o := by
  cases o with
  | needsMore =>
    obtain ⟨c, hc⟩ := hrest
    exact ⟨c, by rw [feed_append_of_ok h, hc]; rfl⟩
  | fails =>
    rw [Finds] at hrest ⊢
    rw [feed_append_of_ok h, hrest]
    rfl

theorem Parse.finds (h : Parse malloc maxMsgSize bytes ms o) :
    Finds malloc maxMsgSize bytes ms o := by
  induction h with
  | frame hframe haccepted _ ih => exact ih.cons (feed_frame hframe haccepted)
  | refused hlen hrefused => exact feed_append_of_error (feed_refused hlen hrefused)
  | @incomplete bytes hlen hframe =>
    rcases frame_or_refused_or_short malloc maxMsgSize bytes with
      ⟨frame, rest, length, m, heq, hin, -⟩ | ⟨len, rest, length, errno, heq, hin, hrefused⟩ |
        hshort
    · exact absurd hin (hframe frame rest length m heq)
    · rw [hlen len rest length heq hin] at hrefused
      cases hrefused
    · exact hshort

theorem exists_parse (malloc : Nat → Bool) (maxMsgSize : Int) (bytes : Bytes) :
    ∃ ms o, Parse malloc maxMsgSize bytes ms o := by
  induction hn : bytes.length using Nat.strong_induction_on generalizing bytes with
  | _ n ih =>
    rcases frame_or_refused_or_short malloc maxMsgSize bytes with
      ⟨frame, rest, length, m, rfl, hframe, haccepted⟩ |
      ⟨len, rest, length, errno, rfl, hlen, hrefused⟩ |
      ⟨c, hshort⟩
    · have hlt : rest.length < n := by
        cases hframe
        simp at hn
        omega
      obtain ⟨ms, o, hparse⟩ := ih rest.length hlt rest rfl
      exact ⟨m :: ms, o, .frame hframe haccepted hparse⟩
    · exact ⟨[], .fails errno, .refused hlen hrefused⟩
    · have hlengths : ∀ len rest length, bytes = len ++ rest → Length len length →
          refusal malloc maxMsgSize length = none := by
        rintro len rest length rfl hlen
        cases hrefusal : refusal malloc maxMsgSize length with
        | none => rfl
        | some =>
          rw [feed_append_of_error (feed_refused hlen hrefusal)] at hshort
          cases hshort
      refine ⟨[], .needsMore, .incomplete hlengths ?_⟩
      rintro frame rest length m rfl hframe
      have haccepted : refusal malloc maxMsgSize length = none := by
        cases hframe with
        | mk hlen => exact hlengths _ _ _ (by rw [append_assoc]) hlen
      rw [feed_append_of_ok (feed_frame hframe haccepted)] at hshort
      cases hshort

/-! ## The decoder finds the parse -/

/-- How decoding has ended. -/
def outcome (r : Receiver State) : Option Outcome :=
  match r.stopped with
  | none => some .needsMore
  | some (.failed errno) => some (.fails errno)
  | some _ => none

/-- What the receiver has is what the reader finds. -/
theorem outcome_of_tracks (h : r.Tracks (implements malloc maxMsgSize) ⟨.length, []⟩ stream)
    (hfinds : Finds malloc maxMsgSize stream ms o) : r.received = ms ∧ outcome r = some o := by
  cases o with
  | needsMore =>
    obtain ⟨c, hfeed⟩ := hfinds
    cases h with
    | failed hend =>
      rw [hfeed] at hend
      cases hend
    | waits hend _ _ hrun =>
      rw [hfeed] at hend
      exact ⟨(congrArg Prod.fst hend).symm, by rw [outcome, hrun]⟩
  | fails =>
    cases h with
    | waits hend =>
      rw [hfinds] at hend
      cases hend
    | failed hend hstop =>
      rw [hfinds] at hend
      cases hend
      exact ⟨rfl, by rw [outcome, hstop]⟩

/-- What a frame says of a message: the payload and whether more follows. -/
def content (m : Msg) : Bytes × Bool := (m.data, m.hasMore)

theorem content_message (m : Msg) : content (message (m.flags &&& more) m.data) = content m := by
  simp [content, message, Msg.hasMore, UInt8.and_assoc]

theorem frame_header (h : m.data.length < 2 ^ 63) :
    Frame (header m ++ m.data) (m.data.length + 1) (message (m.flags &&& more) m.data) := by
  rw [header]
  by_cases hshort : m.data.length + 1 < 255
  · rw [if_pos hshort]
    have hvalue : (UInt8.ofNat (m.data.length + 1)).toNat = m.data.length + 1 :=
      UInt8.toNat_ofNat_of_lt' (by simp only [UInt8.size]; omega)
    have hlen : Length [UInt8.ofNat (m.data.length + 1)] (m.data.length + 1) := by
      have hne : UInt8.ofNat (m.data.length + 1) ≠ 255 := by
        intro heq
        rw [heq] at hvalue
        simp at hvalue
        omega
      have := Length.short hne
      rwa [hvalue] at this
    exact .mk hlen
  · rw [if_neg hshort]
    have hlen :
        Length (255 :: putUint64 (UInt64.ofNat (m.data.length + 1))) (m.data.length + 1) := by
      have := Length.long (length_putUint64 (UInt64.ofNat (m.data.length + 1)))
      rwa [bigEndian_putUint64, UInt64.toNat_ofNat_of_lt'
        (by simp only [UInt64.size]; omega)] at this
    have hframe : Frame (255 :: putUint64 (UInt64.ofNat (m.data.length + 1)) ++
        (m.flags &&& more) :: m.data) (m.data.length + 1)
        (message (m.flags &&& more) m.data) := .mk hlen
    simpa using hframe

/-- The reader finds the messages in their frames. -/
theorem feed_frames {ms : List Msg}
    (h : ∀ m ∈ ms, m.data.length < 2 ^ 63 ∧ refusal malloc maxMsgSize (m.data.length + 1) = none) :
    (reader malloc maxMsgSize).feed ⟨.length, []⟩ (ms.flatMap (frames.rest frames.start)) =
      (ms.map fun m => message (m.flags &&& more) m.data, .ok ⟨.length, []⟩) :=
  feed_flatMap ms fun m hm => feed_frame (frame_header (h m hm).1) (h m hm).2

/-- **The framing of ZMTP 1.0.**  However a string is cut into chunks, the decoder finds its one
parse; and it finds the messages that an encoder has written, if their sizes are accepted. An
encoder can write any messages to the end. -/
theorem exact_framing (malloc : Nat → Bool) (maxMsgSize : Int) (chunks : List (Bool × Bytes)) :
    let bytes := chunks.flatMap Prod.snd
    let r := (Receiver.start (newDecoder maxMsgSize)).decodeChunks (decoder malloc) chunks
    (∃ ms o, Parse malloc maxMsgSize bytes ms o) ∧
      (∀ ms o, Parse malloc maxMsgSize bytes ms o ↔ r.received = ms ∧ outcome r = some o) ∧
      (∀ (outSize : Nat) (tr : List Sender.Act) (s : Sender Write),
        Exec (Sender.Step encoder) (.start outSize .messageReady) tr s →
        s.encoder.inProgress = none → bytes = s.output →
        (∀ m ∈ s.loaded, m.data.length < 2 ^ 63 ∧
          refusal malloc maxMsgSize (m.data.length + 1) = none) →
        outcome r = some .needsMore ∧ r.received.map content = s.loaded.map content) ∧
      ∀ (outSize : Nat) (ms : List Msg), ∃ tr s,
        Exec (Sender.Step encoder) (.start outSize .messageReady) tr s ∧
          s.encoder.inProgress = none ∧ s.loaded = ms := by
  intro bytes r
  have htracks : r.Tracks (implements malloc maxMsgSize) ⟨.length, []⟩ bytes := by
    have hstart : (Receiver.start (newDecoder maxMsgSize)).Tracks
        (implements malloc maxMsgSize) ⟨.length, []⟩ [] :=
      .waits rfl (newDecoder_at malloc maxMsgSize) rfl rfl
    have hrun := Receiver.tracks_decodeChunks progressive chunks hstart
    rwa [nil_append] at hrun
  obtain ⟨ms₀, o₀, hparse⟩ := exists_parse malloc maxMsgSize bytes
  obtain ⟨hreceived, houtcome⟩ := outcome_of_tracks htracks hparse.finds
  refine ⟨⟨ms₀, o₀, hparse⟩, fun ms o => ⟨fun h => outcome_of_tracks htracks h.finds, ?_⟩, ?_,
    fun _ ms => Sender.exists_finished frames ms rfl⟩
  · rintro ⟨hms, ho⟩
    obtain rfl : ms₀ = ms := hreceived.symm.trans hms
    obtain rfl : o₀ = o := Option.some.inj (houtcome.symm.trans ho)
    exact hparse
  · intro _ _ s hrun hidle hbytes hsizes
    have hfeed := feed_frames hsizes
    rw [← Sender.output_of_idle frames hrun hidle, ← hbytes] at hfeed
    obtain ⟨hms, ho⟩ := outcome_of_tracks (o := .needsMore) htracks ⟨_, hfeed⟩
    refine ⟨ho, ?_⟩
    rw [hms, map_map]
    exact map_congr_left fun m _ => content_message m

/-- A message of two bytes in four chunks, the third of which is read directly. -/
theorem exact_framing_two_bytes :
    let r := (Receiver.start (newDecoder (-1))).decodeChunks (decoder fun _ => true)
      [(false, [3]), (false, [1]), (true, [7]), (false, [8])]
    outcome r = some .needsMore ∧ r.received.map content = [([7, 8], true)] := by
  obtain ⟨-, -, htrip, -⟩ := exact_framing (fun _ => true) (-1)
    [(false, [3]), (false, [1]), (true, [7]), (false, [8])]
  exact htrip 2 [.load ⟨.vsm, 1, [7, 8]⟩, .encode none, .encode none, .encode (some 1)] _
    (.snoc (.snoc (.snoc (.single (.load rfl)) (.encode _ _)) (.encode _ _)) (.encode _ _))
    rfl rfl (by decide)

end LibZmq.Wire.V1
