import Mathlib.Data.UInt
import LibZmq.Msg
import LibZmq.Socket.Groups

/-!
# Datagrams

`RADIO` and `DISH` sockets talk over UDP without a connection. A datagram holds the length of the
group in one byte, the group, and the body of a message (`udp_engine.cpp`). A session of a `DISH`
socket takes the group and the body one after the other (`dish.cpp`).

* `datagram_codec`: which datagrams are handled properly, and which messages are carried.
-/

namespace LibZmq

open List
open GroupMsg (groupMaxLength setGroup setGroup_eq_iff)
open MsgFlag (more)

/-- What goes wrong in the engine. -/
inductive UdpFault where
  | assertion
  /-- A write past the end of `_out_buffer`. -/
  | overflow
deriving DecidableEq, Repr

/-- A message with the given data. -/
def udpMsg (flags : UInt8) (data : Bytes) : Msg :=
  { type := if data.length ≤ Msg.maxVsmSize then .vsm else .lmsg, flags, data }

/-! ## The session -/

/-- What the session waits for. -/
inductive DishState where
  | group
  | body
deriving DecidableEq, Repr

/-- What `push_msg` returns. -/
inductive DishRc where
  | ok
  | eagain
  | efault
deriving DecidableEq, Repr

/-- `dish_session_t`, with the messages that it has written to its pipe and their groups. -/
structure DishSession where
  state : DishState
  groupMsg : Msg
  pipe : List (Bytes × Msg)
deriving DecidableEq

namespace DishSession

/-- `push_msg`; `room` says that the pipe takes a message. -/
def pushMsg (s : DishSession) (room : Bool) (m : Msg) : DishRc × DishSession :=
  match s.state with
  | .group =>
      if m.hasMore = false then (.efault, s)
      else if groupMaxLength < m.data.length then (.efault, s)
      else (.ok, { s with groupMsg := m, state := .body })
  | .body =>
      if m.hasMore then (.efault, s)
      else if room then
        (.ok, { s with state := .group, pipe := s.pipe ++ [(setGroup s.groupMsg.data, m)] })
      else (.eagain, s)

def reset (s : DishSession) : DishSession := { s with state := .group }

theorem pushMsg_group {s : DishSession} (hstate : s.state = .group) {data : Bytes}
    (hlen : data.length ≤ groupMaxLength) (room : Bool) :
    s.pushMsg room (udpMsg more data) =
      (.ok, { s with groupMsg := udpMsg more data, state := .body }) := by
  have hmore : (udpMsg more data).hasMore ≠ false := show (more &&& more != 0) ≠ false by decide
  simp only [pushMsg, hstate]
  rw [if_neg hmore]
  exact if_neg (Nat.not_lt.mpr hlen)

theorem pushMsg_long {s : DishSession} (hstate : s.state = .group) {data : Bytes}
    (hlen : groupMaxLength < data.length) (room : Bool) :
    s.pushMsg room (udpMsg more data) = (.efault, s) := by
  simp only [pushMsg, hstate]
  split
  · rfl
  · exact if_pos hlen

theorem pushMsg_body {s : DishSession} (hstate : s.state = .body) (room : Bool) (data : Bytes) :
    s.pushMsg room (udpMsg 0 data) =
      if room then (.ok, { s with state := .group,
                                  pipe := s.pipe ++ [(setGroup s.groupMsg.data, udpMsg 0 data)] })
      else (.eagain, s) := by
  have hmore : ¬ (udpMsg 0 data).hasMore = true := show ¬ (0 &&& more != 0) = true by decide
  simp only [pushMsg, hstate]
  rw [if_neg hmore]

end DishSession

/-! ## The engine -/

/-- `udp_engine_t`, with a session of a `DISH` socket. -/
structure UdpEngine where
  session : DishSession
  /-- The bytes of `_in_buffer`. -/
  inBuffer : Nat → UInt8
  /-- The number of bytes that were used and did not belong to the datagram. -/
  stray : Nat
  /-- The number of messages that were not closed. -/
  leaked : Nat

namespace UdpEngine

def maxUdpMsg : Nat := 8192

/-- What `memcpy` gets from a buffer. -/
def slice (buffer : Nat → UInt8) (offset size : Nat) : Bytes :=
  (List.range size).map fun i => buffer (offset + i)

/-- `in_event`, when `recvfrom` has a datagram. The size of the group is a `char`, which has a sign;
`init_size` fails for a negative size. -/
def inEvent (e : UdpEngine) (datagram : Bytes) (room : Bool) : Except UdpFault UdpEngine :=
  let buffer := fun i => datagram.getD i (e.inBuffer i)
  let groupSize := (buffer 0).toInt8.toInt
  if groupSize < 0 then .error .assertion
  else
    let size := groupSize.toNat
    let group := udpMsg MsgFlag.more (slice buffer 1 size)
    let e := { e with inBuffer := buffer, stray := e.stray + (1 + size - datagram.length) }
    if datagram.length < 1 + size then
      -- This does not fit.
      .ok { e with leaked := e.leaked + if group.type = .lmsg then 1 else 0 }
    else
      match e.session.pushMsg room group with
      | (.efault, _) => .error .assertion
      | (.eagain, session) => .ok { e with session }
      | (.ok, session) =>
          let body := udpMsg 0 (slice buffer (1 + size) (datagram.length - (1 + size)))
          match session.pushMsg room body with
          | (.ok, session) => .ok { e with session }
          | (_, session) => .ok { e with session := session.reset }

/-- `out_event`, when the session has a group and a body: the datagram that is sent. -/
def outEvent (group body : Bytes) : Except UdpFault Bytes :=
  if maxUdpMsg < 1 + group.length + body.length then .error .overflow
  else .ok (group.length.toUInt8 :: group ++ body)

theorem slice_getD (d : Bytes) (old : Nat → UInt8) {offset size : Nat}
    (h : offset + size ≤ d.length) :
    slice (fun i => d.getD i (old i)) offset size = (d.drop offset).take size := by
  apply ext_getElem
  · simp only [slice, length_map, length_range, length_take, length_drop]
    omega
  · intro i hi _
    simp only [slice, length_map, length_range] at hi
    simp [slice, getElem?_eq_getElem (show offset + i < d.length by omega)]

/-- A byte that is a size. -/
theorem toInt_of_le {c : UInt8} (hc : c.toNat ≤ 127) : c.toInt8.toInt = c.toNat := by
  have hnat : 2 * c.toInt8.toBitVec.toNat < 2 ^ 8 := show 2 * c.toNat < 2 ^ 8 by omega
  exact BitVec.toInt_eq_toNat_of_lt hnat

variable {e e' : UdpEngine} {c : UInt8} {rest : Bytes} {room : Bool}

/-- A datagram that holds its group, of at most 15 bytes, reaches the session. -/
theorem inEvent_whole (hidle : e.session.state = .group) (hc : c ≤ 15)
    (hfits : c.toNat ≤ rest.length) (room : Bool) :
    ∃ e', e.inEvent (c :: rest) room = .ok e' ∧ e'.session.state = .group ∧ e'.stray = e.stray ∧
      e'.leaked = e.leaked ∧ e'.session.pipe = e.session.pipe ++
        if room then [(setGroup (rest.take c.toNat), udpMsg 0 (rest.drop c.toNat))] else [] := by
  have hle : c.toNat ≤ 15 := hc
  have hsign : c.toInt8.toInt = c.toNat := toInt_of_le (by omega)
  have hgroup := slice_getD (c :: rest) e.inBuffer
    (show 1 + c.toNat ≤ (c :: rest).length by rw [length_cons]; omega)
  have hbody := slice_getD (c :: rest) e.inBuffer
    (show 1 + c.toNat + (rest.length + 1 - (1 + c.toNat)) ≤ (c :: rest).length by
      rw [length_cons]; omega)
  have hbody' : ((c :: rest).drop (1 + c.toNat)).take (rest.length + 1 - (1 + c.toNat)) =
      rest.drop c.toNat := by
    rw [Nat.add_comm 1 c.toNat, drop_succ_cons]
    exact take_of_length_le (by rw [length_drop]; omega)
  have hlen : (rest.take c.toNat).length ≤ groupMaxLength := by
    rw [length_take, groupMaxLength]
    omega
  have hshort : ¬ rest.length + 1 < 1 + c.toNat := by omega
  have hstray : 1 + c.toNat - (rest.length + 1) = 0 := by omega
  unfold inEvent
  simp only [getD_cons_zero, hsign, Int.toNat_natCast, length_cons, hgroup, hbody, hbody',
    drop_succ_cons, drop_zero, if_neg (show ¬ (c.toNat : Int) < 0 by omega), hshort,
    if_false, hstray, Nat.add_zero, DishSession.pushMsg_group hidle hlen, DishSession.pushMsg_body]
  cases room with
  | true => exact ⟨_, rfl, rfl, rfl, rfl, by simp [udpMsg]⟩
  | false => exact ⟨_, rfl, rfl, rfl, rfl, by simp [DishSession.reset]⟩

/-- Every other datagram makes an assertion fail, or bytes that do not belong to it are used. -/
theorem stray_of_inEvent {datagram : Bytes} (hidle : e.session.state = .group)
    (h : e.inEvent datagram room = .ok e') : e.stray < e'.stray ∨
      ∃ c rest, datagram = c :: rest ∧ c ≤ 15 ∧ c.toNat ≤ rest.length := by
  simp only [inEvent] at h
  split at h
  · cases h
  split at h
  · rename_i hshort
    cases h
    exact .inl (show e.stray < e.stray + _ by omega)
  rename_i hsign hshort
  right
  cases datagram with
  | nil => exact absurd (Nat.lt_of_lt_of_le Nat.one_pos (Nat.le_add_right 1 _)) hshort
  | cons c rest =>
    rw [getD_cons_zero] at h hsign hshort
    have hc : c.toNat ≤ 127 := by
      by_contra hlarge
      exact hsign (BitVec.toInt_neg_iff.mpr (show 2 ^ 8 ≤ 2 * c.toNat by omega))
    rw [toInt_of_le hc, Int.toNat_natCast, length_cons] at hshort
    refine ⟨c, rest, rfl, ?_, by omega⟩
    -- a group that is too long is refused by the session
    by_contra hlong
    have hlong : 15 < c.toNat := Nat.lt_of_not_le fun hle => hlong (UInt8.le_iff_toNat_le.mpr hle)
    rw [DishSession.pushMsg_long hidle] at h
    · cases h
    · simpa [slice, toInt_of_le hc, groupMaxLength] using hlong

/-! ## The codec -/

/-- A datagram is delivered as its group and its body, or it is dropped; no assertion fails, no
other bytes are used and no message is leaked. -/
def Handles (e : UdpEngine) (datagram : Bytes) (room : Bool) : Prop :=
  ∃ e', e.inEvent datagram room = .ok e' ∧ e'.session.state = .group ∧ e'.stray = e.stray ∧
    e'.leaked = e.leaked ∧ (e'.session.pipe = e.session.pipe ∨
      ∃ c rest, datagram = c :: rest ∧ c.toNat ≤ min 15 rest.length ∧
        e'.session.pipe = e.session.pipe ++ [(rest.take c.toNat, udpMsg 0 (rest.drop c.toNat))])

/-- A group and a body that fit into the output buffer are sent as a datagram that is delivered as
the same group and body, and others are not written past its end. -/
def Carries (e : UdpEngine) (group body : Bytes) : Prop :=
  if 1 + group.length + body.length ≤ maxUdpMsg then
    ∃ d e', outEvent group body = .ok d ∧ d.length = 1 + group.length + body.length ∧
      e.inEvent d true = .ok e' ∧ e'.session.pipe = e.session.pipe ++ [(group, udpMsg 0 body)]
  else outEvent group body ≠ .error .overflow

/-- **Datagrams carry groups and bodies.**  A datagram is handled if and only if it holds a whole
group of at most 15 bytes, none of which is zero if the pipe has room for it. Such a group and a
body are carried if and only if they fit into the output buffer and the group has no zero. -/
theorem datagram_codec (e : UdpEngine) (hidle : e.session.state = .group) :
    (∀ (datagram : Bytes) (room : Bool), e.Handles datagram room ↔
      ∃ c rest, datagram = c :: rest ∧ c ≤ 15 ∧ c.toNat ≤ rest.length ∧
        (room = true → 0 ∉ rest.take c.toNat)) ∧
    ∀ group body : Bytes, group.length ≤ 15 →
      (e.Carries group body ↔ 1 + group.length + body.length ≤ maxUdpMsg ∧ 0 ∉ group) := by
  refine ⟨fun datagram room => ⟨?_, ?_⟩, fun group body hgroup => ?_⟩
  · rintro ⟨e', hin, -, hstray, -, hpipe⟩
    rcases stray_of_inEvent hidle hin with hlt | ⟨c, rest, rfl, hc, hfits⟩
    · omega
    refine ⟨c, rest, rfl, hc, hfits, ?_⟩
    rintro rfl
    obtain ⟨e₁, hin₁, -, -, -, hpipe₁⟩ := inEvent_whole hidle hc hfits true
    cases hin.symm.trans hin₁
    rw [hpipe₁, if_pos rfl] at hpipe
    rcases hpipe with hpipe | ⟨_, _, ⟨⟩, -, hpipe⟩
    · simp at hpipe
    · simpa [setGroup_eq_iff] using hpipe
  · rintro ⟨c, rest, rfl, hc, hfits, hnul⟩
    obtain ⟨e', hin, hstate, hstray, hleaked, hpipe⟩ := inEvent_whole hidle hc hfits room
    refine ⟨e', hin, hstate, hstray, hleaked, ?_⟩
    cases room with
    | false => exact .inl (by simpa using hpipe)
    | true =>
      rw [(setGroup_eq_iff _).mpr (hnul rfl)] at hpipe
      exact .inr ⟨c, rest, rfl, Nat.le_min.mpr ⟨hc, hfits⟩, hpipe⟩
  · unfold Carries
    split
    · rename_i hsize
      have hnat : group.length.toUInt8.toNat = group.length := Nat.mod_eq_of_lt (by omega)
      have hc : group.length.toUInt8 ≤ 15 := by
        rw [UInt8.le_iff_toNat_le, hnat]
        exact hgroup
      obtain ⟨e', hin, -, -, -, hpipe⟩ := inEvent_whole hidle hc
        (show group.length.toUInt8.toNat ≤ (group ++ body).length by rw [length_append]; omega) true
      rw [hnat, take_left, drop_left, if_pos rfl] at hpipe
      have hout : outEvent group body = .ok (group.length.toUInt8 :: (group ++ body)) :=
        if_neg (Nat.not_lt.mpr hsize)
      rw [hout, ← setGroup_eq_iff]
      constructor
      · rintro ⟨_, e₁, ⟨⟩, -, hin₁, hpipe₁⟩
        cases hin.symm.trans hin₁
        rw [hpipe] at hpipe₁
        exact ⟨hsize, by simpa using hpipe₁⟩
      · rintro ⟨-, hset⟩
        refine ⟨_, e', rfl, ?_, hin, by rw [hpipe, hset]⟩
        rw [length_cons, length_append]
        omega
    · -- `out_event` copies past the end of the buffer
      rename_i hsize
      exact iff_of_false (fun h => h (if_pos (Nat.not_le.mp hsize))) fun h => hsize h.1

/-- An engine that has just been plugged in. -/
def sample : UdpEngine :=
  { session := ⟨.group, Msg.init, []⟩, inBuffer := fun _ => 0, stray := 0, leaked := 0 }

theorem datagram_codec_sample : sample.Handles [1, 103, 7] true ∧ sample.Handles [1, 0] false ∧
    sample.Carries [103] [1, 2] := by
  obtain ⟨hin, hout⟩ := datagram_codec sample rfl
  exact ⟨(hin _ _).mpr ⟨1, [103, 7], rfl, by decide, by decide, by decide⟩,
    (hin _ _).mpr ⟨1, [0], rfl, by decide, by decide, by decide⟩,
    (hout [103] [1, 2] (by decide)).mpr ⟨by decide, by decide⟩⟩

/-- **Datagrams that an engine cannot take.**  A single byte above 127, or a group of 16 bytes, ends
the process; a datagram that is shorter than its group makes the engine use bytes of an earlier
datagram, and a message is leaked if that group is long; a body of 8192 bytes is written past the
end of the output buffer. -/
theorem datagrams_mishandled :
    sample.inEvent [128] true = .error .assertion ∧
    sample.inEvent (16 :: List.replicate 16 103) true = .error .assertion ∧
    (∃ e', sample.inEvent [34] true = .ok e' ∧ e'.stray = 34 ∧ e'.leaked = 1) ∧
    outEvent [] (List.replicate 8192 0) = .error .overflow := by
  refine ⟨rfl, rfl, ⟨_, rfl, rfl, rfl⟩, if_pos ?_⟩
  rw [length_replicate]
  decide

end UdpEngine

end LibZmq
