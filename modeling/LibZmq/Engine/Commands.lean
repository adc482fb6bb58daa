import LibZmq.Engine.Heartbeat

/-!
# Command frames

After the handshake a peer can send any frame with the command flag. `process_command_message`
looks for a name and sets a flag, which `process_heartbeat_message`, `command_body` and
`command_body_size` rely on (`zmtp_engine.cpp`, `msg.cpp`). They read the frame through a pointer
and compute with unsigned sizes.

* `command_frames_in_bounds`: a frame is read within its bounds if and only if it is not empty, and
  has its TTL if it is a ping.
* `short_frames_overread`: two frames behind which bytes are read.
-/

namespace LibZmq

open Wire (ascii getUint16)
open ZmtpEngine (commandFlags)

/-- A read behind the end of a frame. -/
inductive FrameFault where
  | overread

/-- `memcpy` or `memcmp`: `n` bytes of a frame, from `offset` on. -/
def readBytes (data : Bytes) (offset n : Nat) : Except FrameFault Bytes :=
  if offset + n ≤ data.length then .ok ((data.drop offset).take n) else .error .overread

/-- The difference of two sizes (`size_t`) wraps around. -/
def sizeSub (a b : Nat) : Nat := if b ≤ a then a - b else a + 2 ^ 64 - b

namespace Msg

def isPong (m : Msg) : Bool := m.flags &&& MsgFlag.cmdTypeMask == MsgFlag.pong

/-- `ping_cmd_name_size`, `sub_cmd_name_size` or `cancel_cmd_name_size`. -/
def cmdNameSize (m : Msg) : Option Nat :=
  if m.isPing || m.isPong then some 5
  else if m.isSubscribe then some 10
  else if m.isCancel then some 7
  else none

def commandBodySize (m : Msg) : Nat := m.cmdNameSize.elim 0 (sizeSub m.data.length)

/-- The bytes that `command_body` points to. -/
def readBody (m : Msg) : Except FrameFault Bytes :=
  m.cmdNameSize.elim (.ok []) fun n => readBytes m.data n m.commandBodySize

/-- `process_heartbeat_message` for a ping: the interval of the TTL timer, and the pong. -/
def processHeartbeatMessage (m : Msg) : Except FrameFault (UInt16 × Bytes) := do
  let ttl ← readBytes m.data 5 2
  let contextLen := min (sizeSub m.data.length 7) 16
  let context ← readBytes m.data 7 contextLen
  .ok (getUint16 ttl * 100, 4 :: ascii "PONG" ++ context)

/-- The type of the command is set. -/
def setType (m : Msg) : Msg := { m with flags := m.flags ||| commandFlags m.data }

/-- `process_command_message`: the message with its type and what a ping leads to, or nothing if the
command is malformed. -/
def processCommandMessage (m : Msg) :
    Except FrameFault (Option (Msg × Option (UInt16 × Bytes))) := do
  let cmdNameSize := ((← readBytes m.data 0 1).headD 0).toNat
  if m.data.length < cmdNameSize + 1 then .ok none
  else
    let _ ← readBytes m.data 1 cmdNameSize
    let m := m.setType
    if m.isPing then .ok (some (m, some (← m.processHeartbeatMessage))) else .ok (some (m, none))

/-- A frame with the command flag. -/
def commandFrame (more : Bool) (data : Bytes) : Msg :=
  { type := .vsm, flags := MsgFlag.command ||| if more then MsgFlag.more else 0, data }

/-- The beginnings of the commands with a flag. -/
def commands : List (UInt8 × Bytes) :=
  [(MsgFlag.ping, 4 :: ascii "PING"), (MsgFlag.pong, 4 :: ascii "PONG"),
    (MsgFlag.subscribe, 9 :: ascii "SUBSCRIBE"), (MsgFlag.cancel, 6 :: ascii "CANCEL")]

/-- A flag stands for a complete command, no size has wrapped around, and what was or will be read
is in the frame. -/
structure InBounds (m : Msg) (answer : Option (UInt16 × Bytes)) : Prop where
  named : ∀ c ∈ commands, m.flags &&& MsgFlag.cmdTypeMask = c.1 → c.2 <+: m.data
  ttl : m.isPing = true → 7 ≤ m.data.length
  size : ∀ n ∈ m.cmdNameSize, n + m.commandBodySize = m.data.length
  body : ∃ body, m.readBody = .ok body
  answer : answer.map Prod.snd =
    if m.isPing then some (4 :: ascii "PONG" ++ (m.data.drop 7).take 16) else none

variable {data rest name : Bytes} {size : UInt8} {m : Msg} {offset n : Nat} {c : UInt8 × Bytes}
  {answer : Option (UInt16 × Bytes)}

theorem readBytes_ok (h : offset + n ≤ data.length) :
    readBytes data offset n = .ok ((data.drop offset).take n) := if_pos h

theorem named_of_take (h : rest.take size.toNat = name) (hlen : ¬ rest.length < size.toNat) :
    name.length.toUInt8 :: name <+: size :: rest := by
  have hsize : name.length = size.toNat := by
    rw [← h, List.length_take]
    omega
  rw [hsize, List.cons_prefix_cons]
  exact ⟨by simp, h ▸ List.take_prefix _ _⟩

/-- A flag is set only for a complete name. -/
theorem commandFlags_cases (data : Bytes) : commandFlags data = 0 ∨
    ∃ c ∈ commands, commandFlags data = c.1 ∧ c.2 <+: data := by
  cases data with
  | nil => exact .inl rfl
  | cons _ _ =>
    simp only [commandFlags]
    split_ifs with hlen h h h h
    · exact .inl rfl
    · exact .inr ⟨commands[0], by decide, rfl, named_of_take h hlen⟩
    · exact .inr ⟨commands[1], by decide, rfl, named_of_take h hlen⟩
    · exact .inr ⟨commands[2], by decide, rfl, named_of_take h hlen⟩
    · exact .inr ⟨commands[3], by decide, rfl, named_of_take h hlen⟩
    · exact .inl rfl

theorem type_commandFrame (more : Bool) (data : Bytes) :
    (commandFrame more data).setType.flags &&& MsgFlag.cmdTypeMask = commandFlags data := by
  simp only [setType, commandFrame]
  rcases commandFlags_cases data with h | ⟨c, hc, h, -⟩ <;> rw [h] <;> clear h
  · cases more <;> decide
  · revert c
    cases more <;> decide

section
variable (hm : m.flags &&& MsgFlag.cmdTypeMask = commandFlags m.data)
include hm

theorem named_of_type (hc : c ∈ commands)
    (h : m.flags &&& MsgFlag.cmdTypeMask = c.1) : c.2 <+: m.data := by
  have hne : ∀ c ∈ commands, 0 ≠ c.1 := by decide
  have hinj : ∀ c ∈ commands, ∀ c' ∈ commands, c'.1 = c.1 → c' = c := by decide
  rw [hm] at h
  rcases commandFlags_cases m.data with h' | ⟨c', hc', h', hp⟩
  · exact absurd (h'.symm.trans h) (hne c hc)
  · exact hinj c hc c' hc' (h'.symm.trans h) ▸ hp

/-- The name of a command is in its frame. -/
theorem cmdNameSize_le : ∀ n ∈ m.cmdNameSize, n ≤ m.data.length := by
  unfold cmdNameSize isPing isPong isSubscribe isCancel
  rw [hm]
  rcases commandFlags_cases m.data with h | ⟨c, hc, h, hp⟩
  · rw [h]
    nofun
  · have hlen := hp.length_le
    rw [h]
    simp only [commands, List.mem_cons, List.not_mem_nil, or_false] at hc
    rcases hc with rfl | rfl | rfl | rfl
    all_goals
      rintro n ⟨⟩
      exact hlen

theorem inBounds (hping : m.isPing = true → 7 ≤ m.data.length) (hanswer : answer.map Prod.snd =
      if m.isPing then some (4 :: ascii "PONG" ++ (m.data.drop 7).take 16) else none) :
    InBounds m answer := by
  have hsize : ∀ n ∈ m.cmdNameSize, n + m.commandBodySize = m.data.length := by
    intro n hn
    have hle := cmdNameSize_le hm n hn
    rw [commandBodySize, hn, Option.elim_some, sizeSub, if_pos hle]
    exact Nat.add_sub_cancel' hle
  refine ⟨fun c hc => named_of_type hm hc, hping, hsize, ?_, hanswer⟩
  cases hn : m.cmdNameSize with
  | none => exact ⟨[], by rw [readBody, hn, Option.elim_none]⟩
  | some n =>
    rw [readBody, hn, Option.elim_some, readBytes_ok (hsize n hn).le]
    exact ⟨_, rfl⟩

end

theorem processHeartbeatMessage_ok (h : 7 ≤ m.data.length) :
    ∃ interval, m.processHeartbeatMessage =
      .ok (interval, 4 :: ascii "PONG" ++ (m.data.drop 7).take 16) := by
  refine ⟨getUint16 ((m.data.drop 5).take 2) * 100, ?_⟩
  rw [processHeartbeatMessage, readBytes_ok h, sizeSub, if_pos h]
  simp only [ok_bind]
  rw [readBytes_ok (by omega), ok_bind, Nat.min_comm, ← List.length_drop, ← List.take_eq_take_min]

/-- Every empty frame and every ping without its TTL is read beyond its end. -/
theorem overread_of_short (more : Bool) {data : Bytes}
    (h : data = [] ∨ 4 :: ascii "PING" <+: data ∧ data.length < 7) :
    (commandFrame more data).processCommandMessage = .error .overread := by
  rcases h with rfl | ⟨⟨ttl, rfl⟩, hlen⟩
  · rfl
  have hping : (commandFrame more (4 :: ascii "PING" ++ ttl)).setType.isPing = true := by
    rw [isPing, type_commandFrame]
    simp [commandFlags, ascii]
  have hlong : ¬ 2 ≤ ttl.length := by
    simp [ascii] at hlen
    omega
  -- the two reads of the name succeed, and that of the TTL fails
  simp [processCommandMessage, processHeartbeatMessage, setType, commandFrame, readBytes, ascii,
    bind, Except.bind, hlong]
  rw [if_neg (by omega)]
  exact if_pos hping

/-- **A command frame is read within its bounds** if and only if it is not empty and a ping has its
TTL. -/
theorem command_frames_in_bounds (more : Bool) (data : Bytes) :
    (∃ r, (commandFrame more data).processCommandMessage = .ok r ∧
      ∀ p ∈ r, p.1.data = data ∧ InBounds p.1 p.2) ↔
    data ≠ [] ∧ (4 :: ascii "PING" <+: data → 7 ≤ data.length) := by
  constructor
  · rintro ⟨r, hr, -⟩
    by_contra hshort
    rw [overread_of_short more (by grind)] at hr
    cases hr
  rintro ⟨hne, hping⟩
  have hpos := List.length_pos_of_ne_nil hne
  -- each read in turn is within the frame
  unfold processCommandMessage
  rw [readBytes_ok hpos]
  simp only [ok_bind]
  split
  · exact ⟨none, rfl, nofun⟩
  rename_i hlen
  rw [readBytes_ok (by omega), ok_bind]
  have htype := type_commandFrame more data
  split
  · rename_i hyes
    have httl := hping (named_of_type htype (c := commands[0]) (by decide) (eq_of_beq hyes))
    obtain ⟨interval, hbeat⟩ :=
      processHeartbeatMessage_ok (m := (commandFrame more data).setType) httl
    refine ⟨_, by rw [hbeat]; rfl, ?_⟩
    rintro _ ⟨⟩
    exact ⟨rfl, inBounds htype (fun _ => httl) (if_pos hyes).symm⟩
  · rename_i hno
    refine ⟨_, rfl, ?_⟩
    rintro _ ⟨⟩
    exact ⟨rfl, inBounds htype (fun hyes => absurd hyes hno) (if_neg hno).symm⟩

/-- A ping with its TTL and a context. -/
theorem command_frames_in_bounds_ping :
    ∃ r, (commandFrame false (4 :: ascii "PING" ++ [0, 3, 7])).processCommandMessage = .ok r ∧
      ∀ p ∈ r, p.1.data = 4 :: ascii "PING" ++ [0, 3, 7] ∧ InBounds p.1 p.2 :=
  (command_frames_in_bounds false _).mpr ⟨by decide, fun _ => by decide⟩

/-- An empty frame, and a ping without TTL: 16 bytes behind it would be its context. -/
theorem short_frames_overread :
    (commandFrame false []).processCommandMessage = .error .overread ∧
      (commandFrame false (4 :: ascii "PING")).processCommandMessage = .error .overread ∧
      min (sizeSub (4 :: ascii "PING").length 7) 16 = 16 :=
  ⟨rfl, rfl, by decide⟩

end Msg
end LibZmq
