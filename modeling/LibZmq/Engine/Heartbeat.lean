import LibZmq.Engine.Output

/-!
# Heartbeats

After the handshake, an engine of ZMTP 3 sends pings, which say how long the peer should wait for
the next sign of life (the TTL), and answers the pings of its peer (`zmtp_engine.cpp`,
`stream_engine_base.cpp`, `options.cpp`). What it sends next is decided by one pointer to a
function, `_next_msg`.

* `ZmtpEngine` is what heartbeats read and write, with the pings and the intervals that there were.
* `ZmtpEngine.Answers` says that each of them had its consequence.
* `ZmtpEngine.Represents` says that the engine has the batch of an `OutEngine`, without the bytes;
  `Represents.outEvent` is that the two `out_event`s are one.
-/

namespace LibZmq

open List
open LibZmq.Core (Exec Guarded exists_exec_of_replay step_of_pure)
open Wire (ascii getUint16 putUint16)

namespace MsgFlag

def ping : UInt8 := 4

def pong : UInt8 := 8

end MsgFlag

open MsgFlag (command ping cmdTypeMask)

def Msg.isPing (m : Msg) : Bool := m.flags &&& MsgFlag.cmdTypeMask == MsgFlag.ping

/-- `ZMQ_HEARTBEAT_TTL`; the value is in milliseconds, the option in tenths of a second. -/
def setHeartbeatTtl (value : Int) : Option UInt16 :=
  let value := value.tdiv 100
  if 0 ≤ value ∧ value ≤ 65535 then some value.toNat.toUInt16 else none

/-- The functions that `_next_msg` points to after the handshake. -/
inductive NextMsg where
  | pullAndEncode
  | producePingMessage
  | producePongMessage
deriving DecidableEq, Repr

/-- A message that the encoder was given, by the function that it comes from. -/
inductive Outgoing where
  | message (msg : Msg)
  | ping (msg : Msg)
  | pong (msg : Msg)
deriving DecidableEq, Repr

/-- The part of an engine that heartbeats read and write. -/
structure ZmtpEngine where
  /-- `_options.heartbeat_ttl`, in tenths of a second. -/
  heartbeatTtl : UInt16
  /-- `_options.out_batch_size`. -/
  outBatchSize : Nat
  nextMsg : NextMsg
  pongMsg : Msg
  /-- How long the TTL timer was set to, in milliseconds. -/
  ttlTimer : Option Nat
  /-- The bytes in the write buffer. -/
  outsize : Nat
  /-- What the session has for the engine. -/
  session : List Msg
  /-- What the encoder was given. -/
  wire : List Outgoing
  /-- The pings that were received. -/
  received : List Msg
  /-- How many heartbeat intervals have passed. -/
  intervals : Nat
deriving DecidableEq

/-- What a call of `out_event` finds: how many bytes of an earlier message the encoder still has,
how many it puts into the write buffer of each further message (not counting the first byte), and
how many `write` takes. -/
structure Turn where
  rest : Nat
  sizes : Nat → Nat
  nbytes : Nat

namespace ZmtpEngine

/-- An engine after the handshake. -/
def initial (heartbeatTtl : UInt16) (outBatchSize : Nat) : ZmtpEngine :=
  { heartbeatTtl, outBatchSize, nextMsg := .pullAndEncode, pongMsg := .init, ttlTimer := none
    outsize := 0, session := [], wire := [], received := [], intervals := 0 }

/-- PING with a TTL. -/
def pingMsg (ttl : UInt16) : Msg :=
  { type := .vsm, flags := MsgFlag.command, data := 4 :: ascii "PING" ++ putUint16 ttl }

/-- The answer to a ping. -/
def pongOf (ping : Msg) : Msg :=
  { type := .vsm, flags := MsgFlag.command
    data := 4 :: ascii "PONG" ++ (ping.data.drop 7).take 16 }

/-- Call the function that `_next_msg` points to: `pull_and_encode`, `produce_ping_message` or
`produce_pong_message`. -/
def callNextMsg (e : ZmtpEngine) : Option ZmtpEngine :=
  match e.nextMsg with
  | .pullAndEncode =>
      match e.session with
      | [] => none
      | msg :: session => some { e with session, wire := e.wire ++ [.message msg] }
  | .producePingMessage =>
      some { e with
        nextMsg := .pullAndEncode
        wire := e.wire ++ [.ping (pingMsg e.heartbeatTtl)] }
  | .producePongMessage =>
      some { e with
        nextMsg := .pullAndEncode
        pongMsg := .init
        wire := e.wire ++ [.pong e.pongMsg] }

/-- The loop of `out_event` that fills the write buffer, for a number of rounds. -/
def fillLoop (sizes : Nat → Nat) : Nat → ZmtpEngine → ZmtpEngine
  | 0, e => e
  | rounds + 1, e =>
      if e.outsize < e.outBatchSize then
        match e.callNextMsg with
        | none => e
        | some e => fillLoop sizes rounds { e with outsize := e.outsize + (sizes rounds + 1) }
      else e

/-- `out_event`. Each round of the loop adds a byte at least. -/
def outEvent (e : ZmtpEngine) (turn : Turn) : ZmtpEngine :=
  let e :=
    if e.outsize = 0 then fillLoop turn.sizes e.outBatchSize { e with outsize := turn.rest } else e
  { e with outsize := e.outsize - turn.nbytes }

/-- The flags that `process_command_message` sets. -/
def commandFlags (data : Bytes) : UInt8 :=
  match data with
  | [] => 0
  | size :: rest =>
      if rest.length < size.toNat then 0
      else if rest.take size.toNat = ascii "PING" then MsgFlag.ping
      else if rest.take size.toNat = ascii "PONG" then MsgFlag.pong
      else if rest.take size.toNat = ascii "SUBSCRIBE" then MsgFlag.subscribe
      else if rest.take size.toNat = ascii "CANCEL" then MsgFlag.cancel
      else 0

/-- What `process_heartbeat_message` keeps of a ping. The TTL stays an integer of 16 bits when it is
converted to milliseconds. -/
def keepPing (e : ZmtpEngine) (msg : Msg) : ZmtpEngine :=
  let remoteHeartbeatTtl := getUint16 ((msg.data.drop 5).take 2) * 100
  { e with
    ttlTimer :=
      if e.ttlTimer = none ∧ 0 < remoteHeartbeatTtl then some remoteHeartbeatTtl.toNat
      else e.ttlTimer
    pongMsg := pongOf msg
    nextMsg := .producePongMessage
    received := e.received ++ [msg] }

/-- A message is a command, and `process_command_message` takes it for a ping. -/
def IsPing (msg : Msg) : Prop :=
  msg.flags &&& MsgFlag.command ≠ 0 ∧
    { msg with flags := msg.flags ||| commandFlags msg.data }.isPing = true

instance (msg : Msg) : Decidable (IsPing msg) := inferInstanceAs (Decidable (_ ∧ _))

/-- `decode_and_push`, with `process_command_message` and `process_heartbeat_message`. The session
drops a ping, so that it is not processed again. -/
def decodeAndPush (e : ZmtpEngine) (msg : Msg) (turn : Turn) : ZmtpEngine :=
  let e := { e with ttlTimer := none }
  if IsPing msg then (e.keepPing msg).outEvent turn else e

/-- `timer_event` for the heartbeat interval. -/
def timerEvent (e : ZmtpEngine) (turn : Turn) : ZmtpEngine :=
  { e with nextMsg := .producePingMessage, intervals := e.intervals + 1 }.outEvent turn

/-! ## The TTL -/

variable {e e' : ZmtpEngine} {P : ZmtpEngine → Prop} {turn : Turn}

section
variable (hcall : ∀ e e', e.callNextMsg = some e' → P e → P e')
  (hsize : ∀ e n, P e → P { e with outsize := n })
include hcall hsize

/-- What the loop keeps is what each message keeps, and what the number of bytes does not
change. -/
theorem fillLoop_induct (sizes : Nat → Nat) (rounds : Nat) (he : P e) :
    P (fillLoop sizes rounds e) := by
  induction rounds generalizing e with
  | zero => exact he
  | succ _ ih =>
    unfold fillLoop
    split
    · split
      · exact he
      · rename_i e' hnext
        exact ih (hsize e' _ (hcall e e' hnext he))
    · exact he

theorem outEvent_induct (turn : Turn) (he : P e) : P (e.outEvent turn) := by
  apply hsize
  split
  · exact fillLoop_induct hcall hsize _ _ (hsize e _ he)
  · exact he

end

theorem kept_callNextMsg (h : e.callNextMsg = some e') :
    e'.outBatchSize = e.outBatchSize ∧ e'.outsize = e.outsize ∧ e'.ttlTimer = e.ttlTimer := by
  unfold callNextMsg at h
  split at h
  · split at h <;> cases h
    exact ⟨rfl, rfl, rfl⟩
  all_goals
    cases h
    exact ⟨rfl, rfl, rfl⟩

theorem ttlTimer_outEvent (e : ZmtpEngine) (turn : Turn) :
    (e.outEvent turn).ttlTimer = e.ttlTimer := by
  refine outEvent_induct (P := fun e' => e'.ttlTimer = e.ttlTimer) ?_ (fun _ _ h => h) turn rfl
  intro _ _ hnext h
  rw [← h]
  exact (kept_callNextMsg hnext).2.2

/-- After a ping with the TTL `ttl` the timer is set to its product, which has 16 bits. -/
theorem ttlTimer_decodeAndPush (e : ZmtpEngine) {ttl : UInt16} {msg : Msg} {context : Bytes}
    (hping : IsPing msg) (hmsg : msg.data = 4 :: ascii "PING" ++ putUint16 ttl ++ context)
    (turn : Turn) : (e.decodeAndPush msg turn).ttlTimer =
      if ttl.toNat * 100 % 65536 = 0 then none else some (ttl.toNat * 100 % 65536) := by
  have hwire : getUint16 ((msg.data.drop 5).take 2) = ttl := by
    rw [hmsg]
    exact Wire.getUint16_putUint16 ttl
  have hprod : (ttl * 100).toNat = ttl.toNat * 100 % 65536 := UInt16.toNat_mul ..
  unfold decodeAndPush
  rw [if_pos hping, ttlTimer_outEvent]
  simp only [keepPing, hwire, UInt16.lt_iff_toNat_lt, hprod, UInt16.toNat_zero, Nat.pos_iff_ne_zero,
    true_and, ite_not]

/-- The timer is set to 100 times the TTL if and only if the product does not wrap around. -/
theorem ttlTimer_eq_iff (e : ZmtpEngine) {ttl : UInt16} {msg : Msg} {context : Bytes}
    (hping : IsPing msg) (hmsg : msg.data = 4 :: ascii "PING" ++ putUint16 ttl ++ context)
    (turn : Turn) : (e.decodeAndPush msg turn).ttlTimer =
      (if ttl.toNat = 0 then none else some (100 * ttl.toNat)) ↔ ttl.toNat ≤ 655 := by
  have hlt := ttl.toNat_lt
  rw [ttlTimer_decodeAndPush e hping hmsg turn]
  split <;> split <;> simp only [Option.some.injEq, reduceCtorEq, true_iff, false_iff] <;> omega

theorem isPing_pingMsg (ttl : UInt16) : IsPing (pingMsg ttl) := by
  exact ⟨show command &&& command ≠ 0 by decide,
    show ((command ||| ping) &&& cmdTypeMask == ping) = true by
      decide⟩

/-- **Both sides mean the same TTL**, if and only if it is less than 65.6 seconds: for a value that
the option accepts, and for any TTL on the wire. -/
theorem heartbeat_ttl_agrees (e : ZmtpEngine) (turn : Turn) :
    (∀ v : Int, 0 ≤ v → v < 65600 → ∃ ttl, setHeartbeatTtl v = some ttl) ∧
    (∀ (v : Int) (ttl : UInt16), setHeartbeatTtl v = some ttl →
      (((ttl.toNat : Int) = v / 100 ∧ (pingMsg ttl).data = 4 :: ascii "PING" ++ putUint16 ttl ∧
        (e.decodeAndPush (pingMsg ttl) turn).ttlTimer =
          if v < 100 then none else some (100 * (v / 100).toNat)) ↔ 0 ≤ v ∧ v < 65600)) ∧
    ∀ (ttl : UInt16) (msg : Msg) (context : Bytes),
      IsPing msg → msg.data = 4 :: ascii "PING" ++ putUint16 ttl ++ context →
      ((e.decodeAndPush msg turn).ttlTimer =
        (if ttl.toNat = 0 then none else some (100 * ttl.toNat)) ↔ ttl.toNat ≤ 655) := by
  refine ⟨fun v _ _ => ?_, fun v ttl hset => ?_, fun _ _ _ hping hmsg =>
    e.ttlTimer_eq_iff hping hmsg turn⟩
  · have hdiv : v.tdiv 100 = v / 100 := Int.tdiv_eq_ediv_of_nonneg ‹_›
    exact ⟨_, if_pos (by omega)⟩
  simp only [setHeartbeatTtl, Option.ite_none_right_eq_some, Option.some.injEq] at hset
  obtain ⟨hrange, rfl⟩ := hset
  have hnat : ((v.tdiv 100).toNat.toUInt16).toNat = (v.tdiv 100).toNat :=
    Nat.mod_eq_of_lt (by omega)
  have htimer := e.ttlTimer_eq_iff (isPing_pingMsg (v.tdiv 100).toNat.toUInt16)
    (append_nil _).symm turn
  rw [hnat] at htimer ⊢
  rcases Int.lt_or_le v 0 with hneg | hpos
  · -- the quotient is rounded towards zero, and not down
    omega
  · have hdiv : v.tdiv 100 = v / 100 := Int.tdiv_eq_ediv_of_nonneg hpos
    have hzero : (v / 100).toNat = 0 ↔ v < 100 := by omega
    rw [hdiv] at htimer hrange ⊢
    simp only [hzero] at htimer
    rw [htimer, Int.toNat_of_nonneg hrange.1]
    exact ⟨fun h => ⟨hpos, by omega⟩, fun h => ⟨rfl, rfl, by omega⟩⟩

/-- The connection takes nothing. -/
def noTurn : Turn := { rest := 0, sizes := fun _ => 6, nbytes := 0 }

/-- A TTL of two seconds, and one of 65.5 seconds. -/
theorem heartbeat_ttl_agrees_two_seconds :
    ((initial 0 8192).decodeAndPush (pingMsg 20) noTurn).ttlTimer = some 2000 ∧
    ((initial 0 8192).decodeAndPush (pingMsg 655) noTurn).ttlTimer = some 65500 := by
  obtain ⟨-, hset, hwire⟩ := heartbeat_ttl_agrees (initial 0 8192) noTurn
  exact ⟨((hset 2000 20 rfl).mpr (by decide)).2.2,
    (hwire 655 (pingMsg 655) [] (isPing_pingMsg 655) rfl).mpr (by decide)⟩

/-- **A TTL that wraps around.**  A TTL of 65.6 seconds is accepted and sent, but the peer waits for
64 milliseconds. -/
theorem heartbeat_ttl_wraps : setHeartbeatTtl 65600 = some 656 ∧
    (pingMsg 656).data = 4 :: ascii "PING" ++ [2, 144] ∧
    ((initial 0 8192).decodeAndPush (pingMsg 656) noTurn).ttlTimer = some 64 := by
  decide +kernel

/-! ## Pings and pongs -/

/-- What an engine takes part in. -/
inductive Act where
  /-- A message comes from the peer. -/
  | receive (msg : Msg) (turn : Turn)
  /-- The connection can be written to, or `restart_output` is called. -/
  | output (turn : Turn)
  /-- A heartbeat interval has passed. -/
  | interval (turn : Turn)
  /-- The session gets a message of the socket. -/
  | send (msg : Msg)

/-- Carry out an act. -/
def next (e : ZmtpEngine) : Act → ZmtpEngine
  | .receive msg turn => e.decodeAndPush msg turn
  | .output turn => e.outEvent turn
  | .interval turn => e.timerEvent turn
  | .send msg => { e with session := e.session ++ [msg] }

/-- Pings have a TTL. -/
def Enabled : Act → Prop
  | .receive msg _ => IsPing msg → 7 ≤ msg.data.length
  | _ => True

instance (a : Act) : Decidable (Enabled a) := by
  rcases a <;> unfold Enabled <;> infer_instance

/-- A step of an engine. -/
def Step (e : ZmtpEngine) (a : Act) (e' : ZmtpEngine) : Prop := Enabled a ∧ e.next a = e'

/-- The encoder was given what was due when the next ping comes, or the next interval has passed. -/
def Spaced (e : ZmtpEngine) : Act → Prop
  | .receive msg _ => IsPing msg → e.nextMsg = .pullAndEncode
  | .interval _ => e.nextMsg = .pullAndEncode
  | _ => True

/-- The pings that were sent. -/
def pings (l : List Outgoing) : List Msg :=
  l.filterMap fun | .ping msg => some msg | _ => none

/-- The pongs that were sent. -/
def pongs (l : List Outgoing) : List Msg :=
  l.filterMap fun | .pong msg => some msg | _ => none

/-- The heartbeat that the encoder will be given next. -/
def pending (e : ZmtpEngine) : List Outgoing :=
  match e.nextMsg with
  | .pullAndEncode => []
  | .producePingMessage => [.ping (pingMsg e.heartbeatTtl)]
  | .producePongMessage => [.pong e.pongMsg]

/-- The list has a pong for each ping that was received, in order, and a ping for each interval. -/
structure AnsweredBy (e : ZmtpEngine) (l : List Outgoing) : Prop where
  pongs : pongs l = e.received.map pongOf
  pings : pings l = List.replicate e.intervals (pingMsg e.heartbeatTtl)

/-- With the heartbeat that is pending, every ping is answered and every interval has its ping. -/
def Answers (e : ZmtpEngine) : Prop := e.AnsweredBy (e.wire ++ e.pending)

attribute [local simp] pending pongs pings

theorem callNextMsg_answers (h : e.callNextMsg = some e') (he : e.Answers) : e'.Answers := by
  obtain ⟨hpongs, hpings⟩ := he
  unfold callNextMsg at h
  split at h <;> rename_i hnext <;> rw [pending, hnext] at hpongs hpings
  · split at h <;> cases h
    -- A message of the session is no heartbeat.
    rw [append_nil] at hpongs hpings
    simp only [pongs] at hpongs
    simp only [pings] at hpings
    constructor <;> simp [hnext, hpongs, hpings]
  all_goals
    -- What was pending is on the wire, and nothing else is pending.
    cases h
    unfold Answers pending
    rw [append_nil]
    exact ⟨hpongs, hpings⟩

theorem outEvent_answers (turn : Turn) (he : e.Answers) : (e.outEvent turn).Answers :=
  outEvent_induct (fun _ _ => callNextMsg_answers) (fun _ _ he => ⟨he.pongs, he.pings⟩) turn he

theorem Answers.wire (he : e.Answers) (hnext : e.nextMsg = .pullAndEncode) :
    e.AnsweredBy e.wire := by
  unfold Answers pending at he
  rw [hnext, append_nil] at he
  exact he

theorem step_answers {a : Act} (he : e.Answers) (hstep : Guarded Step Spaced e a e') :
    e'.Answers := by
  obtain ⟨⟨-, rfl⟩, hspaced⟩ := hstep
  cases a with
  | receive =>
    simp only [next, decodeAndPush]
    split
    · rename_i hping
      obtain ⟨hpongs, hpings⟩ := he.wire (hspaced hping)
      apply outEvent_answers
      constructor
      · simp only [pongs] at hpongs
        simp [keepPing, hpongs]
      · simp only [pings] at hpings
        simp [keepPing, hpings]
    · exact ⟨he.pongs, he.pings⟩
  | output turn => exact outEvent_answers turn he
  | interval =>
    obtain ⟨hpongs, hpings⟩ := he.wire hspaced
    apply outEvent_answers
    constructor
    · simp only [pongs] at hpongs
      simp [hpongs]
    · simp only [pings] at hpings
      simp [hpings, replicate_succ']
  | send => exact ⟨he.pongs, he.pings⟩

theorem nextMsg_callNextMsg (h : e.callNextMsg = some e') : e'.nextMsg = .pullAndEncode := by
  unfold callNextMsg at h
  split at h
  · split at h <;> cases h
    assumption
  all_goals
    cases h
    rfl

/-- An empty write buffer takes what is pending. -/
theorem outEvent_nextMsg (hout : e.outsize = 0)
    (hrest : turn.rest < e.outBatchSize) : (e.outEvent turn).nextMsg = .pullAndEncode := by
  obtain ⟨rounds, hrounds⟩ := Nat.exists_eq_succ_of_ne_zero (Nat.ne_zero_of_lt hrest)
  unfold outEvent
  rw [if_pos hout, hrounds, fillLoop, if_pos (hrounds ▸ hrest)]
  split
  · -- Only the session can have nothing.
    rename_i hnone
    unfold callNextMsg at hnone
    split at hnone
    · assumption
    all_goals cases hnone
  · rename_i e' hsome
    have he' : e'.nextMsg = .pullAndEncode := nextMsg_callNextMsg hsome
    exact fillLoop_induct (fun _ _ hnext _ => nextMsg_callNextMsg hnext) (fun _ _ h => h) _ _ he'

/-- **Every ping is answered once**, and every interval has its ping, if the encoder takes each
heartbeat before the next one is due: apart from one that is pending, they are on the wire, and the
pending one is when the write buffer is empty again. -/
theorem pings_answered_once (ttl : UInt16) (batch : Nat) {tr : List Act} {e : ZmtpEngine}
    (hrun : Exec (Guarded Step Spaced) (initial ttl batch) tr e) :
    e.Answers ∧ ∀ turn : Turn, e.outsize = 0 → turn.rest < e.outBatchSize →
      (e.outEvent turn).AnsweredBy (e.outEvent turn).wire := by
  have he : e.Answers := hrun.invariant Answers (fun _ _ _ => step_answers) ⟨rfl, rfl⟩
  exact ⟨he, fun turn hout hrest =>
    (outEvent_answers turn he).wire (outEvent_nextMsg hout hrest)⟩

/-- A ping with a context of one byte. -/
def samplePing (context : UInt8) : Msg :=
  { type := .vsm, flags := MsgFlag.command
    data := 4 :: ascii "PING" ++ [0, 10, context] }

/-- A ping is answered, and an interval passes. -/
theorem pings_answered_once_sample :
    (((initial 10 8192).next (.receive (samplePing 1) { noTurn with nbytes := 7 })).next
      (.interval { noTurn with nbytes := 7 })).Answers := by
  refine (pings_answered_once 10 8192 (.snoc (.snoc (.nil _) ⟨⟨?_, rfl⟩, ?_⟩) ⟨⟨?_, rfl⟩, ?_⟩)).1
  · exact fun _ => by decide
  · exact fun _ => rfl
  · trivial
  · show _ = NextMsg.pullAndEncode
    decide +kernel

/-- A ping, an interval and another ping, while the connection does not take the bytes of a
message. -/
def blockedActs : List Act :=
  [.send { type := .lmsg, flags := 0, data := [7, 8, 9] }, .output noTurn,
    .receive (samplePing 1) noTurn, .interval noTurn, .receive (samplePing 2) noTurn,
    .output { noTurn with nbytes := 7 }, .output { noTurn with nbytes := 7 }]

/-- **A ping that is never answered.**  The connection does not take the bytes of a message while
the peer sends a ping, the heartbeat interval passes, and the peer sends another ping. When
everything is written, only the second ping has its pong, and no ping was sent. -/
theorem ping_lost_when_blocked : ∃ (tr : List Act) (e : ZmtpEngine),
    Exec Step (initial 10 8192) tr e ∧ e.outsize = 0 ∧ e.nextMsg = .pullAndEncode ∧
      e.received = [samplePing 1, samplePing 2] ∧ e.intervals = 1 ∧
      pongs e.wire = [pongOf (samplePing 2)] ∧ pings e.wire = [] := by
  exact exists_exec_of_replay step_of_pure blockedActs (by decide +kernel)

end ZmtpEngine

/-! ## The bytes of the messages -/

/-- The message that the encoder is given. -/
def Outgoing.msg : Outgoing → Msg
  | .message msg | .ping msg | .pong msg => msg

theorem loadMsg_bufSize {encoder encoder' : Wire.Encoder Wire.Write} {m : Msg}
    (h : encoder.loadMsg Wire.V2.encoder m = some encoder') :
    encoder'.bufSize = encoder.bufSize := by
  unfold Wire.Encoder.loadMsg at h
  split at h
  · cases h
    rfl
  · cases h

theorem Batch.encode_ok {b b' : Batch} {buffer : Option Nat} (h : b.encode buffer = .ok b') :
    ∃ bytes,
    b'.out = b.out ++ bytes ∧ b'.encoder.bufSize = b.encoder.bufSize ∧ b'.pulled = b.pulled := by
  unfold Batch.encode at h
  dsimp only at h
  split at h
  · cases h
  · cases h
    exact ⟨_, rfl, (Wire.Encoder.encode_keeps Wire.V2.frames buffer).1, rfl⟩

namespace ZmtpEngine

variable {e e' : ZmtpEngine} {b b' : Batch} {rounds : Nat} {x : Outgoing} {rest : List Outgoing}

/-- What `_next_msg` returns until it fails. -/
def upcoming (e : ZmtpEngine) : List Outgoing := e.pending ++ e.session.map .message

/-- The batch has as many bytes as the engine says, and the encoder was given the same messages. -/
structure Represents (e : ZmtpEngine) (b : Batch) : Prop where
  outsize : e.outsize = b.out.length
  outBatchSize : e.outBatchSize = b.encoder.bufSize
  wire : e.wire.map Outgoing.msg = b.pulled

theorem callNextMsg_of_nil (h : e.upcoming = []) : e.callNextMsg = none := by
  obtain ⟨hpending, hsession⟩ := append_eq_nil_iff.mp h
  have hsession : e.session = [] := map_eq_nil_iff.mp hsession
  unfold pending at hpending
  split at hpending
  · simp [callNextMsg, ‹e.nextMsg = _›, hsession]
  all_goals cases hpending

theorem callNextMsg_of_cons (h : e.upcoming = x :: rest) : ∃ e', e.callNextMsg = some e' ∧
    e'.upcoming = rest ∧ e'.wire = e.wire ++ [x] := by
  unfold upcoming pending at h
  unfold callNextMsg
  split at h <;> rename_i hnext
  · cases hsession : e.session with
    | nil =>
      rw [hsession] at h
      cases h
    | cons msg session =>
      rw [hsession] at h
      cases h
      exact ⟨_, rfl, by simp [upcoming, pending, hnext], rfl⟩
  all_goals
    cases h
    exact ⟨_, rfl, rfl, rfl⟩

theorem fillLoop_of_stop {sizes : Nat → Nat}
    (h : e.callNextMsg = none ∨ ¬ e.outsize < e.outBatchSize) : fillLoop sizes rounds e = e := by
  cases rounds with
  | zero => rfl
  | succ =>
    unfold fillLoop
    rcases h with h | h
    · simp [h]
    · rw [if_neg h]

/-- A round uses the size with its own number only. -/
theorem fillLoop_congr {sizes sizes' : Nat → Nat} (h : ∀ n < rounds, sizes n = sizes' n)
    (e : ZmtpEngine) : fillLoop sizes rounds e = fillLoop sizes' rounds e := by
  induction rounds generalizing e with
  | zero => rfl
  | succ rounds ih =>
    have hless := fun n hn => h n (Nat.lt_succ_of_lt hn)
    simp only [fillLoop, h rounds (Nat.lt_succ_self _), ih hless]

/-- The loop of `out_event` pulls the same messages with and without the bytes, if every message
has the number of bytes that the encoder gives it. -/
theorem Represents.fill {isNull : Bool} (h : e.Represents b)
    (hfill : Batch.fill (e.upcoming.map Outgoing.msg) isNull b = .ok b')
    (hrounds : e.outBatchSize ≤ rounds + e.outsize) :
    ∃ sizes, (fillLoop sizes rounds e).Represents b' := by
  generalize hup : e.upcoming = msgs at hfill
  induction msgs generalizing e b isNull rounds with
  | nil =>
    cases hfill
    exact ⟨fun _ => 0, by rwa [fillLoop_of_stop (.inl (callNextMsg_of_nil hup))]⟩
  | cons x msgs ih =>
    rw [map_cons, Batch.fill, ← h.outsize, ← h.outBatchSize] at hfill
    split at hfill
    case isFalse hfull =>
      cases hfill
      exact ⟨fun _ => 0, by rwa [fillLoop_of_stop (.inr hfull)]⟩
    rename_i hroom
    split at hfill
    · cases hfill
    rename_i encoder hload
    obtain ⟨b₁, hencode, hfill⟩ := bind_ok hfill
    split at hfill
    · cases hfill
    rename_i hmore
    obtain ⟨bytes, hbytes, hsize, hpulled⟩ := Batch.encode_ok hencode
    obtain ⟨e₁, hcall, hup₁, hwire⟩ := callNextMsg_of_cons hup
    obtain ⟨hbatch, hout, -⟩ := kept_callNextMsg hcall
    obtain ⟨rounds, rfl⟩ := Nat.exists_eq_succ_of_ne_zero (show rounds ≠ 0 by omega)
    -- `zmq_assert (n > 0)`: a message of no bytes would leave the batch as it is
    have hsome : bytes ≠ [] := by
      rintro rfl
      rw [append_nil] at hbytes
      exact hmore hbytes
    have hpos := length_pos_iff.mpr hsome
    have hrep : Represents { e₁ with outsize := e₁.outsize + (bytes.length - 1 + 1) } b₁ := by
      refine ⟨?_, ?_, ?_⟩
      · rw [hbytes, length_append, hout, h.outsize, Nat.sub_add_cancel hpos]
      · rw [hsize, loadMsg_bufSize hload, ← h.outBatchSize, hbatch]
      · rw [hpulled, hwire, map_append, h.wire]
        rfl
    obtain ⟨sizes, hfilled⟩ := ih hrep (show _ ≤ rounds + _ by simp only; omega) hup₁ hfill
    refine ⟨Function.update sizes rounds (bytes.length - 1), ?_⟩
    rw [fillLoop, if_pos hroom, hcall]
    simp only [Function.update_self]
    rw [fillLoop_congr fun n hn => Function.update_of_ne hn.ne _ _]
    exact hfilled

/-- **The bytes do not matter for heartbeats**: what `out_event` does to the batch is an `out_event`
of the engine without bytes. -/
theorem Represents.outEvent {o o' : OutEngine} {nbytes : Option Nat} (h : e.Represents o.toBatch)
    (hout : o.outEvent (e.upcoming.map Outgoing.msg) nbytes = .ok o') :
    ∃ turn, (e.outEvent turn).Represents o'.toBatch := by
  unfold OutEngine.outEvent at hout
  split at hout
  · cases hout
  obtain ⟨b, hrenew, hout⟩ := bind_ok hout
  obtain ⟨rest, sizes, hrep⟩ : ∃ rest sizes, Represents (if e.outsize = 0 then
      fillLoop sizes e.outBatchSize { e with outsize := rest } else e) b := by
    unfold Batch.renew at hrenew
    split at hrenew
    · rename_i hnil
      obtain ⟨b₁, hencode, hfill⟩ := bind_ok hrenew
      obtain ⟨bytes, hbytes, hsize, hpulled⟩ := Batch.encode_ok hencode
      have hrest : Represents { e with outsize := b₁.out.length } b₁ :=
        ⟨rfl, h.outBatchSize.trans hsize.symm, h.wire.trans hpulled.symm⟩
      obtain ⟨sizes, hfilled⟩ := hrest.fill hfill (Nat.le_add_right _ _)
      refine ⟨b₁.out.length, sizes, ?_⟩
      rw [if_pos (by rw [h.outsize, hnil]; rfl)]
      exact hfilled
    · rename_i hne
      cases hrenew
      refine ⟨0, fun _ => 0, ?_⟩
      rw [if_neg (by rw [h.outsize]; simpa using hne)]
      exact h
  split at hout
  · cases hout
    exact ⟨⟨rest, sizes, 0⟩, hrep⟩
  cases nbytes with
  | none =>
    cases hout
    exact ⟨⟨rest, sizes, 0⟩, hrep⟩
  | some n =>
    cases hout
    refine ⟨⟨rest, sizes, n⟩, ?_, hrep.outBatchSize, hrep.wire⟩
    rw [ZmtpEngine.outEvent, length_drop, ← hrep.outsize]

end ZmtpEngine
end LibZmq
