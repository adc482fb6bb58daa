import LibZmq.Core.Directory
import LibZmq.Socket.Base
import LibZmq.Wire.Bytes

/-!
# Routing ids

`routing_socket_base_t` (`socket_base.cpp`) finds the pipe to a peer by its routing id. Every pipe
knows its own routing id, which is chosen by the peer, set by the user for the next connection,
or generated from a counter.
-/

namespace LibZmq

open LibZmq.Core PipePair

/-- `blob_t`. -/
abbrev Blob := Bytes

/-- A message with the data `data` that announces more parts. -/
def labelMsg (data : Blob) : Msg :=
  { type := if data.length ≤ Msg.maxVsmSize then .vsm else .lmsg
    flags := MsgFlag.more
    data := data }

/-- `reset_flags (more)`. -/
def Msg.resetMore (m : Msg) : Msg := { m with flags := m.flags &&& ~~~ MsgFlag.more }

namespace Msg

@[simp] theorem hasMore_resetMore (m : Msg) : m.resetMore.hasMore = false := by
  simp [hasMore, resetMore, UInt8.and_assoc]

@[simp] theorem isDelimiter_resetMore (m : Msg) : m.resetMore.isDelimiter = m.isDelimiter := rfl

@[simp] theorem isCredential_resetMore (m : Msg) : m.resetMore.isCredential = m.isCredential := by
  have hsame : ~~~ MsgFlag.more &&& MsgFlag.credential = MsgFlag.credential := by decide
  simp [isCredential, resetMore, UInt8.and_assoc, hsame]

end Msg

/-- `out_pipe_t`. -/
structure OutPipe where
  pipe : PipeId
  active : Bool
deriving DecidableEq, Repr

/-- `routing_socket_base_t`. -/
structure RoutingBase where
  outPipes : AList fun _ : Blob => OutPipe
  connectRoutingId : Blob
  /-- `get_routing_id ()` of the pipes. -/
  routingIds : PipeId → Blob

namespace RoutingBase

def new : RoutingBase := { outPipes := ∅, connectRoutingId := [], routingIds := fun _ => [] }

/-- `xsetsockopt` with `ZMQ_CONNECT_ROUTING_ID`; `none` stands for `-1` with `EINVAL`. -/
def setConnectRoutingId (b : RoutingBase) (id : Blob) : Option RoutingBase :=
  if id = [] then none else some { b with connectRoutingId := id }

def xwriteActivated (b : RoutingBase) (p : PipeId) : Except Failure RoutingBase :=
  match b.outPipes.entries.find? fun e => e.2.pipe = p with
  | none => .error .assertion
  | some ⟨id, e⟩ =>
      if e.active then .error .assertion
      else .ok { b with outPipes := b.outPipes.insert id { e with active := true } }

def addOutPipe (b : RoutingBase) (id : Blob) (p : PipeId) : Except Failure RoutingBase :=
  if id ∈ b.outPipes then .error .assertion
  else .ok { b with outPipes := b.outPipes.insert id { pipe := p, active := true } }

def hasOutPipe (b : RoutingBase) (id : Blob) : Bool := id ∈ b.outPipes

def lookupOutPipe (b : RoutingBase) (id : Blob) : Option OutPipe := b.outPipes.lookup id

def eraseOutPipe (b : RoutingBase) (p : PipeId) : Except Failure RoutingBase :=
  if b.routingIds p ∈ b.outPipes then
    .ok { b with outPipes := b.outPipes.erase (b.routingIds p) }
  else .error .assertion

/-- `set_router_socket_routing_id` and `add_out_pipe`. -/
def name (b : RoutingBase) (p : PipeId) (id : Blob) : Except Failure RoutingBase :=
  { b with routingIds := Function.update b.routingIds p id }.addOutPipe id p

/-- The pipe of the entry `e` cannot be written at the moment. -/
def deactivate (b : RoutingBase) (id : Blob) (e : OutPipe) : RoutingBase :=
  { b with outPipes := b.outPipes.insert id { e with active := false } }

/-! ## The table and the pipes agree -/

variable {b b' : RoutingBase} {pipes : Finset PipeId} {p : PipeId} {id : Blob}

/-- The table has the pipes `pipes`, each under its own routing id. -/
def Lists (b : RoutingBase) (pipes : Finset PipeId) : Prop :=
  Registers b.outPipes OutPipe.pipe b.routingIds pipes

theorem lists_new : new.Lists ∅ := Registers.empty ..

theorem name_of_fresh (h : id ∉ b.outPipes) : b.name p id = .ok { b with
        routingIds := Function.update b.routingIds p id
        outPipes := b.outPipes.insert id { pipe := p, active := true } } := by
  rw [name, addOutPipe, if_neg h]

theorem name_ne_assertion (h : id ∉ b.outPipes) : b.name p id ≠ .error .assertion := by
  rw [name_of_fresh h]
  nofun

theorem name_of_taken (h : id ∈ b.outPipes) : b.name p id = .error .assertion := by
  rw [name, addOutPipe, if_pos h]

theorem mem_of_deactivate (he : b.lookupOutPipe id = some e) (id' : Blob)
    (h : id' ∈ (b.deactivate id e).outPipes) : id' ∈ b.outPipes := by
  rcases (AList.mem_insert _).mp h with rfl | h
  · exact AList.lookup_isSome.mp (Option.isSome_of_mem he)
  · exact h

section
variable (h : b.Lists pipes)
include h

theorem Lists.name (hp : p ∉ pipes) (hname : b.name p id = .ok b') :
    b'.Lists (insert p pipes) ∧ id ∉ b.outPipes ∧
      (∀ id', id' ∈ b'.outPipes ↔ id' = id ∨ id' ∈ b.outPipes) ∧
      b'.connectRoutingId = b.connectRoutingId := by
  by_cases hid : id ∈ b.outPipes
  · rw [name_of_taken hid] at hname
    cases hname
  · rw [name_of_fresh hid] at hname
    cases hname
    exact ⟨h.add hid hp rfl, hid, fun _ => AList.mem_insert _, rfl⟩

theorem Lists.erase (hp : p ∈ pipes) :
    b.eraseOutPipe p = .ok { b with outPipes := b.outPipes.erase (b.routingIds p) } ∧
      Lists { b with outPipes := b.outPipes.erase (b.routingIds p) } (pipes.erase p) :=
  ⟨if_pos (h.mem_iff.mpr ⟨p, hp, rfl⟩), h.remove hp⟩

theorem Lists.deactivate (he : b.lookupOutPipe id = some e) : (b.deactivate id e).Lists pipes :=
  h.replace he rfl

/-- The pipe that is found under a routing id has this routing id. -/
theorem Lists.lookup (he : b.lookupOutPipe id = some e) :
    e.pipe ∈ pipes ∧ b.routingIds e.pipe = id :=
  h.sound he

theorem Lists.lookup_iff :
    (∃ e, b.lookupOutPipe id = some e ∧ e.pipe = p) ↔ p ∈ pipes ∧ b.routingIds p = id := by
  constructor
  · rintro ⟨e, hlook, rfl⟩
    exact h.lookup hlook
  · rintro ⟨hp, rfl⟩
    exact h.complete hp

theorem Lists.xwriteActivated (hw : b.xwriteActivated p = .ok b') :
    b'.Lists pipes ∧ ∀ id, id ∈ b'.outPipes ↔ id ∈ b.outPipes := by
  unfold RoutingBase.xwriteActivated at hw
  split at hw
  · cases hw
  rename_i id e hfind
  split at hw
  · cases hw
  cases hw
  have hlook : b.outPipes.lookup id = some e :=
    AList.mem_lookup_iff.mpr (List.mem_of_find?_eq_some hfind)
  refine ⟨h.replace hlook rfl, fun _ => ?_⟩
  rw [AList.mem_insert, or_iff_right_of_imp]
  rintro rfl
  exact AList.lookup_isSome.mp (by rw [hlook]; rfl)

end
end RoutingBase

/-! ## Generated routing ids -/

/-- A zero byte and the value of the counter. -/
def integralRoutingId (n : UInt32) : Blob := 0 :: Wire.putUint32 n

theorem integralRoutingId_injective : Function.Injective integralRoutingId := fun _ _ h =>
  Wire.putUint32_injective (List.cons.inj h).2

/-- The counter does not come back to an earlier value in less than `2 ^ 32` steps. -/
theorem counter_ne {start : UInt32} (hi : i < n) (hn : n < 2 ^ 32) :
    start + UInt32.ofNat i ≠ start + UInt32.ofNat n := by
  intro h
  have hinj := UInt32.toNat_inj.mpr (add_left_cancel h)
  rw [UInt32.toNat_ofNat_of_lt' (hi.trans hn), UInt32.toNat_ofNat_of_lt' hn] at hinj
  omega

end LibZmq
