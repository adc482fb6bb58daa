import LibZmq.Pipe.Pair

/-!
# Watermarks of inproc connections

A connection between two sockets of one process has no session in between: the ends of
its pipe belong to the sockets themselves, and its high watermarks are meant to be the
sums of what the two sockets ask for. The sums are put together in three places, from
copies of the options that are taken at different times:

* `connect` (`socket_base_t::connect`), when the binder is already there;
* `connectInprocSockets` (`ctx_t::connect_inproc_sockets`), when it comes later;
* `updatePipeOptions` (`socket_base_t::update_pipe_options`) and `pipe_hwm` commands,
  when an option changes.

The model follows the options of the two sockets, the ends of the pipe and the
`pipe_hwm` commands. Nothing else that happens to the pipe has an influence on its
watermarks.

* `inproc_watermarks_agree`: both ends agree with the options, in runs in which the
  copies are good (`UpToDate`).
* `inproc_watermarks_disagree`: otherwise they need not.
-/

namespace LibZmq

open Pipe (computeLwm)
open LibZmq.Core Function CInt Option

/-! ## Options -/

/-- The options for the watermarks. -/
inductive HwmOption where
  | sndhwm
  | rcvhwm
deriving DecidableEq, Repr

/-- The watermarks in `options_t`. -/
structure HwmOptions where
  sndhwm : Int
  rcvhwm : Int
deriving DecidableEq, Repr

namespace HwmOptions

/-- `options_t ()`, with `default_hwm`. -/
def default : HwmOptions := { sndhwm := 1000, rcvhwm := 1000 }

/-- `options_t::setsockopt`: negative values are refused. -/
def setsockopt (o : HwmOptions) (option : HwmOption) (value : Int) : HwmOptions :=
  if value ≥ 0 then
    match option with
    | .sndhwm => { o with sndhwm := value }
    | .rcvhwm => { o with rcvhwm := value }
  else o

/-- Values that `setsockopt` admits. -/
def Admitted (o : HwmOptions) : Prop := 0 ≤ o.sndhwm ∧ 0 ≤ o.rcvhwm

instance (o : HwmOptions) : Decidable o.Admitted := inferInstanceAs (Decidable (_ ∧ _))

theorem Admitted.setsockopt {o : HwmOptions} (h : o.Admitted) (option : HwmOption) (value : Int) :
    (o.setsockopt option value).Admitted := by
  unfold HwmOptions.setsockopt
  split
  · rename_i hv
    cases option with
    | sndhwm => exact ⟨hv, h.2⟩
    | rcvhwm => exact ⟨h.1, hv⟩
  · exact h

end HwmOptions

/-! ## The state -/

/-- How far a connection has got. -/
inductive Stage where
  /-- `find_endpoint` has found nothing, and `pend_connection` comes next. -/
  | searching
  /-- The connection is pending, with a copy of the connecter's options. -/
  | waiting (options : HwmOptions)
  /-- The `bind` command is on its way to the binder. -/
  | binding
  | established
deriving DecidableEq, Repr

namespace Stage

/-- The end is in the `_pipes` of its socket. The connecter is the first side. -/
def attached : Stage → Side → Bool
  | .searching, _ => false
  | .waiting _, x | .binding, x => x == .first
  | .established, _ => true

/-- Both sockets know of the connection, or the binder is about to. -/
def connected : Stage → Bool
  | .binding | .established => true
  | .searching | .waiting _ => false

end Stage

/-- The pipe of a connection. -/
structure Connection where
  ends : Side → Pipe
  /-- The `pipe_hwm` commands on their way to an end, oldest first. -/
  mail : Side → List (Int × Int)
  stage : Stage

namespace Connection

variable {c : Connection}

/-- The pipe joins the two sockets, and no command is on its way. -/
def Settled (c : Connection) : Prop := c.stage.connected = true ∧ ∀ z, c.mail z = []

instance (c : Connection) : Decidable c.Settled :=
  inferInstanceAs (Decidable (c.stage.connected = true ∧ ∀ z : Side, c.mail z = []))

/-- The end `x` when all commands have arrived. -/
def final (c : Connection) (x : Side) : Pipe :=
  match (c.mail x).getLast? with
  | none => c.ends x
  | some m => (c.ends x).setHwms m.1 m.2

theorem final_of_nil (h : c.mail x = []) : c.final x = c.ends x := by
  rw [final, h]
  rfl

theorem final_eq_ends (h : ∀ z, c.mail z = []) : c.final = c.ends :=
  funext fun z => final_of_nil (h z)

theorem final_of_concat (h : c.mail x = l ++ [m]) : c.final x = (c.ends x).setHwms m.1 m.2 := by
  rw [final, h, List.getLast?_concat]

/-- The oldest command makes no difference in the end: `set_hwms` replaces what an earlier
one has set. -/
theorem final_deliver {c' : Connection} {rest : List (Int × Int)} (hmail : c.mail x = m :: rest)
    (hends' : c'.ends = update c.ends x ((c.ends x).setHwms m.1 m.2))
    (hmail' : c'.mail = update c.mail x rest) : c'.final = c.final := by
  funext z
  unfold final
  rw [hends', hmail']
  by_cases hz : z = x
  · subst hz
    rw [update_self, update_self, hmail]
    cases rest with
    | nil => rfl
    -- the last command is the same, and the boosts it is added to have not changed
    | cons n _ => rw [List.getLast?_cons_cons]; rfl
  · rw [update_of_ne hz, update_of_ne hz]

end Connection

/-- Two sockets that use one inproc address, the first to connect, the second to bind. -/
structure Inproc where
  options : Side → HwmOptions
  /-- `get_effective_conflate_option` of the connecter. -/
  conflate : Bool
  /-- The copy of the binder's options that `bind` has registered. -/
  endpoint : Option HwmOptions
  connection : Option Connection

namespace Inproc

/-! ## The calls -/

/-- `socket_base_t::connect`. -/
def connect (s : Inproc) : Inproc :=
  let own := s.options .first
  let peer := s.endpoint.getD .default
  let sndhwm :=
    if s.endpoint = none then own.sndhwm
    else if own.sndhwm ≠ 0 ∧ peer.rcvhwm ≠ 0 then CInt.wrap (own.sndhwm + peer.rcvhwm) else 0
  let rcvhwm :=
    if s.endpoint = none then own.rcvhwm
    else if own.rcvhwm ≠ 0 ∧ peer.sndhwm ≠ 0 then CInt.wrap (own.rcvhwm + peer.sndhwm) else 0
  let pipes :=
    (PipePair.pipepair (if s.conflate then -1 else sndhwm) (if s.conflate then -1 else rcvhwm)
      s.conflate s.conflate).pipe
  let boosted
    | .first => (pipes .first).setHwmsBoost peer.sndhwm peer.rcvhwm
    | .second => (pipes .second).setHwmsBoost own.sndhwm own.rcvhwm
  { s with
    connection := some
      { ends := if s.conflate then pipes else boosted
        mail := fun _ => []
        stage := if s.endpoint = none then .searching else .binding } }

/-- `ctx_t::connect_inproc_sockets`, with the copies of the options of both sockets. -/
def connectInprocSockets (c : Connection) (conflate : Bool)
    (bindOptions connectOptions : HwmOptions) (stage : Stage) : Connection :=
  let joined
    | .first =>
        ((c.ends .first).setHwmsBoost bindOptions.sndhwm bindOptions.rcvhwm).setHwms
          connectOptions.rcvhwm connectOptions.sndhwm
    | .second =>
        ((c.ends .second).setHwmsBoost connectOptions.sndhwm connectOptions.rcvhwm).setHwms
          bindOptions.rcvhwm bindOptions.sndhwm
  { c with
    ends := if conflate then fun x => (c.ends x).setHwms (-1) (-1) else joined
    stage := stage }

/-- `ctx_t::pend_connection`, the last part of a `connect` that has found nothing. -/
def pendConnection (s : Inproc) (c : Connection) : Inproc :=
  match s.endpoint with
  | none => { s with connection := some { c with stage := .waiting (s.options .first) } }
  | some bindOptions =>
      { s with
        connection :=
          some (connectInprocSockets c s.conflate bindOptions (s.options .first) .binding) }

/-- `socket_base_t::bind`: `register_endpoint` and `connect_pending`. -/
def bind (s : Inproc) : Inproc :=
  { s with
    endpoint := some (s.options .second)
    connection := s.connection.map fun c =>
      match c.stage with
      | .waiting connectOptions =>
          connectInprocSockets c s.conflate (s.options .second) connectOptions .established
      | .searching | .binding | .established => c }

/-- `socket_base_t::update_pipe_options` of the socket at the end `x`. -/
def updatePipeOptions (s : Inproc) (x : Side) : Inproc :=
  let o := s.options x
  { s with
    connection := s.connection.map fun c =>
      if c.stage.attached x then
        { c with
          ends := Function.update c.ends x ((c.ends x).setHwms o.rcvhwm o.sndhwm)
          mail := Function.update c.mail x.peer (c.mail x.peer ++ [(o.sndhwm, o.rcvhwm)]) }
      else c }

/-- `socket_base_t::setsockopt`. The pipes are updated even when the value is refused. -/
def setsockopt (s : Inproc) (x : Side) (option : HwmOption) (value : Int) : Inproc :=
  updatePipeOptions
    { s with
      options := Function.update s.options x ((s.options x).setsockopt option value) } x

/-- `process_bind` of the binder. -/
def processBind (s : Inproc) (c : Connection) : Inproc :=
  { s with connection := some { c with stage := .established } }

/-- `pipe_t::process_pipe_hwm` of the end `x`. -/
def processPipeHwm (s : Inproc) (c : Connection) (x : Side) (inhwm outhwm : Int) : Inproc :=
  { s with
    connection := some
      { c with
        ends := Function.update c.ends x ((c.ends x).setHwms inhwm outhwm)
        mail := Function.update c.mail x (c.mail x).tail } }

inductive Action where
  | bind
  | connect
  | pendConnection
  | setsockopt (x : Side) (option : HwmOption) (value : Int)
  | processBind
  | processPipeHwm (x : Side)
deriving DecidableEq, Repr

/-- One step, if the action is possible. The binder binds once and the connecter connects
once; while it does, it can do nothing else. -/
def step (s : Inproc) : Action → Option Inproc
  | .bind => if s.endpoint = none then some s.bind else none
  | .connect => if s.connection.isNone then some s.connect else none
  | .pendConnection =>
      s.connection.bind fun c => if c.stage = .searching then some (s.pendConnection c) else none
  | .setsockopt x option value =>
      if CInt.Fits value ∧ ¬ (x = .first ∧ (s.connection.map Connection.stage) = some .searching)
      then some (s.setsockopt x option value) else none
  | .processBind =>
      s.connection.bind fun c => if c.stage = .binding then some (s.processBind c) else none
  | .processPipeHwm x =>
      s.connection.bind fun c =>
        match c.mail x with
        | [] => none
        | (inhwm, outhwm) :: _ => some (s.processPipeHwm c x inhwm outhwm)

def Step (s : Inproc) (a : Action) (s' : Inproc) : Prop := s.step a = some s'

/-- Two sockets with the given options, before either has called anything. -/
def initial (connecter binder : HwmOptions) (conflate : Bool) : Inproc :=
  { options := fun
      | .first => connecter
      | .second => binder
    conflate := conflate
    endpoint := none
    connection := none }

/-! ## What the watermarks should be -/

/-- Two high watermarks together; zero stands for no limit. -/
def total (a b : Int) : Int := if a ≠ 0 ∧ b ≠ 0 then a + b else 0

theorem total_comm (a b : Int) : total a b = total b a := by
  simp [total, and_comm, Int.add_comm]

/-- The high watermark for the messages from `w`. -/
def totalHwm (options : Side → HwmOptions) (w : Side) : Int :=
  total (options w).sndhwm (options w.peer).rcvhwm

/-- The watermarks for the messages from `w` are those of the two sockets. -/
structure Agreed (options : Side → HwmOptions) (ends : Side → Pipe) (w : Side) : Prop where
  hwm : (ends w).hwm = totalHwm options w
  lwm : (ends w.peer).lwm = Pipe.computeLwm (totalHwm options w)

/-- No sum of two options overflows, nor does `compute_lwm` of it. -/
def Room (options : Side → HwmOptions) : Prop :=
  ∀ w : Side, (options w).sndhwm + (options w.peer).rcvhwm < CInt.max

instance (options : Side → HwmOptions) : Decidable (Room options) :=
  inferInstanceAs (Decidable (∀ w : Side, (options w).sndhwm + (options w.peer).rcvhwm < CInt.max))

/-- The boosts at the end of `x` are the options of the other socket, so that `x` adds the
right values to its own; and those at the other end are the other socket's own options,
so that the right values are added to what `x` sends there. -/
def Boosted (options : Side → HwmOptions) (ends : Side → Pipe) (x : Side) : Prop :=
  (ends x).inHwmBoost = (options x.peer).sndhwm ∧ (ends x).outHwmBoost = (options x.peer).rcvhwm ∧
    (ends x.peer).inHwmBoost = (options x.peer).rcvhwm ∧
    (ends x.peer).outHwmBoost = (options x.peer).sndhwm

instance (options : Side → HwmOptions) (ends : Side → Pipe) (x : Side) :
    Decidable (Boosted options ends x) := inferInstanceAs (Decidable (_ ∧ _))

/-- The conditions under which all copies of the options are good. An option does not
change between the `bind` or `connect` of its socket and the connection. Afterwards it
changes only when the boosts are right for it and no change of the other socket is on its
way, and only at a socket that knows of the connection. -/
def UpToDate (s : Inproc) : Action → Prop
  | .bind => s.connection.isSome → Room s.options
  | .connect => s.endpoint.isSome → Room s.options
  | .pendConnection => s.endpoint.isSome → Room s.options
  | .setsockopt x option value =>
      match s.connection with
      | none => x = .second → s.endpoint = none
      | some c =>
          if c.stage.connected then
            c.stage.attached x = true ∧ c.mail x = [] ∧ Boosted s.options c.ends x ∧
              Room (Function.update s.options x ((s.options x).setsockopt option value))
          else x = .second ∧ s.endpoint = none
  | .processBind | .processPipeHwm _ => True

/-! ## The invariant -/

section setHwms
variable {p : Pipe}

/-- The sum that `connect` takes. -/
theorem wrap_sum_eq (ha : 0 ≤ a) (hb : 0 ≤ b) (hsum : a + b < max) :
    (if a ≠ 0 ∧ b ≠ 0 then wrap (a + b) else 0) = total a b := by
  have hmax : a + b < 2147483647 := hsum
  rw [wrap_of_fits ⟨by omega, by omega⟩]
  rfl

/-- The sum that `set_hwms` takes. -/
theorem boosted_sum_eq (ha : 0 ≤ a) (hb : 0 ≤ b) (hsum : a + b < max) :
    (if a ≤ 0 ∨ b = 0 then 0 else wrap (a + max b 0)) = total a b := by
  rw [← wrap_sum_eq ha hb hsum, Int.max_eq_left hb]
  by_cases hcond : a ≤ 0 ∨ b = 0
  · rw [if_pos hcond, if_neg (by omega)]
  · rw [if_neg hcond, if_pos (by omega)]

/-- With boosts that are not negative `set_hwms` adds them up. -/
theorem setHwms_eq (hi : 0 ≤ i) (ho : 0 ≤ o) (hin : 0 ≤ p.inHwmBoost) (hout : 0 ≤ p.outHwmBoost)
    (hsumIn : i + p.inHwmBoost < max) (hsumOut : o + p.outHwmBoost < max) :
    (p.setHwms i o).hwm = total o p.outHwmBoost ∧
      (p.setHwms i o).lwm = computeLwm (total i p.inHwmBoost) := by
  exact ⟨boosted_sum_eq ho hout hsumOut, congrArg computeLwm (boosted_sum_eq hi hin hsumIn)⟩

end setHwms

/-- What is known of a connection. -/
def Healthy (s : Inproc) (c : Connection) : Prop :=
  match c.stage with
  | .searching => ∀ z, c.mail z = []
  | .waiting copy => copy = s.options .first ∧ s.endpoint = none ∧ ∀ z, c.mail z = []
  | .binding | .established => ∀ w, Agreed s.options c.final w

structure Consistent (s : Inproc) : Prop where
  admitted : ∀ x, (s.options x).Admitted
  ordinary : s.conflate = false
  /-- The registered copy is good as long as it may be used. -/
  copy : ∀ o, s.endpoint = some o → (∀ c, s.connection = some c → c.stage = .searching) →
    o = s.options .second
  healthy : ∀ c, s.connection = some c → Healthy s c

variable {options : Side → HwmOptions} {p : Pipe} {c : Connection} {x : Side} {s : Inproc}

theorem agreed_of_sides {ends : Side → Pipe} (x : Side) (hx : (ends x).hwm = totalHwm options x ∧
      (ends x).lwm = computeLwm (totalHwm options x.peer))
    (hp : (ends x.peer).hwm = totalHwm options x.peer ∧
      (ends x.peer).lwm = computeLwm (totalHwm options x)) (w : Side) :
    Agreed options ends w := by
  rcases x.eq_or_eq_peer w with rfl | rfl
  · exact ⟨hx.1, hp.2⟩
  · refine ⟨hp.1, ?_⟩
    rw [Side.peer_peer]
    exact hx.2

/-- `set_hwms` at the end of `x` with its own options, the boosts being those of the peer. -/
theorem setHwms_own (hadm : ∀ x, (options x).Admitted) (hroom : Room options) (x : Side)
    (hin : p.inHwmBoost = (options x.peer).sndhwm)
    (hout : p.outHwmBoost = (options x.peer).rcvhwm) :
    (p.setHwms (options x).rcvhwm (options x).sndhwm).hwm = totalHwm options x ∧
      (p.setHwms (options x).rcvhwm (options x).sndhwm).lwm =
        computeLwm (totalHwm options x.peer) := by
  have hx := hroom x
  have hp := hroom x.peer
  rw [Side.peer_peer] at hp
  obtain ⟨h1, h2⟩ := setHwms_eq (hadm x).2 (hadm x).1 (hin ▸ (hadm x.peer).1)
    (hout ▸ (hadm x.peer).2) (by omega) (by omega)
  rw [h1, h2, hin, hout, totalHwm, totalHwm, Side.peer_peer, total_comm (options x).rcvhwm]
  exact ⟨rfl, rfl⟩

/-- `set_hwms` at the other end with the options of `x`, the boosts being the peer's own. -/
theorem setHwms_sent (hadm : ∀ x, (options x).Admitted) (hroom : Room options) (x : Side)
    (hin : p.inHwmBoost = (options x.peer).rcvhwm)
    (hout : p.outHwmBoost = (options x.peer).sndhwm) :
    (p.setHwms (options x).sndhwm (options x).rcvhwm).hwm = totalHwm options x.peer ∧
      (p.setHwms (options x).sndhwm (options x).rcvhwm).lwm =
        computeLwm (totalHwm options x) := by
  have hx := hroom x
  have hp := hroom x.peer
  rw [Side.peer_peer] at hp
  obtain ⟨h1, h2⟩ := setHwms_eq (hadm x).1 (hadm x).2 (hin ▸ (hadm x.peer).2)
    (hout ▸ (hadm x.peer).1) (by omega) (by omega)
  rw [h1, h2, hin, hout, totalHwm, Side.peer_peer, total_comm (options x).rcvhwm]
  exact ⟨rfl, rfl⟩

attribute [local simp] updatePipeOptions Stage.connected setsockopt

/-- `update_pipe_options` at both ends of an attached pipe. -/
theorem setsockopt_connection (s : Inproc) (option : HwmOption)
    (value : Int) (hc : s.connection = some c) (hatt : c.stage.attached x = true) :
    let o := (s.setsockopt x option value).options x
    (s.setsockopt x option value).connection = some { c with
        ends := update c.ends x ((c.ends x).setHwms o.rcvhwm o.sndhwm)
        mail := update c.mail x.peer (c.mail x.peer ++ [(o.sndhwm, o.rcvhwm)]) } := by
  simp [hc, hatt]

/-- An option of `x` changes at its own end at once, and at the other one when the command
arrives. -/
theorem agreed_of_update {options' : Side → HwmOptions} {c' : Connection}
    (hadm : ∀ z, (options' z).Admitted) (hroom : Room options')
    (hpeer : options' x.peer = options x.peer) (hmail : c.mail x = [])
    (hboost : Boosted options c.ends x)
    (hends' : c'.ends = update c.ends x
      ((c.ends x).setHwms (options' x).rcvhwm (options' x).sndhwm))
    (hmail' : c'.mail = update c.mail x.peer
      (c.mail x.peer ++ [((options' x).sndhwm, (options' x).rcvhwm)])) (w : Side) :
    Agreed options' c'.final w := by
  obtain ⟨hin, hout, hin', hout'⟩ := hboost
  rw [← hpeer] at hin hout hin' hout'
  have hx : c'.final x = c'.ends x := Connection.final_of_nil
    (by rw [hmail', update_of_ne x.ne_peer, hmail])
  have hp := Connection.final_of_concat (by rw [hmail', update_self])
  refine agreed_of_sides x ?_ ?_ w
  · rw [hx, hends', update_self]
    exact setHwms_own hadm hroom x hin hout
  · rw [hp, hends', update_of_ne x.peer_ne]
    exact setHwms_sent hadm hroom x hin' hout'

theorem healthy_of_connected (h : c.stage.connected = true) :
    Healthy s c ↔ ∀ w, Agreed s.options c.final w := by
  unfold Healthy
  cases hst : c.stage with
  | searching | waiting => simp [hst] at h
  | binding | established => rfl

namespace Consistent

variable {s s' : Inproc} {c : Connection}

section
variable (h : Consistent s)
include h

theorem joined (hroom : Room s.options) (hmail : ∀ z, c.mail z = []) (stage : Stage) (w : Side) :
    Agreed s.options (connectInprocSockets c s.conflate (s.options .second) (s.options .first)
      stage).final w := by
  rw [Connection.final_eq_ends (by exact hmail)]
  -- each end gets the other socket's options as boosts and its own as marks
  simp only [h.ordinary]
  refine agreed_of_sides .first ?_ ?_ w
  · exact setHwms_own h.admitted hroom .first rfl rfl
  · exact setHwms_own h.admitted hroom .second rfl rfl

/-- `connect` with a good copy of the binder's options. -/
theorem connected (hroom : Room s.options) (hcopy : s.endpoint = some (s.options .second))
    (hc : s.connect.connection = some c) (w : Side) : Agreed s.options c.final w := by
  have hfirst := wrap_sum_eq (h.admitted .first).1 (h.admitted .second).2 (hroom .first)
  have hsecond := wrap_sum_eq (h.admitted .first).2 (h.admitted .second).1
    (by rw [Int.add_comm]; exact hroom .second)
  rw [total_comm] at hsecond
  -- the sums are taken before the pipe is made; the boosts do not matter here
  simp only [connect, hcopy, h.ordinary, getD_some, reduceCtorEq, if_false,
    Bool.false_eq_true, some.injEq] at hc
  subst hc
  refine agreed_of_sides .first ?_ ?_ w
  · exact ⟨hfirst, congrArg computeLwm hsecond⟩
  · exact ⟨hsecond, congrArg computeLwm hfirst⟩

theorem connect (hnone : s.connection = none)
    (hroom : s.endpoint.isSome → Room s.options) : Consistent s.connect where
  __ := h
  copy o ho _ := h.copy o ho (by simp [hnone])
  healthy c hc := by
    cases he : s.endpoint with
    | none =>
      simp only [Inproc.connect, he, some.injEq] at hc
      subst hc
      exact fun _ => rfl
    | some o =>
      have hcopy : o = s.options .second := h.copy o he (by simp [hnone])
      have hstage : c.stage = .binding := by
        simp only [Inproc.connect, he, reduceCtorEq, if_false, some.injEq] at hc
        rw [← hc]
      simp only [Healthy, hstage]
      exact h.connected (hroom (by rw [he]; rfl)) (hcopy ▸ he) hc

theorem pendConnection (hc : s.connection = some c) (hst : c.stage = .searching)
    (hroom : s.endpoint.isSome → Room s.options) : Consistent (s.pendConnection c) := by
  have hmail : ∀ z, c.mail z = [] := by
    have := h.healthy c hc
    simpa [Healthy, hst] using this
  unfold Inproc.pendConnection
  split
  · rename_i he
    refine ⟨h.admitted, h.ordinary, fun o ho => ?_, fun c' hc' => ?_⟩
    · cases he.symm.trans ho
    -- still nobody there: the copy is the connecter's options of this moment
    · cases hc'
      exact ⟨rfl, he, hmail⟩
  -- the binder has come in between
  · rename_i o he
    have hcopy : o = s.options .second :=
      h.copy o he fun c' hc' => by
        cases hc.symm.trans hc'
        exact hst
    subst hcopy
    refine ⟨h.admitted, h.ordinary, fun _ _ hstage => ?_, fun _ hc' => ?_⟩
    · cases hstage _ rfl
    · cases hc'
      exact h.joined (hroom (by rw [he]; rfl)) hmail .binding

theorem bind (hroom : s.connection.isSome → Room s.options) : Consistent s.bind where
  __ := h
  copy o ho _ := (some.inj ho).symm
  healthy c' hc' := by
    obtain ⟨c, hc, rfl⟩ := map_eq_some_iff.mp hc'
    have hold := h.healthy c hc
    cases hst : c.stage with
    | waiting =>
      simp only [Healthy, hst] at hold
      obtain ⟨rfl, -, hmail⟩ := hold
      exact h.joined (hroom (by rw [hc]; rfl)) hmail .established
    | searching | binding | established =>
      simp only [Healthy, hst] at hold ⊢
      exact hold

theorem processBind (hc : s.connection = some c) (hst : c.stage = .binding) :
    Consistent (s.processBind c) where
  __ := h
  -- after the connection the registered copy is not looked at any more
  copy o ho hstage := by cases hstage _ rfl
  healthy c' hc' := by
    cases hc'
    have hold := h.healthy c hc
    simp only [Healthy, hst] at hold
    exact hold

theorem processPipeHwm (hc : s.connection = some c) (hmail : c.mail x = m :: rest) :
    Consistent (s.processPipeHwm c x m.1 m.2) where
  __ := h
  copy o ho hstage := h.copy o ho fun c' hc' => by
    cases hc.symm.trans hc'
    have hsame := hstage _ rfl
    exact hsame
  healthy c' hc' := by
    cases hc'
    have hold := h.healthy c hc
    unfold Healthy at hold ⊢
    cases hst : c.stage with
    -- no command is sent before the connection, as long as the options stay as they are
    | searching =>
      simp only [hst] at hold
      cases hmail.symm.trans (hold x)
    | waiting =>
      simp only [hst] at hold
      cases hmail.symm.trans (hold.2.2 x)
    | binding | established =>
      simp only [hst] at hold ⊢
      rw [Connection.final_deliver hmail rfl (by rw [hmail]; rfl)]
      exact hold

end

section setsockopt
variable {x : Side} (option : HwmOption) (value : Int)

theorem admitted_setsockopt (h : Consistent s) (z : Side) :
    ((s.setsockopt x option value).options z).Admitted := by
  simp only [setsockopt, updatePipeOptions]
  by_cases hz : z = x
  · subst hz
    rw [update_self]
    exact (h.admitted z).setsockopt option value
  · rw [update_of_ne hz]
    exact h.admitted z

theorem setsockopt_options_of_ne (hz : z ≠ x) :
    (s.setsockopt x option value).options z = s.options z :=
  update_of_ne hz _ _

/-- There is no pipe yet, and nobody has a copy of the option that changes. -/
theorem setsockopt_of_none (h : Consistent s) (hc : s.connection = none)
    (hbinder : x = .second → s.endpoint = none) : Consistent (s.setsockopt x option value) := by
  have hnone : (s.setsockopt x option value).connection = none := by
    simp [hc]
  refine ⟨h.admitted_setsockopt option value, h.ordinary, fun o ho _ => ?_, fun c hc' => ?_⟩
  · -- the binder has registered its options, so it is the connecter that changes its own
    have hne : Side.second ≠ x := by
      rintro rfl
      cases (hbinder rfl).symm.trans ho
    rw [setsockopt_options_of_ne option value hne]
    exact h.copy o ho (by simp [hc])
  · cases hnone.symm.trans hc'

/-- The connection waits for the binder, which has no end of the pipe yet. -/
theorem setsockopt_of_unconnected (h : Consistent s) (hc : s.connection = some c)
    (hst : c.stage.connected = false) (hend : s.endpoint = none) :
    Consistent (s.setsockopt .second option value) := by
  have hatt : c.stage.attached .second = false := by
    cases hstage : c.stage with
    | searching | waiting => rfl
    | binding | established => simp [hstage] at hst
  have hconn : (s.setsockopt .second option value).connection = some c := by
    simp [hc, hatt]
  refine ⟨h.admitted_setsockopt option value, h.ordinary, fun o ho _ => ?_, fun _ hc' => ?_⟩
  · cases hend.symm.trans ho
  · cases hconn.symm.trans hc'
    have hold := h.healthy c hc
    unfold Healthy at hold ⊢
    cases hstage : c.stage with
    | searching =>
      simp only [hstage] at hold
      exact hold
    | waiting =>
      simp only [hstage] at hold
      refine ⟨?_, hold.2⟩
      rw [hold.1, setsockopt_options_of_ne option value (by decide)]
    | binding | established => simp [hstage] at hst

/-- The pipe is there, and both ends learn of the change. -/
theorem setsockopt_of_connected (h : Consistent s) (hc : s.connection = some c)
    (hst : c.stage.connected = true) (hatt : c.stage.attached x = true) (hmail : c.mail x = [])
    (hboost : Boosted s.options c.ends x) (hroom : Room (s.setsockopt x option value).options) :
    Consistent (s.setsockopt x option value) := by
  have hadm := h.admitted_setsockopt (x := x) option value
  have hpeer := setsockopt_options_of_ne (s := s) option value x.peer_ne
  have hconn := s.setsockopt_connection option value hc hatt
  refine ⟨hadm, h.ordinary, fun o _ hsearch => ?_, fun _ hc' => ?_⟩
  · have hno := hsearch _ hconn
    rw [show c.stage = .searching from hno] at hst
    cases hst
  · cases hconn.symm.trans hc'
    refine (healthy_of_connected (by exact hst)).mpr ?_
    exact agreed_of_update hadm hroom hpeer hmail hboost rfl rfl

end setsockopt
end Consistent

theorem Consistent.step (h : Consistent s) (hstep : Step s a s')
    (hgood : UpToDate s a) : Consistent s' := by
  cases a with
  | bind =>
    obtain ⟨-, hs'⟩ := ite_none_right_eq_some.mp hstep
    exact some.inj hs' ▸ h.bind hgood
  | connect =>
    obtain ⟨hnone, hs'⟩ := ite_none_right_eq_some.mp hstep
    exact some.inj hs' ▸ h.connect (isNone_iff_eq_none.mp hnone) hgood
  | pendConnection =>
    obtain ⟨c, hc, hstep⟩ := bind_eq_some_iff.mp hstep
    obtain ⟨hst, hs'⟩ := ite_none_right_eq_some.mp hstep
    exact some.inj hs' ▸ h.pendConnection hc hst hgood
  | setsockopt x option value =>
    obtain ⟨-, ⟨⟩⟩ := ite_none_right_eq_some.mp hstep
    unfold UpToDate at hgood
    cases hc : s.connection with
    | none =>
      simp only [hc] at hgood
      exact h.setsockopt_of_none option value hc hgood
    | some c =>
      simp only [hc] at hgood
      cases hst : c.stage.connected with
      | true =>
        rw [hst] at hgood
        obtain ⟨hatt, hmail, hboost, hroom⟩ := hgood
        exact h.setsockopt_of_connected option value hc hst hatt hmail hboost hroom
      | false =>
        rw [hst] at hgood
        obtain ⟨rfl, hend⟩ := hgood
        exact h.setsockopt_of_unconnected option value hc hst hend
  | processBind =>
    obtain ⟨c, hc, hstep⟩ := bind_eq_some_iff.mp hstep
    obtain ⟨hst, hs'⟩ := ite_none_right_eq_some.mp hstep
    exact some.inj hs' ▸ h.processBind hc hst
  | processPipeHwm =>
    obtain ⟨c, hc, hstep⟩ := bind_eq_some_iff.mp hstep
    split at hstep
    · cases hstep
    · rename_i inhwm outhwm rest hmail
      exact some.inj hstep ▸ h.processPipeHwm hc hmail

theorem consistent_initial (hc : connecter.Admitted)
    (hb : binder.Admitted) : Consistent (initial connecter binder false) where
  admitted := by
    intro x
    cases x with
    | first => exact hc
    | second => exact hb
  ordinary := rfl
  copy := nofun
  healthy := nofun

/-- **Both ends of an inproc connection have the watermarks of the two sockets' options**,
whoever comes first and however often they change, when all `pipe_hwm` commands have
arrived; in runs in which the copies of the options are good. -/
theorem inproc_watermarks_agree {connecter binder : HwmOptions} (hconnecter : connecter.Admitted)
    (hbinder : binder.Admitted) {tr : List Action} {s : Inproc} {c : Connection}
    (h : Exec (Guarded Step UpToDate) (initial connecter binder false) tr s)
    (hc : c ∈ s.connection) (hsettled : c.Settled) (w : Side) : Agreed s.options c.ends w := by
  have hs : Consistent s :=
    h.invariant Consistent (fun _ _ _ hi hstep => hi.step hstep.1 hstep.2)
      (consistent_initial hconnecter hbinder)
  have hagreed := (healthy_of_connected hsettled.1).mp (hs.healthy c hc) w
  rw [Connection.final_eq_ends hsettled.2] at hagreed
  exact hagreed

instance (s : Inproc) (a : Action) : Decidable (UpToDate s a) := by
  rcases s with ⟨_, _, _, _ | _⟩ <;> cases a <;> dsimp only [UpToDate] <;> infer_instance

/-- One step under a condition, for concrete runs. -/
def next (guard : Inproc → Action → Prop) [∀ s, DecidablePred (guard s)] (s : Inproc) (a : Action) :
    Option (Action × Inproc) :=
  if guard s a then (s.step a).map fun s' => (a, s') else none

theorem step_of_next {guard : Inproc → Action → Prop} [∀ s, DecidablePred (guard s)]
    (s : Inproc) (a e : Action) (s' : Inproc) (h : next guard s a = some (e, s')) :
    Guarded Step guard s e s' := by
  obtain ⟨hgood, h⟩ := ite_none_right_eq_some.mp h
  obtain ⟨t, ht, ⟨⟩⟩ := map_eq_some_iff.mp h
  exact ⟨ht, hgood⟩

/-- A pipe of two sockets with the default options, one of which changes. -/
theorem inproc_watermarks_agree_after_change :
    ∃ tr s, Exec (Guarded Step UpToDate) (initial .default .default false) tr s ∧
      ∃ c ∈ s.connection, c.Settled ∧ (c.ends .first).hwm = 1005 ∧
        ∀ w, Agreed s.options c.ends w := by
  refine exists_exec_with step_of_next
    (fun s => ∃ c ∈ s.connection, c.Settled ∧ (c.ends .first).hwm = 1005)
    [.connect, .pendConnection, .bind, .setsockopt .first .sndhwm 5, .processPipeHwm .second]
    (by decide +kernel) ?_
  rintro _ _ hexec ⟨c, hc, hsettled, hhwm⟩
  exact ⟨c, hc, hsettled, hhwm, fun w =>
    inproc_watermarks_agree (by decide) (by decide) hexec hc hsettled w⟩

/-- Three ways to disagree. The connecter changes an option, and the other end adds the
new value to the old one, which it has taken for the binder's. The binder changes an
option after `bind`, and `connect` uses the copy. Two large values overflow. -/
theorem inproc_watermarks_disagree :
    (∃ tr s, Exec (Guarded Step fun _ _ => True) (initial ⟨1, 1⟩ ⟨1, 10⟩ false) tr s ∧
      ∃ c ∈ s.connection, c.Settled ∧ totalHwm s.options .first = 15 ∧
        (c.ends .first).hwm = 15 ∧ (c.ends .second).lwm = Pipe.computeLwm 6) ∧
    (∃ tr s, Exec (Guarded Step fun _ _ => True) (initial ⟨1, 1⟩ ⟨1, 10⟩ false) tr s ∧
      ∃ c ∈ s.connection, c.Settled ∧ totalHwm s.options .first = 21 ∧
        (c.ends .first).hwm = 11 ∧ (c.ends .second).lwm = Pipe.computeLwm 11) ∧
    ∃ tr s, Exec (Guarded Step fun _ _ => True)
        (initial ⟨CInt.max, CInt.max⟩ ⟨CInt.max, CInt.max⟩ false) tr s ∧
      ∃ c ∈ s.connection, c.Settled ∧ (c.ends .first).hwm = -2 := by
  refine ⟨?_, ?_, ?_⟩
  · exact exists_exec_of_replay step_of_next
      [.bind, .connect, .processBind, .setsockopt .first .sndhwm 5, .processPipeHwm .second]
      (by decide +kernel)
  · exact exists_exec_of_replay step_of_next
      [.bind, .setsockopt .second .rcvhwm 20, .connect, .processBind] (by decide +kernel)
  · exact exists_exec_of_replay step_of_next [.bind, .connect, .processBind] (by decide +kernel)

end Inproc
end LibZmq
