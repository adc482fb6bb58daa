import Mathlib.Data.List.TakeWhile
import LibZmq.Wire.Bytes

/-!
# Joining and leaving groups

A `DISH` socket tells a `RADIO` socket which groups it wants. Between two sessions a request is a
command with a name and the group (`dish.cpp`, `radio.cpp`); the session of the `RADIO` socket takes
the length of the group from the size of the frame, as an `int`.

* `join_leave_round_trip`: requests get through, and the session copes with a command of its peer if
  and only if the length of the group, as it is computed, is at most 15.
-/

namespace LibZmq

open List

/-- A message of a session. -/
inductive GroupMsg where
  /-- A message of the type `join` or `leave`. -/
  | request (leave : Bool) (group : Bytes)
  /-- Any other one; `subscription` stands for `is_subscribe` or `is_cancel`. -/
  | frame (command subscription : Bool) (data : Bytes)
deriving DecidableEq

/-- An assertion fails. -/
inductive GroupFault where
  | assertion
deriving DecidableEq

namespace GroupMsg

/-- `ZMQ_GROUP_MAX_LENGTH`. -/
def groupMaxLength : Nat := 15

/-- `set_group`, which copies with `strncpy`. -/
def setGroup (data : Bytes) : Bytes := data.takeWhile (· != 0)

/-- `"\4JOIN"` and `"\5LEAVE"`. -/
def name : Bool → Bytes
  | false => [4, 74, 79, 73, 78]
  | true => [5, 76, 69, 65, 86, 69]

/-- `dish_session_t::pull_msg`, for a message that the pipe has. -/
def pullMsg : GroupMsg → GroupMsg
  | request leave group => frame true false (name leave ++ group)
  | m => m

/-- The variable `group_length`: the size of the frame is converted to an `int`. -/
def groupLength (size nameSize : Nat) : Int := Int.bmod size 4294967296 - nameSize

/-- What `radio_session_t::push_msg` makes of a message. `set_group` must not fail; it takes the
length as a `size_t`, so that a negative one is too large. -/
def rewrite : GroupMsg → Except GroupFault GroupMsg
  | frame true subscription data =>
      match [false, true].find? fun leave => (name leave).isPrefixOf data with
      | none => .ok (frame true subscription data)
      | some leave =>
          let length := groupLength data.length (name leave).length
          if 0 ≤ length ∧ length ≤ groupMaxLength then
            .ok (request leave (setGroup ((data.drop (name leave).length).take length.toNat)))
          else .error .assertion
  | m => .ok m

/-- `radio_session_t::push_msg`: the return value, the message that the engine keeps, and the
pipe. -/
def pushMsg (m : GroupMsg) (room : Bool) (pipe : List GroupMsg) :
    Except GroupFault (Int × GroupMsg × List GroupMsg) := do
  match ← rewrite m with
  -- `session_base_t::push_msg` drops other commands
  | frame true false data => .ok (0, frame true false data, pipe)
  | m => .ok (if room then (0, frame false false [], pipe ++ [m]) else (-1, m, pipe))

/-- The engine submits a message until it is accepted. -/
def submit (m : GroupMsg) (pipe : List GroupMsg) : List Bool → Except GroupFault (List GroupMsg)
  | [] => .ok pipe
  | room :: rooms => do
      let (rc, m, pipe) ← pushMsg m room pipe
      if rc = 0 then .ok pipe else submit m pipe rooms

theorem setGroup_eq_iff (data : Bytes) : setGroup data = data ↔ 0 ∉ data := by
  rw [setGroup, takeWhile_eq_self_iff]
  simp only [bne_iff_ne]
  exact ⟨fun h hzero => h 0 hzero rfl, fun h b hb hzero => h (hzero ▸ hb)⟩

/-- The length of a group is computed modulo `2 ^ 32`. -/
theorem groupLength_spec (g : Nat) {k : Nat} (hk : k ≤ 6) :
    if g % 4294967296 ≤ groupMaxLength then groupLength (k + g) k = (g % 4294967296 : Nat)
    else ¬ (0 ≤ groupLength (k + g) k ∧ groupLength (k + g) k ≤ groupMaxLength) := by
  unfold groupLength groupMaxLength Int.bmod
  dsimp only
  split <;> split <;> omega

theorem rewrite_command (leave subscription : Bool) (group : Bytes) :
    rewrite (frame true subscription (name leave ++ group)) =
      if group.length % 4294967296 ≤ groupMaxLength then
        .ok (request leave (setGroup (group.take (group.length % 4294967296))))
      else .error .assertion := by
  have hfind : [false, true].find? (fun l => (name l).isPrefixOf (name leave ++ group)) =
      some leave := by
    cases leave <;> simp [name]
  have hlength := groupLength_spec group.length
    (show (name leave).length ≤ 6 by cases leave <;> decide)
  simp only [rewrite, hfind, drop_left, length_append]
  split at hlength <;> rename_i hshort
  · rw [hlength, if_pos (by omega), if_pos hshort, Int.toNat_natCast]
  · rw [if_neg hlength, if_neg hshort]

/-- A message can be rewritten, unless it is a command whose group is too long. -/
theorem rewrite_ok_iff (m : GroupMsg) : (∃ m', rewrite m = .ok m') ↔
    ∀ leave subscription group, m = frame true subscription (name leave ++ group) →
      group.length % 4294967296 ≤ groupMaxLength := by
  constructor
  · rintro ⟨m', h⟩ leave subscription group rfl
    rw [rewrite_command] at h
    split at h
    · assumption
    · cases h
  · intro hshort
    unfold rewrite
    split
    · split
      · exact ⟨_, rfl⟩
      rename_i subscription data _ leave hfind
      have hname : (name leave).isPrefixOf data = true := by simpa using find?_some hfind
      obtain ⟨group, rfl⟩ := isPrefixOf_iff_prefix.mp hname
      have hok := rewrite_command leave subscription group
      rw [if_pos (hshort leave subscription group rfl), rewrite, hfind] at hok
      exact ⟨_, hok⟩
    · exact ⟨_, rfl⟩

/-- A request that was refused is kept as a request. -/
theorem submit_request (leave : Bool) (group : Bytes) (pipe : List GroupMsg) (n : Nat) :
    submit (request leave group) pipe (replicate n false ++ [true]) =
      .ok (pipe ++ [request leave group]) := by
  induction n with
  | zero => rfl
  | succ n ih => exact ih

/-- **Groups are joined and left**: a request reaches the `RADIO` socket, however often the pipe is
full, and its session copes with a message if and only if it is no command whose group is too
long. -/
theorem join_leave_round_trip (pipe : List GroupMsg) :
    (∀ leave group n, group.length ≤ groupMaxLength → 0 ∉ group →
      submit (pullMsg (request leave group)) pipe (replicate n false ++ [true]) =
        .ok (pipe ++ [request leave group])) ∧
    ∀ m room, (pushMsg m room pipe).map Prod.fst ∈ [.ok 0, .ok (-1)] ↔
      ∀ leave subscription group, m = frame true subscription (name leave ++ group) →
        group.length % 4294967296 ≤ groupMaxLength := by
  refine ⟨fun leave group n hlen hnul => ?_, fun m room => ?_⟩
  · have hmod : group.length % 4294967296 = group.length := by
      rw [groupMaxLength] at hlen
      omega
    have hrewrite : rewrite (pullMsg (request leave group)) = .ok (request leave group) := by
      rw [pullMsg, rewrite_command, hmod, if_pos hlen, take_length, (setGroup_eq_iff _).mpr hnul]
    cases n <;> simp only [replicate_zero, replicate_succ, nil_append, cons_append, submit, pushMsg,
      hrewrite]
    · rfl
    · exact submit_request ..
  · rw [← rewrite_ok_iff, pushMsg]
    cases rewrite m with
    | error e => simp [bind, Except.bind, Except.map]
    | ok m' =>
      refine iff_of_true ?_ ⟨m', rfl⟩
      rcases m' with _ | ⟨_ | _, _ | _, _⟩ <;> cases room <;> simp [bind, Except.bind, Except.map]

theorem join_leave_round_trip_refused :
    submit (pullMsg (request true [103])) [] [false, false, true] = .ok [request true [103]] :=
  (join_leave_round_trip []).1 true [103] 2 (by decide) (by decide)

/-- A JOIN with a group of 16 bytes ends the process. -/
theorem long_group_aborts :
    pushMsg (frame true false (name false ++ replicate 16 103)) true [] = .error .assertion := rfl

end GroupMsg
end LibZmq
