import LibZmq.Socket.Xpub

/-!
# What an XPUB socket tells of its subscribers

A device that forwards subscriptions reads the notifications of an `xpub_t` socket that is neither
manual nor verbose (`xpub.cpp`) and applies them upstream. They come from requests and from
pipes that terminate.

* `upstream_topics_exact`: per topic they alternate, and the last ones say which topics have a
  subscriber, if every cancellation comes from a pipe that has subscribed.
* `stranger_cancels_upstream`: anybody else's cancellation is forwarded too.
-/

namespace LibZmq

open LibZmq.Core List

/-- A device that does not expect a topic to be subscribed to, or cancelled, twice. -/
def Request.forward (subscribed : Bytes → Bool) (r : Request) : Option (Bytes → Bool) :=
  if subscribed r.key = r.subscribe then none
  else some (Function.update subscribed r.key r.subscribe)

/-- A notification, as the user reads it. -/
def Pending.request (d : Pending) : Request := ⟨d.data.headD 0 == 1, d.data.tail⟩

namespace Upstream

inductive Act where
  /-- A round of the loop of `xread_activated`. -/
  | part (p : PipeId) (m : Msg)
  /-- `xpipe_terminated`, as far as the subscriptions are concerned. -/
  | terminate (p : PipeId)

def initial (onlyFirstSubscribe : Bool) : Xpub := { Xpub.new false with onlyFirstSubscribe }

def next (x : Xpub) : Act → Except Failure Xpub
  | .part p m => do .ok (← x.processPart p m).1
  | .terminate p => x.dropSubscriptions p

/-- The peers send requests only, so that everything that is queued is a notification. -/
def Enabled (x : Xpub) : Act → Prop
  | .part _ m => (x.request? m).toOption.join.isSome
  | .terminate _ => True

def Step (x : Xpub) (a : Act) (x' : Xpub) : Prop := Enabled x a ∧ next x a = .ok x'

/-- Only subscribers cancel. -/
def Explicit (x : Xpub) : Act → Prop
  | .part p m => ∀ r ∈ (x.request? m).toOption.join, r.subscribe = false →
      p ∈ x.subscriptions.pipes r.key
  | .terminate _ => True

instance (x : Xpub) (a : Act) : Decidable (Enabled x a) := by
  rcases a <;> dsimp only [Enabled] <;> infer_instance

instance (x : Xpub) (a : Act) : Decidable (Explicit x a) := by
  rcases a <;> dsimp only [Explicit] <;> infer_instance

/-- Somebody has subscribed to the topic. -/
def wanted (t : Mtrie PipeId) (k : Bytes) : Bool := decide (t.pipes k ≠ ∅)

/-- The device follows all notifications, and has then subscribed to what somebody wants. -/
def Exact (x : Xpub) : Prop :=
  (x.pending.map Pending.request).foldlM Request.forward (fun _ => false) =
    some (wanted x.subscriptions)

/-! ## The invariant -/

/-- Neither manual nor verbose, and not a PUB socket. -/
def Default (x : Xpub) : Prop :=
  x.manual = false ∧ x.verboseSubs = false ∧ x.verboseUnsubs = false ∧ x.isPub = false

structure Sound (x : Xpub) : Prop where
  default : Default x
  valid : x.subscriptions.Valid
  exact : Exact x

variable {x x' : Xpub}

/-- What is queued tells the device of the change. -/
theorem Exact.append (h : Exact x) (hpending : x'.pending = x.pending ++ l)
    (hl : (l.map Pending.request).foldlM Request.forward (wanted x.subscriptions) =
      some (wanted x'.subscriptions)) : Exact x' := by
  rw [Exact, hpending, map_append, foldlM_append, h]
  exact hl

/-- The user is told of a request if the topic was, or is now, nobody's. -/
theorem applyRequest_notifies (happly : x.applyRequest p r = .ok (t, notify)) (hd : Default x)
    (hvalid : x.subscriptions.Valid)
    (hmem : r.subscribe = false → p ∈ x.subscriptions.pipes r.key) :
    t.Valid ∧ wanted x.subscriptions r.key = (!notify || !r.subscribe) ∧
      wanted t = Function.update (wanted x.subscriptions) r.key (!notify || r.subscribe) := by
  simp only [Xpub.applyRequest, hd.2.1, hd.2.2.1, Bool.or_false] at happly
  cases hs : r.subscribe with
  | true =>
    obtain ⟨t', hadd, hvalid', hpipes⟩ := Mtrie.add_spec hvalid r.key p
    simp only [hs, Xpub.liftTrie_ok hadd, if_true, ok_bind] at happly
    cases happly
    refine ⟨hvalid', by simp [wanted], funext fun k => ?_⟩
    by_cases hk : k = r.key <;> simp [wanted, hpipes, hk]
  | false =>
    obtain ⟨t', hrm, hvalid', hpipes⟩ := Mtrie.rm_spec hvalid r.key p
    simp only [hs, Xpub.liftTrie_ok hrm, ok_bind] at happly
    cases happly
    -- `not_found` is the answer to a pipe that has not subscribed only
    have hp := hmem hs
    refine ⟨hvalid', by simp [wanted, Finset.ne_empty_of_mem hp], funext fun k => ?_⟩
    by_cases hk : k = r.key
    · by_cases he : (x.subscriptions.pipes r.key).erase p = ∅ <;>
        simp [wanted, Mtrie.resultOf, hpipes, hk, hp, he]
    · simp [wanted, hpipes, hk]

theorem Sound.part (h : Sound x) (hexplicit : Explicit x (.part p m))
    (hstep : Step x (.part p m) x') : Sound x' := by
  obtain ⟨hrequest, hnext⟩ := hstep
  obtain ⟨⟨x, request⟩, hpart, ⟨⟩⟩ := bind_ok hnext
  obtain ⟨request', hreq, hpart⟩ := bind_ok hpart
  rw [Explicit, hreq] at hexplicit
  rw [Enabled, hreq] at hrequest
  obtain ⟨⟨subscribe, key⟩, rfl⟩ := Option.isSome_iff_exists.mp hrequest
  simp only [h.default.1] at hpart
  obtain ⟨⟨t, notify⟩, happly, ⟨⟩⟩ := bind_ok hpart
  obtain ⟨hvalid, hbefore, hafter⟩ :=
    applyRequest_notifies happly ⟨rfl, h.default.2⟩ h.valid (hexplicit _ rfl)
  refine ⟨⟨rfl, h.default.2⟩, hvalid, h.exact.append
    (l := if notify then [⟨Request.encode ⟨subscribe, key⟩, 0⟩] else []) ?_ ?_⟩
  · cases notify <;> simp [h.default.2.2.2]
  · -- the request is queued exactly if the device has to act
    rw [hafter]
    cases notify <;> cases subscribe <;>
      simp_all [Pending.request, Request.encode, Request.forward]

/-- The cancellations of different topics. -/
theorem forward_cancels {f : Bytes → Bool} (keys : List Bytes) (hnodup : keys.Nodup)
    (hmem : ∀ k ∈ keys, f k = true) : (keys.map (Request.mk false)).foldlM Request.forward f =
      some fun k => f k && decide (k ∉ keys) := by
  induction keys generalizing f with
  | nil => simp
  | cons k _ ih =>
    obtain ⟨hk, hnodup⟩ := nodup_cons.mp hnodup
    have hstep : Request.forward f ⟨false, k⟩ = some (Function.update f k false) := by
      simp [Request.forward, hmem k mem_cons_self]
    rw [map_cons, foldlM_cons, hstep, Option.bind_eq_bind, Option.bind_some,
      ih hnodup fun k' hk' => by
      rw [Function.update_of_ne (ne_of_mem_of_not_mem hk' hk), hmem k' (mem_cons_of_mem k hk')]]
    -- no topic is cancelled twice, so that the other ones are still subscribed to
    refine congrArg some (funext fun k' => ?_)
    by_cases hk' : k' = k <;> simp [hk']

theorem Sound.terminate (h : Sound x) (hnext : next x (.terminate p) = .ok x') : Sound x' := by
  obtain ⟨hmanual, -, hunsubs, hpub⟩ := h.default
  -- the function is called for the topics that nobody else has subscribed to
  obtain ⟨t, keys, hrm, hvalid, hpipes, hnodup, hkeys⟩ := Mtrie.rmAll_spec h.valid p true
  obtain rfl : { x with
      subscriptions := t, pending := x.pending ++ keys.map fun k => ⟨0 :: k, 0⟩ } = x' := by
    simpa [next, Xpub.dropSubscriptions, Xpub.sendUnsubscription, hmanual, hunsubs, hpub,
      Xpub.liftTrie_ok hrm] using hnext
  refine ⟨h.default, hvalid, h.exact.append rfl ?_⟩
  rw [map_map]
  refine (forward_cancels keys hnodup fun k hk => ?_).trans (congrArg some (funext fun k => ?_))
  · exact decide_eq_true (Finset.ne_empty_of_mem ((hkeys k).mp hk).1)
  · simp only [wanted, hkeys, hpipes]
    grind

/-! ## The view of the device -/

/-- **Per topic the notifications alternate, beginning with a subscription, and the topics whose
last notification is a subscription are those that somebody has subscribed to**, after any requests
and terminations, if only subscribers cancel. -/
theorem upstream_topics_exact (onlyFirstSubscribe : Bool) {acts : List Act} {x : Xpub}
    (h : Exec (Guarded Step Explicit) (initial onlyFirstSubscribe) acts x) : Exact x := by
  have hnew := Mtrie.represents_new (V := PipeId)
  refine (h.invariant Sound (fun x a _ hx hstep => ?_)
    ⟨⟨rfl, rfl, rfl, rfl⟩, hnew.valid, congrArg some (funext fun k => ?_)⟩).exact
  · cases a with
    | part p m => exact hx.part hstep.2 hstep.1
    | terminate p => exact hx.terminate hstep.1.2
  · exact (decide_eq_false (not_not.mpr ((hnew.pipes_eq_empty k).mpr (by simp)))).symm

/-- Two peers subscribe to one topic; the second one goes without a cancellation. -/
theorem upstream_topics_exact_terminated : ∃ acts x,
    Exec (Guarded Step Explicit) (initial false) acts x ∧
    x.pending.map Pending.request = [⟨true, [65]⟩, ⟨false, [65]⟩] ∧ Exact x := by
  refine exists_exec_with guarded_of_attempt
    (fun x => x.pending.map Pending.request = [⟨true, [65]⟩, ⟨false, [65]⟩])
    [.part 0 ⟨.vsm, 0, [1, 65]⟩, .part 1 ⟨.vsm, 0, [1, 65]⟩, .part 0 ⟨.vsm, 0, [0, 65]⟩,
      .terminate 1] (by decide +kernel) fun _ _ hexec htold => ?_
  exact ⟨htold, upstream_topics_exact false hexec⟩

/-- A peer that has not subscribed cancels the topic of another one: `rm` finds nothing, which is
not `values_remain`, and the cancellation is queued. -/
theorem stranger_cancels_upstream : ∃ acts x, Exec Step (initial false) acts x ∧
    x.pending.map Pending.request = [⟨true, [65]⟩, ⟨false, [65]⟩] ∧
    x.subscriptions.pipes [65] = {0} ∧ ¬ Exact x := by
  refine exists_exec_with step_of_attempt
    (fun x => x.pending.map Pending.request = [⟨true, [65]⟩, ⟨false, [65]⟩] ∧
      x.subscriptions.pipes [65] = {0})
    [.part 0 ⟨.vsm, 0, [1, 65]⟩, .part 1 ⟨.vsm, 0, [0, 65]⟩] (by decide +kernel) ?_
  rintro _ x - ⟨htold, hpipes⟩
  refine ⟨htold, hpipes, fun hexact => ?_⟩
  rw [Exact, htold] at hexact
  have hkey := congrFun (Option.some.inj hexact) [65]
  rw [wanted, hpipes] at hkey
  exact absurd hkey (by decide)

end Upstream
end LibZmq
