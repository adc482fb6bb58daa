import LibZmq.Socket.Router
import LibZmq.Socket.Stream

/-!
# Peers are found by their routing ids

The routing ids in the table of a `ROUTER` or `STREAM` socket come from the peers, from the user
and from a counter. They share one name space, and `add_out_pipe` asserts that a routing id is not
in use.
-/

namespace LibZmq

open LibZmq.Core PipePair RoutingBase Channels List Finset AList
open Ensures (intro)

/-! ## The counter -/

/-- After `g` steps of the counter every routing id in the table was chosen by somebody or is one of
the first `g` that the counter has given. -/
structure Counted (b : RoutingBase) (start next : UInt32) (chosen : List Blob) (g : Nat) :
    Prop where
  next : next = start + UInt32.ofNat g
  origin : ∀ id, id ∈ b.outPipes → id ∈ chosen ∨
    ∃ i < g, id = integralRoutingId (start + UInt32.ofNat i)

namespace Counted

variable {b b' : RoutingBase} {start next : UInt32} {chosen chosen' : List Blob} {g : Nat}
  {id : Blob}

section
variable (h : Counted b start next chosen g)
include h

/-- A generated routing id is in use only if somebody has chosen it. -/
theorem fresh (hg : g < 2 ^ 32)
    (hun : integralRoutingId next ∈ b.outPipes → integralRoutingId next ∉ chosen) :
    integralRoutingId next ∉ b.outPipes := by
  intro hmem
  rcases h.origin _ hmem with hch | ⟨i, hi, heq⟩
  · exact hun hmem hch
  · rw [h.next] at heq
    exact counter_ne hi hg (integralRoutingId_injective heq).symm

/-- Nothing was drawn, and everything in the table was there or was chosen. -/
theorem choose (hsub : chosen ⊆ chosen')
    (hb : ∀ id, id ∈ b'.outPipes → id ∈ b.outPipes ∨ id ∈ chosen') :
    Counted b' start next chosen' g := by
  refine ⟨h.next, fun id hid => ?_⟩
  rcases hb id hid with hid | hid
  · exact (h.origin id hid).imp_left fun hch => hsub hch
  · exact .inl hid

theorem draw (hb : ∀ id, id ∈ b'.outPipes → id ∈ b.outPipes ∨ id = integralRoutingId next) :
    Counted b' start (next + 1) chosen (g + 1) := by
  refine ⟨?_, fun id hid => ?_⟩
  · rw [h.next, add_assoc]
    congr 1
    exact (UInt32.ofNat_add g 1).symm
  · rcases hb id hid with hid | rfl
    · refine (h.origin id hid).imp_right ?_
      rintro ⟨i, hi, heq⟩
      exact ⟨i, Nat.lt_succ_of_lt hi, heq⟩
    · exact .inr ⟨g, Nat.lt_succ_self g, by rw [h.next]⟩

end

end Counted

/-! ## The pipes of a socket -/

/-- Of the pipes `pipes` some are anonymous and the others are in the table, after `k` pipes were
attached. -/
structure Census (b : RoutingBase) (start next : UInt32) (chosen : List Blob)
    (anonymous pipes : Finset PipeId) (k : Nat) : Prop where
  subset : anonymous ⊆ pipes
  lists : b.Lists (pipes \ anonymous)
  counted : ∃ g, g + anonymous.card ≤ k ∧ Counted b start next chosen g

namespace Census

theorem new (start : UInt32) : Census .new start start [] ∅ ∅ 0 :=
  ⟨subset_rfl, lists_new, 0, le_rfl, (add_zero start).symm, nofun⟩

variable {b b' : RoutingBase} {start next : UInt32} {chosen chosen' : List Blob}
  {anonymous pipes : Finset PipeId} {k k' : Nat} {p : PipeId} {id : Blob} {e : OutPipe}

section
variable (h : Census b start next chosen anonymous pipes k)
include h

theorem mono (hsub : chosen ⊆ chosen') (hle : k ≤ k') :
    Census b start next chosen' anonymous pipes k' := by
  obtain ⟨g, hg, hcounted⟩ := h.counted
  exact ⟨h.subset, h.lists, g, hg.trans hle, hcounted.choose hsub fun _ => .inl⟩

/-- The table has got no new routing ids. -/
theorem table (hlists : b'.Lists (pipes \ anonymous))
    (hkeys : ∀ id, id ∈ b'.outPipes → id ∈ b.outPipes) :
    Census b' start next chosen anonymous pipes k := by
  obtain ⟨g, hg, hcounted⟩ := h.counted
  exact ⟨h.subset, hlists, g, hg,
    hcounted.choose (Subset.refl _) fun id hid => .inl (hkeys id hid)⟩

theorem deactivate (hlook : b.lookupOutPipe id = some e) :
    Census (b.deactivate id e) start next chosen anonymous pipes k :=
  h.table (h.lists.deactivate hlook) (mem_of_deactivate hlook)

theorem xwriteActivated (hb : b.xwriteActivated p = .ok b') :
    Census b' start next chosen anonymous pipes k := by
  obtain ⟨hlists, hkeys⟩ := h.lists.xwriteActivated hb
  exact h.table hlists fun id => (hkeys id).mp

theorem setConnectRoutingId (id : Blob) :
    Census ((b.setConnectRoutingId id).getD b) start next chosen anonymous pipes k := by
  unfold RoutingBase.setConnectRoutingId
  split
  · exact h
  · exact h.table h.lists fun _ hmem => hmem

/-- A pipe is attached, and is not identified yet. -/
theorem enter (hp : p ∉ pipes) :
    Census b start next chosen (insert p anonymous) (insert p pipes) (k + 1) := by
  obtain ⟨g, hg, hcounted⟩ := h.counted
  refine ⟨insert_subset_insert _ h.subset, ?_, g, ?_, hcounted⟩
  · rw [insert_sdiff_insert, sdiff_insert_of_notMem hp]
    exact h.lists
  · rw [card_insert_of_notMem fun hmem => hp (h.subset hmem)]
    omega

/-- A pipe goes away. -/
theorem erase (hp : p ∈ pipes) (hnot : p ∉ anonymous) :
    Ensures (b.eraseOutPipe p) fun b' =>
      Census b' start next chosen anonymous (pipes.erase p) k := by
  obtain ⟨g, hg, hcounted⟩ := h.counted
  obtain ⟨herase, hlists⟩ := h.lists.erase (mem_sdiff.mpr ⟨hp, hnot⟩)
  rw [herase]
  refine .ok ⟨?_, ?_, g, hg, hcounted.choose (Subset.refl _) fun _ hid => .inl (mem_erase.mp hid).2⟩
  · exact fun q hq => mem_erase.mpr ⟨fun heq => hnot (heq ▸ hq), h.subset hq⟩
  · rw [erase_sdiff_comm]
    exact hlists

variable (hp : p ∈ anonymous)
include hp

/-- An anonymous pipe goes away. -/
theorem leave : Census b start next chosen (anonymous.erase p) (pipes.erase p) k := by
  obtain ⟨g, hg, hcounted⟩ := h.counted
  have hsame : pipes.erase p \ anonymous.erase p = pipes \ anonymous := by grind
  exact ⟨erase_subset_erase _ h.subset, hsame ▸ h.lists, g,
    (Nat.add_le_add_left (card_erase_le ..) g).trans hg, hcounted⟩

/-- A generated routing id is in use only if somebody has chosen it. -/
theorem fresh (hk : k ≤ 2 ^ 32)
    (hun : integralRoutingId next ∈ b.outPipes → integralRoutingId next ∉ chosen) :
    integralRoutingId next ∉ b.outPipes := by
  obtain ⟨g, hg, hcounted⟩ := h.counted
  have hpos := card_pos.mpr ⟨p, hp⟩
  exact hcounted.fresh (by omega) hun

theorem lists_of_name (hname : b.name p id = .ok b') :
    b'.Lists (pipes \ anonymous.erase p) ∧
      ∀ id', id' ∈ b'.outPipes ↔ id' = id ∨ id' ∈ b.outPipes := by
  obtain ⟨hlists, -, hkeys, -⟩ := h.lists.name (fun hmem => (mem_sdiff.mp hmem).2 hp) hname
  rw [sdiff_erase (h.subset hp)]
  exact ⟨hlists, hkeys⟩

/-- The pipe gets a routing id from the counter. -/
theorem draw (hfresh : integralRoutingId next ∉ b.outPipes) :
    Ensures (b.name p (integralRoutingId next)) fun b' =>
      Census b' start (next + 1) chosen (anonymous.erase p) pipes k := by
  obtain ⟨g, hg, hcounted⟩ := h.counted
  have hcard := card_erase_add_one hp
  refine (intro (name_ne_assertion hfresh)).mono fun b' hb => ?_
  obtain ⟨hlists, hkeys⟩ := h.lists_of_name hp hb
  exact ⟨(Finset.erase_subset ..).trans h.subset, hlists, g + 1, by omega,
    hcounted.draw fun id hid => ((hkeys id).mp hid).symm⟩

end

/-- The pipe gets a routing id that somebody has chosen and that is not in use; the counter may have
made one more step. -/
theorem name (h : Census b start next chosen anonymous pipes (k + 1)) (hp : p ∈ anonymous)
    (hid : id ∉ b.outPipes) (hch : id ∈ chosen) :
    Ensures (b.name p id) fun b' => Census b' start next chosen (anonymous.erase p) pipes k := by
  obtain ⟨g, hg, hcounted⟩ := h.counted
  have hcard := card_erase_add_one hp
  refine (intro (name_ne_assertion hid)).mono fun b' hb => ?_
  obtain ⟨hlists, hkeys⟩ := h.lists_of_name hp hb
  refine ⟨(Finset.erase_subset ..).trans h.subset, hlists, g, by omega,
    hcounted.choose (Subset.refl _) fun id' hid' => ?_⟩
  rcases (hkeys id').mp hid' with rfl | hmem
  · exact .inr hch
  · exact .inl hmem

end Census

/-! ## `ROUTER` -/

namespace Router

/-- The routing id that `identify_peer` gets from the user or from the peer. -/
def choice (r : Router) (cs : Channels) (p : PipeId) (locallyInitiated : Bool) : Option Blob :=
  if locallyInitiated && !r.connectRoutingId.isEmpty then some r.connectRoutingId
  else if r.optionsRaw then none
  else
    match cs.read p with
    | .ok (some m, _) => if m.data = [] then none else some m.data
    | _ => none

/-- `identify_peer` takes a routing id from the counter. -/
def draws (r : Router) (cs : Channels) (p : PipeId) (locallyInitiated : Bool) : Bool :=
  if locallyInitiated && !r.connectRoutingId.isEmpty then false
  else if r.optionsRaw then true
  else
    match cs.read p with
    | .ok (some m, _) => m.data.isEmpty || (r.handover && r.hasOutPipe m.data)
    | _ => false

/-- A routing id that is taken from the counter is not in use because somebody has chosen it, and
the user does not choose one that is in use. -/
def Unclaimed (r : Router) (chosen : List Blob) (cs : Channels) (p : PipeId)
    (locallyInitiated : Bool) : Prop :=
  (r.draws cs p locallyInitiated = true → integralRoutingId r.nextIntegralRoutingId ∈ r.outPipes →
    integralRoutingId r.nextIntegralRoutingId ∉ chosen) ∧
  (locallyInitiated = true → r.connectRoutingId ∉ r.outPipes)

/-- The census of the pipes of a socket. -/
abbrev Counts (r : Router) (start : UInt32) (chosen : List Blob) (pipes : Finset PipeId) (k : Nat) :
    Prop :=
  Census r.toRoutingBase start r.nextIntegralRoutingId chosen r.anonymousPipes pipes k

/-- What `identify_peer` leaves behind for the pipe `p`, which was anonymous. -/
def Identified (r : Router) (start : UInt32) (chosen : List Blob) (anonymous pipes : Finset PipeId)
    (k : Nat) (p : PipeId) (res : Bool × Router × Channels) : Prop :=
  res.2.1.anonymousPipes = r.anonymousPipes ∧
    Census res.2.1.toRoutingBase start res.2.1.nextIntegralRoutingId chosen
      (if res.1 then anonymous.erase p else anonymous) pipes k

section identify
variable {r : Router} {start : UInt32} {chosen : List Blob} {anonymous pipes : Finset PipeId}
  {k : Nat} {p old : PipeId} {cs : Channels} {id : Blob} {m : Msg} {loc : Bool}

/-- A routing id that somebody has chosen and that is not in use. -/
theorem namePipe_spec
    (h : Census r.toRoutingBase start r.nextIntegralRoutingId chosen anonymous pipes (k + 1))
    (hp : p ∈ anonymous) (hid : id ∉ r.outPipes) (hch : id ∈ chosen) :
    Ensures (r.namePipe cs p id) (Identified r start chosen anonymous pipes k p) :=
  (h.name hp hid hch).bind fun _ hb => .ok ⟨rfl, hb⟩

theorem replacePipe_spec (r : Router) (cs : Channels) :
    Ensures (r.replacePipe cs old) fun res => res.1.toRoutingBase = r.toRoutingBase ∧
      res.1.nextIntegralRoutingId = r.nextIntegralRoutingId ∧
      res.1.anonymousPipes = r.anonymousPipes := by
  unfold replacePipe
  split
  · exact .ok ⟨rfl, rfl, rfl⟩
  · exact (intro (cs.terminate_ne_assertion old true)).bind fun _ _ => .ok ⟨rfl, rfl, rfl⟩

variable (h : Census r.toRoutingBase start r.nextIntegralRoutingId chosen anonymous pipes k)
include h

theorem nameByCounter_spec (hp : p ∈ anonymous)
    (hfresh : integralRoutingId r.nextIntegralRoutingId ∉ r.outPipes) :
    Ensures (r.nameByCounter cs p) (Identified r start chosen anonymous pipes k p) :=
  (h.draw hp hfresh).bind fun _ hb => .ok ⟨rfl, hb⟩

/-- The old pipe gets a routing id from the counter, and its own one is free. -/
theorem handOver_spec (hold : old ∈ pipes \ anonymous)
    (hfresh : integralRoutingId r.nextIntegralRoutingId ∉ r.outPipes) :
    Ensures (r.handOver cs old) fun res => res.1.anonymousPipes = r.anonymousPipes ∧
      Census res.1.toRoutingBase start res.1.nextIntegralRoutingId chosen anonymous pipes (k + 1) ∧
      r.routingIds old ∉ res.1.outPipes := by
  obtain ⟨g, hg, hcounted⟩ := h.counted
  obtain ⟨herase, hlists⟩ := h.lists.erase hold
  have hfree : integralRoutingId r.nextIntegralRoutingId ∉
      r.outPipes.erase (r.routingIds old) := fun hmem => hfresh (mem_erase.mp hmem).2
  have hold' : r.routingIds old ∈ r.outPipes := h.lists.mem_iff.mpr ⟨old, hold, rfl⟩
  unfold handOver
  rw [herase, ok_bind]
  refine (intro (name_ne_assertion hfree)).bind fun b hb => ?_
  obtain ⟨hlists', -, hkeys, -⟩ := hlists.name (notMem_erase old _) hb
  rw [insert_erase hold] at hlists'
  refine (replacePipe_spec _ cs).mono ?_
  rintro ⟨r', cs'⟩ ⟨hbase, hnext, hanon⟩
  simp only at hbase hnext hanon
  rw [hbase, hnext]
  refine ⟨hanon, ⟨h.subset, hlists', g + 1, by omega, hcounted.draw fun id' hid' => ?_⟩, ?_⟩
  · rcases (hkeys id').mp hid' with rfl | hmem
    · exact .inr rfl
    · exact .inl (mem_erase.mp hmem).2
  · rw [hkeys]
    rintro (heq | hmem)
    · exact hfresh (heq ▸ hold')
    · exact (mem_erase.mp hmem).1 rfl

/-- The peer has sent its routing id. -/
theorem takeRoutingId_spec (hp : p ∈ anonymous) (hch : m.data ≠ [] → m.data ∈ chosen)
    (hfresh : (m.data.isEmpty || (r.handover && r.hasOutPipe m.data)) = true →
      integralRoutingId r.nextIntegralRoutingId ∉ r.outPipes) :
    Ensures (r.takeRoutingId cs p m) (Identified r start chosen anonymous pipes k p) := by
  unfold takeRoutingId
  split
  · rename_i hnil
    exact nameByCounter_spec h hp (hfresh (by simp [hnil]))
  rename_i hne
  split
  · rename_i hlook
    exact namePipe_spec (h.mono (Subset.refl _) (Nat.le_succ k)) hp (lookup_eq_none.mp hlook)
      (hch hne)
  rename_i e hlook
  obtain ⟨hmem, hname⟩ := h.lists.lookup hlook
  split
  · exact .ok ⟨rfl, h⟩
  have hdraws := hfresh (by
    have : m.data ∈ r.outPipes := h.lists.mem_iff.mpr ⟨e.pipe, hmem, hname⟩
    simp_all [hasOutPipe])
  refine (handOver_spec h hmem hdraws).bind ?_
  rintro ⟨r', cs'⟩ ⟨hanon, hid, hfree⟩
  rw [hname] at hfree
  refine (namePipe_spec hid hp hfree (hch hne)).mono ?_
  rintro res ⟨hanon', hcensus⟩
  exact ⟨hanon'.trans hanon, hcensus⟩

/-- **What `identify_peer` does to the table.** -/
theorem identifyPeer_spec (hp : p ∈ anonymous) (hk : k ≤ 2 ^ 32)
    (hun : r.Unclaimed chosen cs p loc) :
    Ensures (r.identifyPeer cs p loc)
      (Identified r start (chosen ++ (r.choice cs p loc).toList) anonymous pipes k p) := by
  obtain ⟨hdraws, hconn⟩ := hun
  have hch := h.mono (subset_append_left chosen (r.choice cs p loc).toList) (Nat.le_refl k)
  unfold identifyPeer
  split
  · -- the user has chosen
    rename_i hloc
    have hfree := hconn (Bool.and_eq_true_iff.mp hloc).1
    rw [if_neg (by simpa [hasOutPipe] using hfree)]
    refine namePipe_spec (r := { r with connectRoutingId := [] }) ?_ hp hfree ?_
    · exact (hch.mono (Subset.refl _) (Nat.le_succ k)).table h.lists fun _ hmem => hmem
    · simp [choice, hloc]
  rename_i hloc
  split
  · -- a raw socket always takes a routing id from the counter
    rename_i hraw
    exact nameByCounter_spec hch hp (h.fresh hp hk (hdraws (by simp [draws, hloc, hraw])))
  rename_i hraw
  refine (intro (cs.read_ne_assertion p)).bind ?_
  rintro ⟨m, cs'⟩ hread
  cases m with
  | none => exact .ok ⟨rfl, hch⟩
  | some =>
    refine takeRoutingId_spec hch hp (fun hne => ?_) fun hdraw => ?_
    · simp [choice, hloc, hraw, hread, hne]
    · exact h.fresh hp hk (hdraws (by simpa [draws, hloc, hraw, hread] using hdraw))

end identify

/-! ### Calls and events -/

section census
variable {r r' : Router} {start : UInt32} {chosen : List Blob} {pipes : Finset PipeId} {k : Nat}
  {p : PipeId} {cs cs' : Channels} {m : Msg} {loc : Bool} {res : SendResult} {part : Option Msg}

theorem probe_ne_assertion : r.probe cs p ≠ .error .assertion := by
  unfold probe
  split
  · cases hw : cs.write p Msg.init with
    | error =>
      intro hf
      cases hf
      exact cs.write_ne_assertion p _ hw
    | ok res => exact res.2.flush_ne_assertion p
  · nofun

/-- A position that is out of range is another failure. -/
theorem inRange_ne_assertion {β γ : Type} {o : Option β} {g : β → γ} :
    (inRange o >>= fun b => pure (g b)) ≠ .error .assertion := by
  cases o <;> nofun

section
variable (h : r.Counts start chosen pipes k)
include h

theorem Counts.attach (hp : p ∉ pipes) (hk : k < 2 ^ 32)
    (hun : ∀ cs₁, r.probe cs p = .ok cs₁ → r.Unclaimed chosen cs₁ p loc) :
    Ensures (r.xattachPipe cs p loc) fun res => ∀ cs₁, r.probe cs p = .ok cs₁ →
      res.1.Counts start (chosen ++ (r.choice cs₁ p loc).toList) (insert p pipes) (k + 1) := by
  have hanon : p ∉ r.anonymousPipes := fun hmem => hp (h.subset hmem)
  refine (intro probe_ne_assertion).bind fun cs₁ hprobe => ?_
  refine (identifyPeer_spec (h.enter hp) (mem_insert_self ..) hk (hun cs₁ hprobe)).bind ?_
  rintro ⟨found, r', cs'⟩ ⟨hsame : r'.anonymousPipes = _, hcensus⟩
  cases found with
  | true =>
    refine (intro inRange_ne_assertion).bind fun f _ => .ok fun cs₂ hprobe' => ?_
    cases hprobe.symm.trans hprobe'
    simpa [Counts, hsame, erase_insert hanon] using hcensus
  | false =>
    refine .ok fun cs₂ hprobe' => ?_
    cases hprobe.symm.trans hprobe'
    simpa [Counts, hsame] using hcensus

/-- A pipe has something to read, which may be its routing id. -/
theorem Counts.readActivated (hk : k < 2 ^ 32)
    (hun : p ∈ r.anonymousPipes → r.Unclaimed chosen cs p false) :
    Ensures (r.xreadActivated cs p) fun res => res.1.Counts start
      (chosen ++ if p ∈ r.anonymousPipes then (r.choice cs p false).toList else []) pipes k := by
  unfold xreadActivated
  split
  · rename_i hanon
    refine (identifyPeer_spec h hanon hk.le (hun hanon)).bind ?_
    rintro ⟨found, r', cs'⟩ ⟨hsame : r'.anonymousPipes = _, hcensus⟩
    cases found with
    | true =>
      refine (intro inRange_ne_assertion).bind fun f _ => .ok ?_
      simpa [Counts, hsame] using hcensus
    | false => exact .ok (by simpa [Counts, hsame] using hcensus)
  · refine (intro inRange_ne_assertion).bind fun f _ => .ok ?_
    rw [append_nil]
    exact h

theorem Counts.terminated (hp : p ∈ pipes) :
    Ensures (r.xpipeTerminated cs p) fun res => res.1.Counts start chosen (pipes.erase p) k := by
  unfold xpipeTerminated
  split
  · rename_i hanon
    exact .ok (h.leave hanon)
  rename_i hanon
  refine (h.erase hp hanon).bind fun b hb => ?_
  refine (intro inRange_ne_assertion).bind fun f _ => ?_
  exact (intro (cs.rollback_ne_assertion p)).bind fun _ _ => .ok hb

/-- The other events do not concern the routing ids. -/
theorem Counts.handle_other (hread : e ≠ .readActivated) (hterm : e ≠ .pipeTerminated)
    (hhandle : r.handle cs p e = .ok (r', cs')) : r'.Counts start chosen pipes k := by
  cases e with
  | readActivated => exact absurd rfl hread
  | pipeTerminated => exact absurd rfl hterm
  | writeActivated =>
    obtain ⟨b, hb, ⟨⟩⟩ := bind_ok hhandle
    exact h.xwriteActivated hb
  | hiccuped =>
    obtain ⟨-, -, ⟨⟩⟩ := bind_ok hhandle
    exact h
  | statsPublish =>
    cases hhandle
    exact h

/-- Sending changes at most whether a pipe is active. -/
theorem Counts.sendLabel (cs : Channels) (m : Msg) :
    (r.sendLabel cs m).2.1.Counts start chosen pipes k := by
  unfold Router.sendLabel
  split
  · split <;> exact h
  rename_i e hlook
  split
  · exact h
  simp only
  split <;> exact h.deactivate hlook

theorem Counts.sendPart
    (hsend : r.sendPart cs p m = .ok (res, r', cs')) : r'.Counts start chosen pipes k := by
  unfold Router.sendPart at hsend
  split at hsend
  · obtain ⟨cs₁, -, ⟨⟩⟩ := bind_ok hsend
    exact h
  obtain ⟨⟨b, cs₁⟩, -, hsend⟩ := bind_ok hsend
  cases b with
  | false | true =>
    obtain ⟨-, -, ⟨⟩⟩ := bind_ok hsend
    exact h

theorem Counts.send
    (hsend : r.xsend cs m = .ok (res, r', cs')) : r'.Counts start chosen pipes k := by
  unfold xsend at hsend
  split at hsend
  · split at hsend
    · cases hsend
    split at hsend
    · have hres := h.sendLabel cs m
      rw [Except.ok.inj hsend] at hres
      exact hres
    · cases hsend
      exact h
  · simp only at hsend
    split at hsend
    · cases hsend
      exact h
    · exact Counts.sendPart (by exact h) hsend

theorem Counts.returned
    (hret : r.returned cs m = .ok (part, r', cs')) : r'.Counts start chosen pipes k := by
  unfold Router.returned at hret
  split at hret
  · cases hret
    exact h
  split at hret
  · obtain ⟨-, -, ⟨⟩⟩ := bind_ok hret
    exact h
  · cases hret
    exact h

theorem Counts.recvData {part : Option (PipeId × Msg)}
    (hrecv : r.recvData cs = .ok (part, r', cs')) : r'.Counts start chosen pipes k := by
  obtain ⟨⟨-, -⟩, -, ⟨⟩⟩ := bind_ok hrecv
  exact h

theorem Counts.recv
    (hrecv : r.xrecv cs = .ok (part, r', cs')) : r'.Counts start chosen pipes k := by
  unfold xrecv at hrecv
  split at hrecv
  · split at hrecv <;> exact Counts.returned (by exact h) hrecv
  obtain ⟨⟨part', r₁, cs₁⟩, hdata, hrecv⟩ := bind_ok hrecv
  have h₁ := h.recvData hdata
  rcases part' with _ | ⟨q, m⟩
  · cases hrecv
    exact h₁
  simp only at hrecv
  split at hrecv
  · exact h₁.returned hrecv
  · cases hrecv
    exact h₁

theorem Counts.hasIn (hin : r.xhasIn cs = .ok (b, r', cs')) : r'.Counts start chosen pipes k := by
  unfold xhasIn at hin
  split at hin
  · cases hin
    exact h
  obtain ⟨⟨part', r₁, cs₁⟩, hdata, hin⟩ := bind_ok hin
  have h₁ := h.recvData hdata
  rcases part' with _ | ⟨q, m⟩ <;>
  · cases hin
    exact h₁

end
end census
end Router

/-- A `ROUTER` socket and its pipes. -/
structure RouterNet where
  router : Router
  pipes : Finset PipeId
  channels : Channels
  /-- The routing ids that peers and the user have chosen so far. -/
  chosen : List Blob
  /-- The number of pipes that were attached so far. -/
  attachments : Nat

namespace RouterNet

inductive Act where
  | attach (p : PipeId) (locallyInitiated : Bool)
  | pipe (p : PipeId) (a : PipePair.Action)
  | send (m : Msg)
  | recv
  | hasIn
  | setOption (o : Router.Opt) (value : Int)
  | setConnectRoutingId (id : Blob)
deriving DecidableEq, Repr

def initial (random : UInt32) (immediate : Bool) (hwm₀ hwm₁ : PipeId → Int) : RouterNet :=
  { router := .new random immediate
    pipes := ∅
    channels := fun p => .start (hwm₀ p) (hwm₁ p)
    chosen := []
    attachments := 0 }

/-- The call of `identify_peer` in a step, if there is one. -/
def identifying (n : RouterNet) : Act → Option (Channels × PipeId × Bool)
  | .attach p loc =>
      match n.router.probe n.channels p with
      | .ok cs => some (cs, p, loc)
      | .error _ => none
  | .pipe p a =>
      match n.channels.act p a with
      | .ok ([.readActivated], cs) =>
          if p ∈ n.router.anonymousPipes then some (cs, p, false) else none
      | _ => none
  | _ => none

/-- The routing ids that are chosen in a step. -/
def choices (n : RouterNet) (a : Act) : List Blob :=
  match n.identifying a with
  | some (cs, p, loc) => (n.router.choice cs p loc).toList
  | none => []

def next (n : RouterNet) (a : Act) : Except Failure RouterNet :=
  match a with
  | .attach p loc => do
      let (r, cs) ← n.router.xattachPipe n.channels p loc
      .ok
        { router := r
          channels := cs
          pipes := insert p n.pipes
          chosen := n.chosen ++ n.choices a
          attachments := n.attachments + 1 }
  | .pipe p act => do
      let (ev, cs) ← n.channels.act p act
      let (r, cs) ← ev.foldlM (fun (r, cs) e => r.handle cs p e) (n.router, cs)
      .ok
        { n with
          router := r
          channels := cs
          pipes := Channels.remaining n.pipes p ev
          chosen := n.chosen ++ n.choices a }
  | .send m => do
      let (_, r, cs) ← n.router.xsend n.channels m
      .ok { n with router := r, channels := cs }
  | .recv => do
      let (_, r, cs) ← n.router.xrecv n.channels
      .ok { n with router := r, channels := cs }
  | .hasIn => do
      let (_, r, cs) ← n.router.xhasIn n.channels
      .ok { n with router := r, channels := cs }
  | .setOption o value => .ok { n with router := (n.router.setOption o value).getD n.router }
  | .setConnectRoutingId id =>
      let b := (n.router.toRoutingBase.setConnectRoutingId id).getD n.router.toRoutingBase
      .ok { n with router := { n.router with toRoutingBase := b } }

/-- A pipe is attached once, and lives until the socket is told that it is terminated. -/
def Enabled (n : RouterNet) : Act → Prop
  | .attach p _ => p ∉ n.pipes ∧ ¬ (n.channels p).gone ∧ n.attachments + 1 < 2 ^ 32
  | .pipe p a => n.channels.Outside n.pipes p a
  | .send m => m.isDelimiter = false ∧ m.isCredential = false
  | .recv | .hasIn | .setOption _ _ | .setConnectRoutingId _ => True

def Step (n : RouterNet) (a : Act) (n' : RouterNet) : Prop := n.Enabled a ∧ n.next a = .ok n'

/-- No routing id that the socket generates has been chosen by somebody who still uses it, and the
user chooses none that is in use. -/
def Unclaimed (n : RouterNet) (a : Act) : Prop :=
  ∀ c ∈ n.identifying a, n.router.Unclaimed n.chosen c.1 c.2.1 c.2.2

structure Sound (start : UInt32) (n : RouterNet) : Prop where
  census : n.router.Counts start n.chosen n.pipes n.attachments
  few : n.attachments < 2 ^ 32

variable {n n' : RouterNet} {start : UInt32}

theorem sound_initial (random : UInt32) (immediate : Bool) (hwm₀ hwm₁ : PipeId → Int) :
    (initial random immediate hwm₀ hwm₁).Sound random where
  census := .new random
  few := by simp [initial]

variable {p : PipeId}

section
variable (h : n.Sound start)
include h

theorem Sound.attach (hen : n.Enabled (.attach p loc)) (hun : n.Unclaimed (.attach p loc)) :
    Ensures (n.next (.attach p loc)) (Sound start) := by
  have hun' : ∀ cs, n.router.probe n.channels p = .ok cs →
      n.router.Unclaimed n.chosen cs p loc := by
    intro cs hprobe
    exact hun (cs, p, loc) (by simp [identifying, hprobe])
  have hensures := h.census.attach hen.1 h.few hun'
  refine (intro hensures.ne_assertion).bind ?_
  rintro ⟨r, cs⟩ hattach
  have hcensus := hensures.of_eq hattach
  refine .ok ⟨?_, hen.2.2⟩
  cases hprobe : n.router.probe n.channels p with
  | error =>
    rw [Router.xattachPipe, hprobe] at hattach
    cases hattach
  | ok cs₁ => simpa [choices, identifying, hprobe] using hcensus cs₁ hprobe

/-- What the socket does with an event that concerns its routing ids. -/
theorem Sound.event (hact : n.channels.act p a = .ok ([e], cs)) (hmem : p ∈ n.pipes)
    (he : e = .readActivated ∨ e = .pipeTerminated) (hun : n.Unclaimed (.pipe p a)) :
    Ensures (n.router.handle cs p e) fun res => res.1.Counts start
      (n.chosen ++ n.choices (.pipe p a)) (remaining n.pipes p [e]) n.attachments := by
  rcases he with rfl | rfl
  · refine (h.census.readActivated h.few fun hanon => ?_).mono fun res hres => ?_
    · exact hun (cs, p, false) (by simp [identifying, hact, hanon])
    · simp only [choices, identifying, hact, remaining]
      by_cases hanon : p ∈ n.router.anonymousPipes <;> simpa [hanon] using hres
  · refine (h.census.terminated hmem).mono fun _ hres => ?_
    simpa [choices, identifying, hact, remaining] using hres

theorem Sound.pipe (hen : n.Enabled (.pipe p a)) (hun : n.Unclaimed (.pipe p a))
    (hnext : n.next (.pipe p a) = .ok n') : n'.Sound start := by
  obtain ⟨⟨ev, cs⟩, hact, hnext⟩ := bind_ok hnext
  obtain ⟨⟨r, cs'⟩, hhandle, ⟨⟩⟩ := bind_ok hnext
  have htells := act_tells hen hact
  refine ⟨?_, h.few⟩
  rcases htells.few with rfl | ⟨e, rfl⟩
  · cases hhandle
    simpa [choices, identifying, hact] using h.census
  simp only [foldlM_singleton] at hhandle
  by_cases he : e = .readActivated ∨ e = .pipeTerminated
  · exact (h.event hact (htells.mem nofun) he hun).of_eq hhandle
  obtain ⟨hread, hterm⟩ := not_or.mp he
  have hcensus := h.census.handle_other hread hterm hhandle
  have hnone : n.identifying (.pipe p a) = none := by
    simp only [identifying, hact]
    split
    · rename_i heq
      cases heq
      exact absurd rfl hread
    · rfl
  have hpipes : remaining n.pipes p [e] = n.pipes := if_neg (by simpa using hterm)
  simpa [choices, hnone, hpipes] using hcensus

theorem Sound.step (hun : n.Unclaimed a) (hstep : Step n a n') : n'.Sound start := by
  obtain ⟨hen, hnext⟩ := hstep
  cases a with
  | attach => exact (h.attach hen hun).of_eq hnext
  | pipe => exact h.pipe hen hun hnext
  | send =>
    obtain ⟨⟨res, r, cs⟩, hsend, ⟨⟩⟩ := bind_ok hnext
    exact ⟨h.census.send hsend, h.few⟩
  | recv =>
    obtain ⟨⟨part, r, cs⟩, hrecv, ⟨⟩⟩ := bind_ok hnext
    exact ⟨h.census.recv hrecv, h.few⟩
  | hasIn =>
    obtain ⟨⟨b, r, cs⟩, hin, ⟨⟩⟩ := bind_ok hnext
    exact ⟨h.census.hasIn hin, h.few⟩
  | setOption o =>
    cases hnext
    refine ⟨?_, h.few⟩
    unfold Router.setOption
    split
    · exact h.census
    · cases o <;> exact h.census
  | setConnectRoutingId =>
    cases hnext
    exact ⟨h.census.setConnectRoutingId _, h.few⟩

end

/-- Peers are found by their routing ids. -/
structure Routes (n : RouterNet) : Prop where
  /-- The routing ids of the pipes that are identified are different. -/
  distinct : Set.InjOn n.router.routingIds (n.pipes \ n.router.anonymousPipes : Finset PipeId)
  /-- `lookup_out_pipe` finds the pipe that has the routing id. -/
  lookup : ∀ id p, (∃ e, n.router.lookupOutPipe id = some e ∧ e.pipe = p) ↔
    p ∈ n.pipes \ n.router.anonymousPipes ∧ n.router.routingIds p = id
  /-- No assertion fails when a pipe is attached, is identified or goes away. -/
  attach : ∀ p loc, n.Enabled (.attach p loc) → n.Unclaimed (.attach p loc) →
    n.router.xattachPipe n.channels p loc ≠ .error .assertion
  event : ∀ p a cs e, n.Enabled (.pipe p a) → n.Unclaimed (.pipe p a) →
    n.channels.act p a = .ok ([e], cs) → e = .readActivated ∨ e = .pipeTerminated →
    n.router.handle cs p e ≠ .error .assertion

theorem Sound.routes (h : n.Sound start) : n.Routes := by
  refine ⟨h.census.lists.injOn, fun _ p => h.census.lists.lookup_iff, ?_, ?_⟩
  · intro p _ hen hun hfail
    have hattach := h.attach hen hun
    rw [next, hfail] at hattach
    exact hattach rfl
  · intro p a _ e hen hun hact he
    have htells := act_tells hen hact
    exact (h.event hact (htells.mem nofun) he hun).ne_assertion

end RouterNet

/-! ## `STREAM` -/

namespace Stream

/-- A routing id that is taken from the counter is not in use because somebody has chosen it, and
the user does not choose one that is in use. -/
def Unclaimed (s : Stream) (chosen : List Blob) (locallyInitiated : Bool) : Prop :=
  if locallyInitiated && !s.connectRoutingId.isEmpty then s.connectRoutingId ∉ s.outPipes
  else integralRoutingId s.nextIntegralRoutingId ∈ s.outPipes →
    integralRoutingId s.nextIntegralRoutingId ∉ chosen

/-- The routing id that `identify_peer` gets from the user. -/
def choice (s : Stream) (locallyInitiated : Bool) : Option Blob :=
  if locallyInitiated && !s.connectRoutingId.isEmpty then some s.connectRoutingId else none

/-- The census of the pipes of a socket. None of them is anonymous. -/
abbrev Counts (s : Stream) (start : UInt32) (chosen : List Blob) (pipes : Finset PipeId) (k : Nat) :
    Prop :=
  Census s.toRoutingBase start s.nextIntegralRoutingId chosen ∅ pipes k

variable {s s' : Stream} {start : UInt32} {chosen : List Blob} {pipes : Finset PipeId} {k : Nat}
  {p : PipeId} {cs cs' : Channels} {m : Msg} {loc : Bool} {res : SendResult}

section
variable (h : s.Counts start chosen pipes k)
include h

section
variable (hp : p ∉ pipes) (hk : k < 2 ^ 32) (hun : s.Unclaimed chosen loc)
include hp hk hun

theorem Counts.identifyPeer :
    Ensures (s.identifyPeer p loc) fun s' =>
      s'.Counts start (chosen ++ (s.choice loc).toList) (insert p pipes) (k + 1) := by
  have henter := h.enter hp
  have hmem := Finset.mem_insert_self p ∅
  have hnone : (insert p ∅ : Finset PipeId).erase p = ∅ := erase_insert (Finset.notMem_empty p)
  unfold Stream.identifyPeer
  unfold Unclaimed at hun
  split
  · rename_i hloc
    rw [if_pos hloc] at hun
    rw [if_neg (by simpa [hasOutPipe] using hun), choice, if_pos hloc]
    have hchosen := henter.mono (subset_append_left chosen [s.connectRoutingId])
      (Nat.le_succ (k + 1))
    have hname := Census.name (b := { s.toRoutingBase with connectRoutingId := [] })
      (hchosen.table henter.lists fun _ h => h) hmem hun (by simp)
    rw [hnone] at hname
    exact hname.bind fun _ hb => .ok hb
  · rename_i hloc
    rw [if_neg hloc] at hun
    rw [choice, if_neg hloc, Option.toList_none, append_nil]
    have hname := henter.draw hmem (henter.fresh hmem hk hun)
    rw [hnone] at hname
    exact hname.bind fun _ hb => .ok hb

theorem Counts.attach :
    Ensures (s.xattachPipe p loc) fun s' =>
      s'.Counts start (chosen ++ (s.choice loc).toList) (insert p pipes) (k + 1) :=
  (h.identifyPeer hp hk hun).bind fun _ hs =>
    (intro Router.inRange_ne_assertion).bind fun _ _ => .ok hs

end

theorem Counts.terminated (hp : p ∈ pipes) :
    Ensures (s.xpipeTerminated p) fun s' => s'.Counts start chosen (pipes.erase p) k :=
  (h.erase hp (Finset.notMem_empty p)).bind fun _ hb =>
    (intro Router.inRange_ne_assertion).bind fun _ _ => .ok hb

theorem Counts.handle (hterm : e ≠ .pipeTerminated) (hhandle : s.handle cs p e = .ok (s', cs')) :
    s'.Counts start chosen pipes k := by
  obtain ⟨hnext, -, -, hbase | hb, -⟩ := handle_quiet hterm hhandle
  · rw [Counts, hbase, hnext]
    exact h
  · rw [Counts, hnext]
    exact h.xwriteActivated hb

theorem Counts.polls (hpolls : Polls s cs s' cs') : s'.Counts start chosen pipes k := by
  rw [Counts, hpolls.base, hpolls.next]
  exact h

theorem Counts.sendLabel (cs : Channels) (m : Msg) :
    (s.sendLabel cs m).2.1.Counts start chosen pipes k := by
  unfold Stream.sendLabel
  split
  · exact h
  rename_i e hlook
  split
  · exact h
  · exact h.deactivate hlook

theorem Counts.sendBody
    (hsend : s.sendBody cs p m = .ok (res, s', cs')) : s'.Counts start chosen pipes k := by
  unfold Stream.sendBody at hsend
  split at hsend
  · obtain ⟨cs₁, -, ⟨⟩⟩ := bind_ok hsend
    exact h
  obtain ⟨⟨b, cs₁⟩, -, hsend⟩ := bind_ok hsend
  cases b with
  | false =>
    cases hsend
    exact h
  | true =>
    obtain ⟨-, -, ⟨⟩⟩ := bind_ok hsend
    exact h

theorem Counts.send
    (hsend : s.xsend cs m = .ok (res, s', cs')) : s'.Counts start chosen pipes k := by
  unfold xsend at hsend
  split at hsend
  · split at hsend
    · cases hsend
    split at hsend
    · have hres := h.sendLabel cs m
      rw [Except.ok.inj hsend] at hres
      exact hres
    · cases hsend
      exact h
  · simp only at hsend
    split at hsend
    · cases hsend
      exact h
    · exact Counts.sendBody (by exact h) hsend

end
end Stream

/-- A `STREAM` socket and its pipes. -/
structure StreamNet where
  stream : Stream
  pipes : Finset PipeId
  channels : Channels
  /-- The routing ids that the user has chosen so far. -/
  chosen : List Blob
  /-- The number of pipes that were attached so far. -/
  attachments : Nat

namespace StreamNet

inductive Act where
  | attach (p : PipeId) (locallyInitiated : Bool)
  | pipe (p : PipeId) (a : PipePair.Action)
  | send (m : Msg)
  | recv
  | hasIn
  | setConnectRoutingId (id : Blob)
deriving DecidableEq, Repr

def initial (random : UInt32) (immediate : Bool) (hwm₀ hwm₁ : PipeId → Int) : StreamNet :=
  { stream := .new random immediate
    pipes := ∅
    channels := fun p => .start (hwm₀ p) (hwm₁ p)
    chosen := []
    attachments := 0 }

def next (n : StreamNet) : Act → Except Failure StreamNet
  | .attach p loc => do
      let s ← n.stream.xattachPipe p loc
      .ok
        { n with
          stream := s
          pipes := insert p n.pipes
          chosen := n.chosen ++ (n.stream.choice loc).toList
          attachments := n.attachments + 1 }
  | .pipe p a => do
      let (ev, cs) ← n.channels.act p a
      let (s, cs) ← ev.foldlM (fun (s, cs) e => s.handle cs p e) (n.stream, cs)
      .ok { n with stream := s, channels := cs, pipes := Channels.remaining n.pipes p ev }
  | .send m => do
      let (_, s, cs) ← n.stream.xsend n.channels m
      .ok { n with stream := s, channels := cs }
  | .recv => do
      let (_, s, cs) ← n.stream.xrecv n.channels
      .ok { n with stream := s, channels := cs }
  | .hasIn => do
      let (_, s, cs) ← n.stream.xhasIn n.channels
      .ok { n with stream := s, channels := cs }
  | .setConnectRoutingId id =>
      let b := (n.stream.toRoutingBase.setConnectRoutingId id).getD n.stream.toRoutingBase
      .ok { n with stream := { n.stream with toRoutingBase := b } }

/-- A pipe is attached once, and lives until the socket is told that it is terminated. -/
def Enabled (n : StreamNet) : Act → Prop
  | .attach p _ => p ∉ n.pipes ∧ ¬ (n.channels p).gone ∧ n.attachments + 1 < 2 ^ 32
  | .pipe p a => n.channels.Outside n.pipes p a
  | .send m => m.isDelimiter = false ∧ m.isCredential = false
  | .recv | .hasIn | .setConnectRoutingId _ => True

def Step (n : StreamNet) (a : Act) (n' : StreamNet) : Prop := n.Enabled a ∧ n.next a = .ok n'

/-- No routing id that the socket generates has been chosen by the user and is still in use, and the
user chooses none that is in use. -/
def Unclaimed (n : StreamNet) : Act → Prop
  | .attach _ loc => n.stream.Unclaimed n.chosen loc
  | .pipe _ _ | .send _ | .recv | .hasIn | .setConnectRoutingId _ => True

structure Sound (start : UInt32) (n : StreamNet) : Prop where
  census : n.stream.Counts start n.chosen n.pipes n.attachments
  few : n.attachments < 2 ^ 32

variable {n n' : StreamNet} {start : UInt32} {a : Act}

theorem sound_initial (random : UInt32) (immediate : Bool) (hwm₀ hwm₁ : PipeId → Int) :
    (initial random immediate hwm₀ hwm₁).Sound random where
  census := .new random
  few := by simp [initial]

theorem Sound.pipe {a : Action} (h : n.Sound start)
    (hen : n.Enabled (.pipe p a)) (hnext : n.next (.pipe p a) = .ok n') : n'.Sound start := by
  obtain ⟨⟨ev, cs⟩, hact, hnext⟩ := bind_ok hnext
  obtain ⟨⟨s, cs'⟩, hhandle, ⟨⟩⟩ := bind_ok hnext
  have htells := act_tells hen hact
  refine ⟨?_, h.few⟩
  rcases htells.few with rfl | ⟨e, rfl⟩
  · cases hhandle
    exact h.census
  simp only [foldlM_singleton] at hhandle
  by_cases hterm : e = .pipeTerminated
  · subst hterm
    obtain ⟨s₁, hs₁, ⟨⟩⟩ := bind_ok hhandle
    exact (h.census.terminated (htells.mem nofun)).of_eq hs₁
  · have hpipes : remaining n.pipes p [e] = n.pipes := if_neg (by simpa using hterm)
    rw [hpipes]
    exact h.census.handle hterm hhandle

theorem Sound.step (h : n.Sound start) (hun : n.Unclaimed a) (hstep : Step n a n') :
    n'.Sound start := by
  obtain ⟨hen, hnext⟩ := hstep
  cases a with
  | attach =>
    obtain ⟨s, hattach, ⟨⟩⟩ := bind_ok hnext
    exact ⟨(h.census.attach hen.1 h.few hun).of_eq hattach, hen.2.2⟩
  | pipe => exact h.pipe hen hnext
  | send =>
    obtain ⟨⟨res, r, cs⟩, hsend, ⟨⟩⟩ := bind_ok hnext
    exact ⟨h.census.send hsend, h.few⟩
  | recv =>
    obtain ⟨⟨part, r, cs⟩, hrecv, ⟨⟩⟩ := bind_ok hnext
    exact ⟨h.census.polls (Stream.xrecv_polls hrecv), h.few⟩
  | hasIn =>
    obtain ⟨⟨b, r, cs⟩, hin, ⟨⟩⟩ := bind_ok hnext
    exact ⟨h.census.polls (Stream.xhasIn_polls hin), h.few⟩
  | setConnectRoutingId =>
    cases hnext
    exact ⟨h.census.setConnectRoutingId _, h.few⟩

/-- Peers are found by their routing ids. -/
structure Routes (n : StreamNet) : Prop where
  /-- The routing ids of the pipes are different. -/
  distinct : Set.InjOn n.stream.routingIds n.pipes
  /-- `lookup_out_pipe` finds the pipe that has the routing id. -/
  lookup : ∀ id p, (∃ e, n.stream.lookupOutPipe id = some e ∧ e.pipe = p) ↔
    p ∈ n.pipes ∧ n.stream.routingIds p = id
  /-- No assertion fails when a pipe is attached or goes away. -/
  attach : ∀ p loc, n.Enabled (.attach p loc) → n.Unclaimed (.attach p loc) →
    n.stream.xattachPipe p loc ≠ .error .assertion
  terminated : ∀ p ∈ n.pipes, n.stream.xpipeTerminated p ≠ .error .assertion

theorem Sound.routes (h : n.Sound start) : n.Routes := by
  have hlists : n.stream.Lists n.pipes := by simpa using h.census.lists
  refine ⟨hlists.injOn, fun _ p => hlists.lookup_iff, ?_, ?_⟩
  · intro p _ hen hun
    exact (h.census.attach hen.1 h.few hun).ne_assertion
  · intro p hp
    exact (h.census.terminated hp).ne_assertion

end StreamNet

/-! ## Both sockets -/

/-- **Routing ids are unique**: in runs in which nobody claims a routing id that the socket
generates, the table of routing ids is in order and no assertion about it fails. -/
theorem routing_ids_unique (random : UInt32) (immediate : Bool) (hwm₀ hwm₁ : PipeId → Int) :
    (∀ (tr : List RouterNet.Act) (n : RouterNet),
      Exec (Guarded RouterNet.Step RouterNet.Unclaimed)
        (RouterNet.initial random immediate hwm₀ hwm₁) tr n → n.Routes) ∧
    ∀ (tr : List StreamNet.Act) (n : StreamNet),
      Exec (Guarded StreamNet.Step StreamNet.Unclaimed)
        (StreamNet.initial random immediate hwm₀ hwm₁) tr n → n.Routes := by
  constructor
  · intro tr n h
    refine (h.invariant (RouterNet.Sound random) ?_ (RouterNet.sound_initial ..)).routes
    rintro b act c hb ⟨hstep, hun⟩
    exact hb.step hun hstep
  · intro _ n h
    refine (h.invariant (StreamNet.Sound random) ?_ (StreamNet.sound_initial ..)).routes
    rintro b act c hb ⟨hstep, hun⟩
    exact hb.step hun hstep

/-! ### Concrete runs -/

instance (r : Router) (chosen : List Blob) (cs : Channels) (p : PipeId) (loc : Bool) :
    Decidable (r.Unclaimed chosen cs p loc) :=
  inferInstanceAs (Decidable ((_ → _ → _) ∧ (_ → _)))

instance (s : Stream) (chosen : List Blob) (loc : Bool) : Decidable (s.Unclaimed chosen loc) :=
  inferInstanceAs (Decidable (if (loc && !s.connectRoutingId.isEmpty) = true then _ else _ → _))

namespace RouterNet

instance (n : RouterNet) (a : Act) : Decidable (n.Enabled a) := by
  rcases a <;> dsimp only [Enabled] <;> infer_instance

instance (n : RouterNet) (a : Act) : Decidable (n.Unclaimed a) :=
  inferInstanceAs (Decidable (∀ c ∈ n.identifying a, n.router.Unclaimed n.chosen c.1 c.2.1 c.2.2))

/-- The peer of pipe `p` sends its routing id. -/
def introduces (p : PipeId) (id : Blob) : List Act :=
  [.pipe p (.write .second { Msg.init with data := id, flags := MsgFlag.routingId }),
    .pipe p (.flush .second)]

end RouterNet

namespace StreamNet

instance (n : StreamNet) (a : Act) : Decidable (n.Enabled a) := by
  rcases a <;> dsimp only [Enabled] <;> infer_instance

instance (n : StreamNet) (a : Act) : Decidable (n.Unclaimed a) := by
  rcases a <;> dsimp only [Unclaimed] <;> infer_instance

end StreamNet

/-- Two peers of a `ROUTER` socket want to be called `[65]`, and the second one takes over; a third
one has no wish. The user of a `STREAM` socket calls one of two peers `[66]`. -/
theorem routing_ids_unique_handover :
    (∃ tr n, Exec (Guarded RouterNet.Step RouterNet.Unclaimed)
        (RouterNet.initial 7 true (fun _ => 9) fun _ => 9) tr n ∧
      n.router.routingIds 0 = [0, 0, 0, 0, 7] ∧ n.router.routingIds 1 = [65] ∧
      n.router.routingIds 2 = [0, 0, 0, 0, 8] ∧ n.Routes) ∧
    ∃ tr n, Exec (Guarded StreamNet.Step StreamNet.Unclaimed)
        (StreamNet.initial 7 true (fun _ => 9) fun _ => 9) tr n ∧
      n.stream.routingIds 0 = [66] ∧ n.stream.routingIds 1 = [0, 0, 0, 0, 7] ∧ n.Routes := by
  constructor
  · refine exists_exec_with guarded_of_attempt
      (fun n => n.router.routingIds 0 = [0, 0, 0, 0, 7] ∧ n.router.routingIds 1 = [65] ∧
        n.router.routingIds 2 = [0, 0, 0, 0, 8])
      ([.setOption .handover 1] ++ RouterNet.introduces 0 [65] ++
        [.attach 0 false, .attach 1 false] ++
        RouterNet.introduces 1 [65] ++ [.pipe 1 (.deliver .first)] ++ RouterNet.introduces 2 [] ++
        [.attach 2 false]) (by decide +kernel) ?_
    rintro _ _ hexec ⟨h₀, h₁, h₂⟩
    exact ⟨h₀, h₁, h₂, (routing_ids_unique _ _ _ _).1 _ _ hexec⟩
  · refine exists_exec_with guarded_of_attempt
      (fun n => n.stream.routingIds 0 = [66] ∧ n.stream.routingIds 1 = [0, 0, 0, 0, 7])
      [.setConnectRoutingId [66], .attach 0 true, .attach 1 false] (by decide +kernel) ?_
    rintro _ _ hexec ⟨h₀, h₁⟩
    exact ⟨h₀, h₁, (routing_ids_unique _ _ _ _).2 _ _ hexec⟩

/-- A peer chooses the routing id that the socket is about to generate. The next peer without a
routing id of its own makes `add_out_pipe` fail. -/
theorem routing_id_claimed :
    ∃ tr n, Exec RouterNet.Step (RouterNet.initial 7 true (fun _ => 9) fun _ => 9) tr n ∧
      n.router.routingIds 0 = [0, 0, 0, 0, 7] ∧ n.Enabled (.attach 1 false) ∧
      n.router.xattachPipe n.channels 1 false = .error .assertion := by
  refine exists_exec_with step_of_attempt
    (fun n => n.router.routingIds 0 = [0, 0, 0, 0, 7] ∧ n.Enabled (.attach 1 false) ∧
      failure? (n.router.xattachPipe n.channels 1 false) = some .assertion)
    (RouterNet.introduces 0 [0, 0, 0, 0, 7] ++ [.attach 0 false] ++ RouterNet.introduces 1 [])
    (by decide +kernel) ?_
  rintro _ n _ ⟨hid, hen, hfails⟩
  exact ⟨hid, hen, failure?_eq_some.mp hfails⟩

end LibZmq
