import LibZmq.Pipe.Atomicity
import LibZmq.Pipe.Owner

/-!
# The rest of a message can be read at once

A reader that has got a part with the `more` flag gets the next part without waiting: the
parts of a message are published together, and a delimiter never comes between them.

* `Ended`: a writer that has written a delimiter writes nothing else.
* `Follows.read_of_midway`: `read` returns a part in the middle of a message.
-/

namespace LibZmq

namespace PipePair

open LibZmq.Core UPipe List

variable {s s' : PipePair} {w x : Side}

/-! ## Delimiters come last -/

/-- Ordinary messages, and then delimiters. -/
def EndsWith (l : List Msg) (delimiters : List Msg) : Prop :=
  ∃ msgs, l = msgs ++ delimiters ∧ (∀ m ∈ msgs, m.isDelimiter = false) ∧
    ∀ d ∈ delimiters, d.isDelimiter = true

/-- A writer whose queue holds a delimiter is on its way out. -/
def Ended (s : PipePair) (w : Side) : Prop :=
  ∀ q, (s.pipe w).outPipe = some q →
    (∃ delimiters, EndsWith (s.heap q).complete delimiters ∧
      ((s.pipe w).state = .active → delimiters = [])) ∧
    ∀ m ∈ (s.heap q).unfinished, m.isDelimiter = false

variable {o : Log}

theorem EndsWith.of_append (h : EndsWith (l ++ l') delimiters) :
    ∃ delimiters', EndsWith l' delimiters' ∧ (delimiters = [] → delimiters' = []) := by
  obtain ⟨msgs, heq, hmsgs, hdelims⟩ := h
  rcases append_eq_append_iff.mp heq with ⟨l₁, rfl, rfl⟩ | ⟨l₁, rfl, rfl⟩
  · exact ⟨delimiters, ⟨l₁, rfl, fun m hm => hmsgs m (mem_append_right _ hm), hdelims⟩, id⟩
  · refine ⟨l', ⟨[], rfl, nofun, fun d hd => hdelims d (mem_append_right _ hd)⟩, fun e => ?_⟩
    exact (append_eq_nil_iff.mp e).2

theorem EndsWith.after (h : EndsWith (l ++ d :: l') delimiters) (hd : d.isDelimiter = true) :
    ∀ m ∈ l', m.isDelimiter = true := by
  obtain ⟨msgs, heq, hmsgs, hdelims⟩ := h
  rcases append_eq_append_iff.mp heq with ⟨l₁, rfl, heq'⟩ | ⟨l₁, rfl, rfl⟩
  · cases l₁ with
    | nil =>
      intro m hm
      exact hdelims m (by rw [← show d :: l' = delimiters from heq']; exact .tail _ hm)
    | cons =>
      cases heq'
      have hno := hmsgs d (by simp)
      rw [hd] at hno
      cases hno
  · intro m hm
    exact hdelims m (mem_append_right _ (.tail _ hm))

theorem EndsWith.of_all (h : ∀ m ∈ l, m.isDelimiter = false) : EndsWith l [] :=
  ⟨l, by simp, h, nofun⟩

theorem active_of_step (h : s.step a = .ok (r, s')) (hst : (s'.pipe w).state = .active) :
    (s.pipe w).state = .active := by
  obtain ⟨p, hp⟩ := step_viewed h
  rw [hp.pipe, Function.update_apply] at hst
  split at hst
  · rename_i e
    rw [e]
    exact hp.active hst
  · exact hst

theorem not_active_of_closed (h : s.step a = .ok (r, s')) (hg : signal s w (a, r) = .closed) :
    (s'.pipe w).state ≠ .active := by
  obtain ⟨delay, rfl⟩ := signal_closed hg
  obtain ⟨t, hcall, ⟨⟩⟩ := map_ok h
  obtain ⟨p, hp, -, hne, -⟩ := terminate_changes hcall
  rwa [hp.pipe_self]

/-- The reader has taken `l` from the queue of the writer. -/
theorem Ended.reads (h : Ended s w) (hq : (s.pipe w).outPipe = some q)
    (hq' : (s'.pipe w).outPipe = some q) (hc : Consumes (s.heap q) l (s'.heap q))
    (hact : (s'.pipe w).state = .active → (s.pipe w).state = .active) : Ended s' w := by
  refine of_outPipe hq' ?_
  obtain ⟨⟨delims, hends, hnil⟩, hunf⟩ := h q hq
  rw [complete_consumes hc] at hends
  obtain ⟨delims', hends', hnil'⟩ := hends.of_append
  refine ⟨⟨delims', hends', fun e => hnil' (hnil (hact e))⟩, ?_⟩
  rw [hc.unfinished]
  exact hunf

theorem Ended.step (h : Ended s w) (hs : Sound s) (hn : NoConflate s)
    (hstep : Step s (a, r) s') (hprudent : s.Prudent a) : Ended s' w := by
  have hact : (s'.pipe w).state = .active → (s.pipe w).state = .active := active_of_step hstep.2
  have hclosed := not_active_of_closed (w := w) hstep.2
  have hf := (hs.outcome_of_step hstep hprudent).flow hs (hs.alive_of_enabled hstep.1) hn w
  generalize signal s w (a, r) = g at hf hclosed
  cases hf with
  | gone hnone =>
    intro q hq
    rw [hnone] at hq
    cases hq
  | @still q hq hq' hsame =>
    refine of_outPipe hq' ?_
    obtain ⟨⟨delims, hends, hnil⟩, hunf⟩ := h q hq
    rw [hsame.complete, hsame.unfinished]
    exact ⟨⟨delims, hends, fun e => hnil (hact e)⟩, hunf⟩
  | take hq hq' _ _ _ _ _ hc | skip hq hq' _ _ _ hc => exact h.reads hq hq' hc hact
  | @put q m hq hd hst hheap _ hpipe =>
    refine of_outPipe (hpipe ▸ hq : (s'.pipe w).outPipe = some q) ?_
    obtain ⟨⟨delims, ⟨msgs, heq, hmsgs, -⟩, hnil⟩, hunf⟩ := h q hq
    -- an active writer has no delimiter in its queue
    rw [hheap, complete_write (hn.heap q), unfinished_write]
    refine ⟨⟨[], .of_all ?_, fun _ => rfl⟩, ?_⟩ <;> cases m.hasMore <;> grind
  | @drop q hq hq' hread hready hunf =>
    refine of_outPipe hq' ?_
    obtain ⟨⟨delims, hends, hnil⟩, -⟩ := h q hq
    rw [complete, hread, hready, hunf]
    exact ⟨⟨delims, hends, fun e => hnil (hact e)⟩, fun _ h => by cases h⟩
  | @close q hq hq' hread hready hunf =>
    refine of_outPipe hq' ?_
    obtain ⟨⟨delims, ⟨msgs, heq, hmsgs, hdelims⟩, -⟩, -⟩ := h q hq
    rw [complete, hread, hready, hunf, heq]
    refine ⟨⟨delims ++ [.initDelimiter], ⟨msgs, by simp, hmsgs, ?_⟩,
      fun e => absurd e (hclosed rfl)⟩, fun _ h => by cases h⟩
    intro d hd
    rcases mem_append.mp hd with hd | hd
    · exact hdelims d hd
    · rw [mem_singleton.mp hd]
      rfl
  | @detach q _ hq hq' hheap =>
    refine of_outPipe hq' ?_
    obtain ⟨⟨delims, hends, hnil⟩, hunf⟩ := h q hq
    rw [hheap]
    exact ⟨⟨delims, hends, fun e => hnil (hact e)⟩, hunf⟩
  | swap _ hq' hfresh =>
    refine of_outPipe hq' ?_
    rw [complete, hfresh.readable, hfresh.ready, hfresh.unfinished]
    exact ⟨⟨[], .of_all (fun _ h => by cases h), fun _ => rfl⟩, fun _ h => by cases h⟩

theorem ended_start (hwm₀ hwm₁ : Int) (w : Side) : Ended (start hwm₀ hwm₁ false false) w := by
  intro q _
  rw [heap_start]
  exact ⟨⟨[], .of_all (by simp [complete]), fun _ => rfl⟩, by simp⟩

/-! ## In the middle of a message -/

/-- The last part that the reader has got announces another one. -/
def Log.Midway (o : Log) : Prop := ∃ m, o.got.getLast? = some m ∧ m.hasMore = true

/-- Whole messages do not end in the middle of one. -/
theorem Log.Block.not_midway (h : o.Block o.got)
    (hf : ∀ msg ∈ o.sent, Framed Msg.hasMore msg) : ¬ o.Midway := by
  rintro ⟨m, hlast, hmore⟩
  obtain ⟨block, hblock, heq⟩ := h
  rw [heq] at hlast
  have hne : block ≠ [] := by
    rintro rfl
    cases hlast
  obtain ⟨init, msg, rfl⟩ := eq_nil_or_concat block |>.resolve_left hne
  obtain ⟨parts, last, rfl, -, hno⟩ := hf msg (hblock.subset (by simp))
  rw [concat_eq_append, flatten_append, flatten_singleton, ← append_assoc, getLast?_concat] at hlast
  cases hlast
  rw [hno] at hmore
  cases hmore

/-- **In the middle of a message `read` returns the next part.** -/
theorem Follows.read_of_midway (h : Follows s w o) (hs : Sound s) (he : Ended s w)
    (hmid : o.Midway) (hmay : (s.pipe w.peer).mayRead = true)
    (hread : s.read w.peer = .ok (m, s')) : m.isSome = true := by
  obtain ⟨-, hreading⟩ := Pipe.mayRead_iff.mp hmay
  have hd := hs.alive_of_reading hreading
  have hrest := (h.whole hs).rest hreading
  -- nothing but credentials and delimiters in the queue would mean a whole message
  have hsome : ∀ l, (s.inbox w.peer).readable = l →
      ¬ ∀ c ∈ l, c.isCredential = true ∨ c.isDelimiter = true := by
    intro l hl hall
    rw [hl, visible_eq_nil hall, append_nil] at hrest
    exact hrest.not_midway h.framed hmid
  have hdelim : ∀ {skipped d u}, (∀ c ∈ skipped, c.isCredential = true) → d.isDelimiter = true →
      Consumes (s.inbox w.peer) (skipped ++ [d]) u → False := by
    intro _ d u hskip hd' hc
    have hread := hc.readable
    rw [append_assoc] at hread
    obtain ⟨q, hq⟩ := hs.exists_writer hd hreading
    rw [Side.peer_peer] at hq
    rcases hs.attached_or_fresh hq with ⟨hinq, -⟩ | ⟨-, hfresh⟩
    · obtain ⟨⟨delims, hends, -⟩, -⟩ := he q hq
      rw [complete, ← hinq, show (s.heap (s.pipe w.peer).inPipe).readable = _ from hread,
        append_assoc, cons_append] at hends
      refine hsome _ hread fun c hc' => ?_
      rcases mem_append.mp hc' with hc' | hc'
      · exact .inl (hskip c hc')
      · rcases mem_cons.mp hc' with rfl | hc'
        · exact .inr hd'
        · exact .inr (hends.after hd' c (mem_append_left _ hc'))
    · rw [hfresh.readable] at hread
      simp at hread
  obtain ⟨m', t, hcall, ho⟩ := hs.read_outcome hd
  rw [hcall] at hread
  cases hread
  cases ho with
  | idle hidle =>
    cases hidle with
    | noMessage hno hmay' =>
      cases hno
      rw [hmay'] at hmay
      cases hmay
    | refused hr => cases hr
  | sleep hno _ hcred =>
    cases hno
    exact absurd (fun c hc => .inl (hcred c hc)) (hsome _ rfl)
  | take => rfl
  | delimiter hno _ hskip hd' hc | lastDelimiter hno _ hskip hd' hc =>
    cases hno
    exact (hdelim hskip hd' hc).elim
  | full hr => cases hr

/-! ## Writing does not touch what is waiting to be read -/

theorem checkWrite_keeps (s : PipePair) (x : Side) : (s.checkWrite x).2.heap = s.heap ∧
    ((s.checkWrite x).2.pipe x).inPipe = (s.pipe x).inPipe ∧
    ((s.checkWrite x).2.pipe x).outPipe = (s.pipe x).outPipe := by
  refine ⟨rfl, ?_⟩
  rw [(checkWrite_changes s x).pipe_self]
  rcases (s.pipe x).checkWrite_cases with ⟨heq, -⟩ | ⟨heq, -⟩ | ⟨heq, -⟩ <;> rw [heq] <;>
    exact ⟨rfl, rfl⟩

theorem inbox_checkWrite (s : PipePair) (x : Side) : (s.checkWrite x).2.inbox x = s.inbox x := by
  obtain ⟨hheap, hin, -⟩ := checkWrite_keeps s x
  rw [inbox, hheap, hin, inbox]

section writing
variable {s s' : PipePair} (hs : Sound s) (hd : s.deallocated x = 0)
include hs hd

theorem inbox_store_outPipe (hq : (s.pipe x).outPipe = some q) (u : UPipe) :
    (s.store q u).inbox x = s.inbox x := by
  rw [inbox_store, if_neg (hs.inPipe_ne_outPipe hd hq).symm]

theorem inbox_write (h : s.write x m = .ok (b, s')) : s'.inbox x = s.inbox x := by
  obtain ⟨hheap, hin, hout⟩ := checkWrite_keeps s x
  unfold write at h
  simp only at h
  split at h
  · cases h
    exact inbox_checkWrite s x
  split at h
  · cases h
  rename_i q hq
  have h := queue_bind h
  cases h
  rw [hout] at hq
  have hne := hs.inPipe_ne_outPipe hd hq
  simp [inbox, hin, Function.update_of_ne hne.symm, hheap]

theorem inbox_rollback (h : s.rollback x = .ok s') : s'.inbox x = s.inbox x := by
  unfold rollback at h
  split at h
  · cases h
    rfl
  rename_i q hq
  have h := queue_bind h
  simp only at h
  split at h
  · cases h
    exact inbox_store_outPipe hs hd hq _
  · cases h

theorem inbox_flush (h : s.flush x = .ok s') : s'.inbox x = s.inbox x := by
  unfold flush at h
  split at h
  · cases h
    rfl
  split at h
  · cases h
    rfl
  rename_i q hq
  have h := queue_bind h
  simp only at h
  split at h
  · cases h
    exact inbox_store_outPipe hs hd hq _
  · rw [inbox_send h]
    exact inbox_store_outPipe hs hd hq _

end writing
end PipePair
end LibZmq
