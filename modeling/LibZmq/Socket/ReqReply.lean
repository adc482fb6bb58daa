import LibZmq.Socket.Req

/-!
# Replies belong to the request

The user gets the frames of one message as a reply, without the envelope. The envelope has the
number of the current request, and the message has come from the pipe the request was sent to,
unless that pipe is gone.

* `replies_match`: this is so in every run in which nothing disturbs a message that is half read
  (`Undisturbed`), and no assertion of `xrecv` fails.
* `reply_mixed`: when the pipe of a reply is closed in the middle of it, the next frame is taken
  from another pipe.
-/

namespace LibZmq

open LibZmq.Core PipePair List Option Finset
open FqNet (Reading Fetched Between)

namespace Req

open ReqNet (number)

variable {r r' : Req} {seen pipes : Finset PipeId} {cs cs' : Channels} {k : PipeId}
  {rest : List Msg} {n : Nat} {id : Option UInt32} {heads : List Msg}

/-- Frames from pipe `p` are not skipped. -/
def Accepts (r : Req) (p : PipeId) : Prop := r.replyPipe = none ∨ r.replyPipe = some p

/-- The frames in front of a reply to the request with the number `id`, if it has one. -/
def Heading : Option UInt32 → List Msg → Prop
  | none, heads => ∃ b, heads = [b] ∧ isBottom b = true
  | some id, heads => ∃ f b, heads = [f, b] ∧ isRequestId id f = true ∧ isBottom b = true

/-- The queue has the same pipes, and the pipes were only read. -/
structure Reads (r : Req) (cs : Channels) (r' : Req) (cs' : Channels) : Prop where
  mem : ∀ q, q ∈ r'.fq.pipes.items ↔ q ∈ r.fq.pipes.items
  quiet : ∀ q, (cs q).Quiet (cs' q)
  same : r' = { r with
    fq := r'.fq, receivingReply := r'.receivingReply, messageBegins := r'.messageBegins }

theorem Reads.refl (r : Req) (cs : Channels) : Reads r cs r cs :=
  ⟨fun _ => .rfl, fun _ => .refl _, rfl⟩

theorem Reads.trans (h : Reads r cs r' cs') (h' : Reads r' cs' r'' cs'') : Reads r cs r'' cs'' :=
  ⟨fun q => (h'.mem q).trans (h.mem q), fun q => (h.quiet q).trans (h'.quiet q),
    by rw [h'.same, h.same]⟩

theorem Reads.subset (h : Reads r cs r' cs')
    (hmem : ∀ q ∈ r.fq.pipes.items, q ∈ seen) : ∀ q ∈ r'.fq.pipes.items, q ∈ seen :=
  fun q hq => hmem q ((h.mem q).mp hq)

section reading
variable (h : Reading seen r.fq cs msgs k rest) (hmem : ∀ q ∈ r.fq.pipes.items, q ∈ seen)
  (hk : rest ≠ [] → r.Accepts k)
include h hmem hk

/-- `recv_reply_pipe` goes on with the reply, or skips whole messages of other pipes. -/
theorem recvReplyPipe_spec : ∃ part r' cs', r.recvReplyPipe cs = .ok (part, r', cs') ∧
    r' = { r with fq := r'.fq } ∧ Reads r cs r' cs' ∧
    (part = none ∧ rest = [] ∧ r'.fq.backlog cs' ≤ r.fq.backlog cs ∧
        Between seen r'.fq cs' msgs ∨
      ∃ q m s, part = some m ∧ r.Accepts q ∧ r'.fq.backlog cs' < r.fq.backlog cs ∧
        (rest ≠ [] → s = [] ∧ q = k) ∧ Fetched seen r'.fq cs' (msgs ++ s) q rest m) := by
  have hstop : ∀ p, (r.replyPipe.isNone || r.replyPipe == some p) = true ↔ r.Accepts p := by
    intro p
    simp [Accepts]
  obtain ⟨part, f, cs', hrecv, hmem', hquiet, hcase⟩ :=
    h.recvUntil hmem (Nat.lt_succ_self _)
      (fun p => r.replyPipe.isNone || r.replyPipe == some p) fun hne => (hstop k).mpr (hk hne)
  refine ⟨part.map Prod.snd, { r with fq := f }, cs', ?_, rfl, ⟨hmem', hquiet, rfl⟩, ?_⟩
  · rw [recvReplyPipe, hrecv]
    rfl
  · rcases hcase with ⟨rfl, hnil, hle, hread⟩ | ⟨q, m, s, rfl, hq, hlt, hs, hf⟩
    · exact .inl ⟨rfl, hnil, hle, hread⟩
    · exact .inr ⟨q, m, s, rfl, (hstop q).mp hq, hlt, hs, hf⟩

end reading

/-- The remaining frames of a message can be read at once. -/
theorem skipRest_spec (h : Reading seen r.fq cs msgs k rest)
    (hmem : ∀ q ∈ r.fq.pipes.items, q ∈ seen) (hk : r.Accepts k) (hm : m.hasMore = true ↔ rest ≠ [])
    (hn : r.fq.backlog cs < n) :
    ∃ r' cs', skipRest n r cs m = .ok (r', cs') ∧ r' = { r with fq := r'.fq } ∧ Reads r cs r' cs' ∧
      r'.fq.backlog cs' ≤ r.fq.backlog cs ∧ Between seen r'.fq cs' msgs := by
  induction n generalizing r cs m msgs rest with
  | zero => exact absurd hn (Nat.not_lt_zero _)
  | succ n ih =>
    unfold skipRest
    by_cases hmore : m.hasMore = true
    · have hne := hm.mp hmore
      obtain ⟨part, r₁, cs₁, hrecv, hsame, hreads, hcase⟩ := recvReplyPipe_spec h hmem fun _ => hk
      rcases hcase with ⟨-, hnil, -⟩ | ⟨q, m', s, rfl, -, hlt, hs, hf⟩
      · exact absurd hnil hne
      obtain ⟨rfl, rfl⟩ := hs hne
      rw [append_nil] at hf
      have hk₁ : r₁.Accepts q := by
        rw [hsame]
        exact hk
      simp only [if_pos hmore, hrecv]
      obtain ⟨_, rest', hread, hm'⟩ := hf.reading
      obtain ⟨r₂, cs₂, hskip, hsame', hreads', hle, hread'⟩ :=
        ih hread (hreads.subset hmem) hk₁ hm' (by omega)
      exact ⟨r₂, cs₂, hskip, by rw [hsame', hsame], hreads.trans hreads', by omega,
        hread'.of_append⟩
    · have hnil : rest = [] := by
        by_contra hne
        exact hmore (hm.mpr hne)
      simp only [if_neg hmore]
      rw [hnil] at h
      exact ⟨r, cs, rfl, rfl, .refl r cs, le_rfl, [], k, by rwa [append_nil]⟩

section expecting
variable (good : Msg → Bool) (hgood : ∀ m, good m = true → m.hasMore = true)
  (h : Reading seen r.fq cs msgs k rest) (hmem : ∀ q ∈ r.fq.pipes.items, q ∈ seen)
  (hk : rest ≠ [] → r.Accepts k)
include hgood h hmem hk

/-- The next frame is the expected one, or its message is skipped as a whole. -/
theorem expect_spec : ∃ found r' cs', r.expect cs good = .ok (found, r', cs') ∧
    r' = { r with fq := r'.fq } ∧ Reads r cs r' cs' ∧
    (found = none ∧ rest = [] ∧ Between seen r'.fq cs' msgs ∨
      found = some false ∧ r'.fq.backlog cs' < r.fq.backlog cs ∧ Between seen r'.fq cs' msgs ∨
      found = some true ∧ r'.fq.backlog cs' < r.fq.backlog cs ∧ ∃ q m s, good m = true ∧
        r.Accepts q ∧ (rest ≠ [] → s = [] ∧ q = k) ∧
        Reading seen r'.fq cs' (msgs ++ s) q (rest ++ [m])) := by
  obtain ⟨part, r₁, cs₁, hrecv, hsame, hreads, hcase⟩ := recvReplyPipe_spec h hmem hk
  unfold expect
  rcases hcase with ⟨rfl, hnil, -, hread⟩ | ⟨q, m, s, rfl, hq, hlt, hs, hf⟩ <;>
    simp only [hrecv, ok_bind]
  · exact ⟨none, r₁, cs₁, rfl, hsame, hreads, .inl ⟨rfl, hnil, hread⟩⟩
  by_cases hyes : good m = true
  · simp only [if_pos hyes]
    exact ⟨_, r₁, cs₁, rfl, hsame, hreads,
      .inr (.inr ⟨rfl, hlt, q, m, s, hyes, hq, hs, hf.more (hgood m hyes)⟩)⟩
  simp only [if_neg hyes]
  have hq₁ : r₁.Accepts q := by
    rw [hsame]
    exact hq
  obtain ⟨_, rest', hread, hm⟩ := hf.reading
  obtain ⟨r₂, cs₂, hskip, hsame', hreads', hle, hread'⟩ :=
    skipRest_spec hread (hreads.subset hmem) hq₁ hm (Nat.lt_succ_self _)
  rw [hskip]
  exact ⟨_, r₂, cs₂, rfl, by rw [hsame', hsame], hreads.trans hreads',
    .inr (.inl ⟨rfl, by omega, hread'.of_append.of_append⟩)⟩

end expecting

theorem hasMore_of_isRequestId {id : UInt32} (h : isRequestId id m = true) : m.hasMore = true :=
  (Bool.and_eq_true_iff.mp h).1

theorem hasMore_of_isBottom (h : isBottom m = true) : m.hasMore = true :=
  (Bool.and_eq_true_iff.mp h).1

theorem Heading.ne_nil (h : Heading id heads) : heads ≠ [] := by
  cases id with
  | none =>
    obtain ⟨b, rfl, -⟩ := h
    simp
  | some =>
    obtain ⟨f, b, rfl, -⟩ := h
    simp

/-- The frame with the number, if there is one, and then the empty one. -/
theorem heading_concat (hb : isBottom m = true) (hheads : match id with
      | none => heads = []
      | some id => ∃ f, heads = [f] ∧ isRequestId id f = true) : Heading id (heads ++ [m]) := by
  cases id with
  | none => exact ⟨m, by rw [show heads = [] from hheads]; rfl, hb⟩
  | some =>
    obtain ⟨f, rfl, hf⟩ := hheads
    exact ⟨f, m, rfl, hf, hb⟩

/-- What `beginReply` has found: no reply yet, or the envelope of one. -/
def Begins (seen : Finset PipeId) (msgs : List (PipeId × List Msg)) (r : Req) (b : Bool)
    (r' : Req) (cs' : Channels) : Prop :=
  b = false ∧ r' = { r with fq := r'.fq } ∧ Between seen r'.fq cs' msgs ∨
    b = true ∧ r' = { r with fq := r'.fq, messageBegins := false } ∧ ∃ q s heads,
      Heading (number r) heads ∧ r.Accepts q ∧ Reading seen r'.fq cs' (msgs ++ s) q heads

section beginning
variable (hmem : ∀ q ∈ r.fq.pipes.items, q ∈ seen) (h : Reading seen r.fq cs msgs k [])
include hmem h

theorem expectRequestId_spec : ∃ found r' cs', r.expectRequestId cs = .ok (found, r', cs') ∧
    r' = { r with fq := r'.fq } ∧ Reads r cs r' cs' ∧
    (found = none ∧ Between seen r'.fq cs' msgs ∨
      found = some false ∧ r'.fq.backlog cs' < r.fq.backlog cs ∧ Between seen r'.fq cs' msgs ∨
      found = some true ∧ r'.fq.backlog cs' ≤ r.fq.backlog cs ∧ ∃ q s heads,
        (heads ≠ [] → r.Accepts q) ∧
        (match number r with
          | none => heads = []
          | some id => ∃ f, heads = [f] ∧ isRequestId id f = true) ∧
        Reading seen r'.fq cs' (msgs ++ s) q heads) := by
  unfold expectRequestId number
  by_cases hon : r.requestIdFramesEnabled = true
  · simp only [if_pos hon]
    obtain ⟨found, r', cs', hexpect, hsame, hreads, hcase⟩ :=
      expect_spec (isRequestId r.requestId) (fun _ => hasMore_of_isRequestId) h hmem
        (absurd rfl)
    refine ⟨found, r', cs', hexpect, hsame, hreads, ?_⟩
    rcases hcase with ⟨rfl, -, hread⟩ | ⟨rfl, hlt, hread⟩ | ⟨rfl, hlt, q, m, s, hm, hq, -, hread⟩
    · exact .inl ⟨rfl, hread⟩
    · exact .inr (.inl ⟨rfl, hlt, hread⟩)
    · exact .inr (.inr ⟨rfl, hlt.le, q, s, [m], fun _ => hq, ⟨m, rfl, hm⟩, hread⟩)
  · simp only [if_neg hon]
    exact ⟨_, r, cs, rfl, rfl, .refl r cs,
      .inr (.inr ⟨rfl, le_rfl, k, [], [], absurd rfl, rfl, by rwa [append_nil]⟩)⟩

/-- Messages are skipped as a whole until one has the right envelope. -/
theorem beginReply_spec (hn : r.fq.backlog cs < n) :
    ∃ b r' cs', beginReply n r cs = .ok (b, r', cs') ∧ Reads r cs r' cs' ∧
      Begins seen msgs r b r' cs' := by
  induction n generalizing r cs msgs k with
  | zero => exact absurd hn (Nat.not_lt_zero _)
  | succ n ih =>
    -- what is left to do after a message has been skipped
    have hagain : ∀ {r₁ : Req} {cs₁ : Channels} {s : List (PipeId × List Msg)} {k₁ : PipeId},
        r₁ = { r with fq := r₁.fq } → Reads r cs r₁ cs₁ →
        r₁.fq.backlog cs₁ < r.fq.backlog cs → Reading seen r₁.fq cs₁ (msgs ++ s) k₁ [] →
        ∃ b r' cs', beginReply n r₁ cs₁ = .ok (b, r', cs') ∧ Reads r cs r' cs' ∧
          Begins seen msgs r b r' cs' := by
      intro r₁ cs₁ s _ hsame hreads hlt hread
      obtain ⟨b, r', cs', hbegin, hreads', hcase⟩ := ih (hreads.subset hmem) hread (by omega)
      refine ⟨b, r', cs', hbegin, hreads.trans hreads', ?_⟩
      rcases hcase with ⟨rfl, hsame', hread'⟩ | ⟨rfl, hsame', q, s', heads, hheads, hq, hread'⟩
      · exact .inl ⟨rfl, by rw [hsame', hsame], hread'.of_append⟩
      refine .inr ⟨rfl, by rw [hsame', hsame], q, s ++ s', heads, ?_, ?_, ?_⟩
      · rwa [hsame] at hheads
      · rwa [hsame] at hq
      · rwa [← append_assoc]
    obtain ⟨found, r₁, cs₁, hid, hsame, hreads, hcase⟩ := expectRequestId_spec hmem h
    unfold beginReply
    rcases hcase with ⟨rfl, hread⟩ | ⟨rfl, hlt, s, k', hread⟩ |
      ⟨rfl, hle, q, s, heads, hq, hheads, hread⟩ <;> simp only [hid, ok_bind]
    · exact ⟨false, r₁, cs₁, rfl, hreads, .inl ⟨rfl, hsame, hread⟩⟩
    · exact hagain hsame hreads hlt hread
    have hq₁ : heads ≠ [] → r₁.Accepts q := by
      rw [hsame]
      exact hq
    obtain ⟨found', r₂, cs₂, hexpect, hsame', hreads', hcase'⟩ :=
      expect_spec isBottom (fun _ => hasMore_of_isBottom) hread (hreads.subset hmem) hq₁
    have hsame₂ : r₂ = { r with fq := r₂.fq } := by rw [hsame', hsame]
    rcases hcase' with ⟨rfl, -, hread'⟩ | ⟨rfl, hlt, s', k', hread'⟩ |
      ⟨rfl, hlt, q', m, s', hm, hq', hs, hread'⟩ <;> simp only [hexpect]
    · exact ⟨false, r₂, cs₂, rfl, hreads.trans hreads', .inl ⟨rfl, hsame₂, hread'.of_append⟩⟩
    · rw [append_assoc] at hread'
      exact hagain hsame₂ (hreads.trans hreads') (by omega) hread'
    refine ⟨true, _, cs₂, rfl, hreads.trans (hreads'.trans ⟨fun _ => .rfl, fun _ => .refl _, rfl⟩),
      .inr ⟨rfl, by rw [hsame₂], q', s ++ s', heads ++ [m], heading_concat hm hheads, ?_, ?_⟩⟩
    · rw [hsame] at hq'
      exact hq'
    · rwa [← append_assoc]

end beginning

/-- The next frame of a reply can be read at once. -/
theorem recvPart_spec (h : Reading seen r.fq cs msgs k rest)
    (hmem : ∀ q ∈ r.fq.pipes.items, q ∈ seen) (hk : r.Accepts k) (hne : rest ≠ []) :
    ∃ m r' cs', r.recvPart cs = .ok (.ok m, r', cs') ∧ Reads r cs r' cs' ∧
      Fetched seen r'.fq cs' msgs k rest m ∧
      r' = { r with
        fq := r'.fq
        receivingReply := if m.hasMore then r.receivingReply else false
        messageBegins := if m.hasMore then r.messageBegins else true } := by
  obtain ⟨part, r₁, cs₁, hrecv, hsame, hreads, hcase⟩ := recvReplyPipe_spec h hmem fun _ => hk
  rcases hcase with ⟨-, hnil, -⟩ | ⟨q, m, s, rfl, -, -, hs, hf⟩
  · exact absurd hnil hne
  obtain ⟨rfl, rfl⟩ := hs hne
  rw [append_nil] at hf
  unfold recvPart
  simp only [hrecv, ok_bind]
  by_cases hm : m.hasMore = true
  · simp only [if_pos hm]
    exact ⟨m, r₁, cs₁, rfl, hreads, hf, by simp only [if_pos hm]; exact hsame⟩
  simp only [if_neg hm]
  refine ⟨m, _, cs₁, rfl, hreads.trans ⟨fun _ => .rfl, fun _ => .refl _, rfl⟩, hf, ?_⟩
  simp only [if_neg hm]
  rw [hsame]

section sending
variable (hwired : r.Wired pipes cs) (h : Reading seen r.fq cs msgs k rest)
include hwired h

/-- When a request begins, everything that has arrived is read. -/
theorem openRequest_drains (hsub : pipes ⊆ seen) (hcall : r.openRequest cs = .ok (b, r', cs')) :
    r'.Wired pipes cs' ∧ (∀ t, (cs t).gone → (cs' t).gone) ∧
      ∃ s k' rest', Reading seen r'.fq cs' (msgs ++ s) k' rest' ∧ (b = false ∧ r' = { r with
            lb := r'.lb, replyPipe := r'.replyPipe, requestId := r'.requestId } ∨
          b = true ∧ rest' = [] ∧ (∃ t, r'.replyPipe = some t) ∧ r' = { r with
            fq := r'.fq, lb := r'.lb, replyPipe := r'.replyPipe, requestId := r'.requestId,
            messageBegins := false }) := by
  obtain ⟨⟨sent, r₁, cs₁⟩, henv, hcall⟩ := bind_ok hcall
  obtain ⟨hwired₁, hkept, hsame⟩ := sendEnvelope_keeps hwired henv
  have hgone := fun t => (hkept t).gone.mpr
  cases sent with
  | false =>
    cases hcall
    refine ⟨hwired₁, hgone, [], k, rest, ?_, .inl ⟨rfl, hsame⟩⟩
    rw [append_nil, hsame]
    exact h.kept hkept
  | true =>
    simp only at hcall
    split at hcall
    · cases hcall
    rename_i hsome
    obtain ⟨⟨r₂, cs₂⟩, hdrop, ⟨⟩⟩ := bind_ok hcall
    have hread : Reading seen r₁.fq cs₁ msgs k rest := by
      rw [hsame]
      exact h.kept hkept
    obtain ⟨f, cs₃, hrecv, hmem, hquiet, s, k', hread'⟩ := hread.drain
      (fun q hq => hsub ((hwired₁.queued q).mp hq)) (Nat.lt_succ_self _)
    rw [dropInput] at hdrop
    simp only [hrecv] at hdrop
    cases hdrop
    refine ⟨hwired₁.quiet hread'.agreed hmem hquiet,
      fun t ht => (hquiet t).gone (hgone t ht), s, k', [], hread', .inr ⟨rfl, rfl, ?_, ?_⟩⟩
    · exact ne_none_iff_exists'.mp fun hnone => hsome (isNone_iff_eq_none.mpr hnone)
    · rw [hsame]

/-- After `xsend` the next message is read from its beginning, if a request was sent. The pipe of
its reply is that of the envelope. -/
theorem xsend_spec (hsub : pipes ⊆ seen)
    (hrest : r.receivingReply = false → r.messageBegins = false → rest = []) (hmsg : m.Ordinary)
    (hcall : r.xsend cs m = .ok (res, r', cs')) :
    (res.errno = some .efsm ∧ r' = r ∧ cs' = cs) ∨
      res.errno ≠ some .efsm ∧ r'.Wired pipes cs' ∧ (∀ t, (cs t).gone → (cs' t).gone) ∧
        r'.probeRouter = r.probeRouter ∧ ∃ s k' rest', Reading seen r'.fq cs' (msgs ++ s) k' rest' ∧
          (r'.receivingReply = false ∧ r'.messageBegins = true ∨
            rest' = [] ∧ r'.receivingReply = r'.messageBegins ∧ ((∃ t, r'.replyPipe = some t) ∨
                r.messageBegins = false ∧ r'.replyPipe = r.replyPipe)) := by
  unfold xsend at hcall
  split at hcall
  · cases hcall
    exact .inl ⟨rfl, rfl, rfl⟩
  refine .inr ?_
  -- a relaxed socket gives up the reply it was waiting for
  generalize hr₀ : (if r.receivingReply then
    { r with receivingReply := false, messageBegins := true } else r) = r₀ at hcall
  dsimp only at hcall
  have hsame₀ : r₀ = { r with receivingReply := false, messageBegins := r₀.messageBegins } ∧
      (r₀.messageBegins = false → r.receivingReply = false ∧ r.messageBegins = false) := by
    cases hr : r.receivingReply <;> simp only [hr, Bool.false_eq_true, if_false] at hr₀ <;>
      subst hr₀
    · exact ⟨by rw [← hr], fun hno => ⟨rfl, hno⟩⟩
    · exact ⟨rfl, nofun⟩
  obtain ⟨hsame₀, hmidway⟩ := hsame₀
  have hwired₀ : r₀.Wired pipes cs := by
    rw [hsame₀]
    exact hwired
  have hread₀ : Reading seen r₀.fq cs msgs k rest := by
    rw [hsame₀]
    exact h
  split at hcall
  · -- the envelope chooses the pipe, and old replies are read away
    rename_i hbegins
    obtain ⟨⟨b, r₁, cs₁⟩, hopen, hcall⟩ := bind_ok hcall
    obtain ⟨hwired₁, hgone, s, k', rest', hread, hcase⟩ :=
      openRequest_drains hwired₀ hread₀ hsub hopen
    rcases hcase with ⟨rfl, hsame⟩ | ⟨rfl, rfl, ⟨t, ht⟩, hsame⟩
    · cases hcall
      refine ⟨by simp [SendResult.refused], hwired₁, hgone, by rw [hsame, hsame₀], s, k', rest',
        hread, .inl ⟨by rw [hsame, hsame₀], by rw [hsame, hbegins]⟩⟩
    obtain ⟨hwired₂, hkept, hsame', herrno⟩ := sendPart_keeps hwired₁ hmsg hcall
    refine ⟨herrno, hwired₂, fun t ht => (hkept t).gone.mpr (hgone t ht), ?_, s, k', [], ?_,
      .inr ⟨rfl, ?_, .inl ⟨t, ?_⟩⟩⟩
    · rcases hsame' with hsame' | hsame' <;> rw [hsame', hsame, hsame₀]
    · rcases hsame' with hsame' | hsame' <;>
        · rw [hsame']
          exact hread.kept hkept
    · rcases hsame' with hsame' | hsame' <;> rw [hsame', hsame, hsame₀]
    · rcases hsame' with hsame' | hsame' <;>
        · rw [hsame']
          exact ht
  · -- in the middle of a request nothing is read
    rename_i hbegins
    have hno : r₀.messageBegins = false := Bool.eq_false_iff.mpr hbegins
    obtain ⟨hreply, hmid⟩ := hmidway hno
    obtain rfl := hrest hreply hmid
    obtain ⟨hwired₂, hkept, hsame', herrno⟩ := sendPart_keeps hwired₀ hmsg hcall
    refine ⟨herrno, hwired₂, fun t => (hkept t).gone.mpr, ?_, [], k, [], ?_,
      .inr ⟨rfl, ?_, .inr ⟨hmid, ?_⟩⟩⟩
    · rcases hsame' with hsame' | hsame' <;> rw [hsame', hsame₀]
    · rw [append_nil]
      rcases hsame' with hsame' | hsame' <;>
        · rw [hsame']
          exact hread₀.kept hkept
    · rcases hsame' with hsame' | hsame' <;> rw [hsame']
      rw [hno, hsame₀]
    · rcases hsame' with hsame' | hsame' <;> rw [hsame', hsame₀]

end sending
end Req

/-! ## Runs -/

/-- A message that the socket has read, and the reply that it was for the user, if it was one. -/
structure Req.Receipt where
  pipe : PipeId
  message : List Msg
  answer : Option Answer

namespace ReqNet

open Req (Answer Receipt Accepts Heading)

/-- The frames `parts` from pipe `p` are the envelope of the request and then the reply. They have
come from the pipe of the request, unless that is gone. -/
def Answers (cs : Channels) (p : PipeId) (parts : List Msg) (a : Answer) : Prop :=
  ∃ heads t, parts = heads ++ a.parts ∧ Heading a.id heads ∧ a.target = some t ∧
    (p = t ∨ (cs t).gone)

/-- What the user has received are replies. -/
structure Matching (n : ReqNet) : Prop where
  /-- Whole messages were read, and perhaps the first frames of another one. Every reply is one of
  them, and the others were skipped. -/
  replies : ∃ (receipts : List Receipt) (p : PipeId) (rest : List Msg),
    (∀ x ∈ receipts, x.pipe ∈ n.seen ∧ Framed Msg.hasMore x.message) ∧
    (∀ q, (n.channels q).got = Fq.partsOf q
      (receipts.flatMap (fun x => x.message.map (Prod.mk x.pipe)) ++ rest.map (Prod.mk p))) ∧
    receipts.filterMap Receipt.answer = n.answers ∧
    (∀ x ∈ receipts, ∀ a ∈ x.answer, Answers n.channels x.pipe x.message a) ∧
    (n.answer.parts ≠ [] → Answers n.channels p rest n.answer)
  /-- What was read from a pipe are messages that its peer has sent, one after the other. -/
  ordered : ∀ p, ∃ l, ((n.channels p).log .second).Block l ∧ (n.channels p).got <+: l
  /-- No assertion fails. -/
  recv : ∃ n', n.next .recv = .ok n'

/-- Nothing happens to the pipes that disturbs a message that is half read. -/
def Undisturbed (n : ReqNet) : Act → Prop
  | .pipe p a => FqNet.Undisturbed ⟨n.req.fq, n.channels, []⟩ (.pipe p a)
  | _ => True

variable {n n' : ReqNet} {r : Req} {seen seen' : Finset PipeId} {cs cs' : Channels}
  {answers : List Answer} {msgs : List (PipeId × List Msg)} {p k k' : PipeId}
  {rest rest' : List Msg} {a : Answer} {m : Msg}

/-- What has been read, and what of it was for the user. -/
structure Recorded (seen : Finset PipeId) (f : Fq) (cs : Channels) (answers : List Answer)
    (receipts : List Receipt) (k : PipeId) (rest : List Msg) : Prop where
  reading : Reading seen f cs (receipts.map fun x => (x.pipe, x.message)) k rest
  answers : receipts.filterMap Receipt.answer = answers
  matching : ∀ x ∈ receipts, ∀ a ∈ x.answer, Answers cs x.pipe x.message a

theorem Answers.mono (h : Answers cs p rest a) (hgone : ∀ t, (cs t).gone → (cs' t).gone) :
    Answers cs' p rest a := by
  obtain ⟨heads, t, hparts, hheads, ht, hp⟩ := h
  exact ⟨heads, t, hparts, hheads, ht, hp.imp_right (hgone t)⟩

theorem Answers.concat (h : Answers cs p rest a) (m : Msg) :
    Answers cs p (rest ++ [m]) { a with parts := a.parts ++ [m] } := by
  obtain ⟨heads, t, rfl, hheads, ht, hp⟩ := h
  exact ⟨heads, t, append_assoc .., hheads, ht, hp⟩

theorem Answers.ne_nil (h : Answers cs p rest a) : rest ≠ [] := by
  obtain ⟨heads, t, rfl, hheads, -⟩ := h
  simp [hheads.ne_nil]

section
variable (h : Recorded seen f cs answers receipts k rest) (hgone : ∀ t, (cs t).gone → (cs' t).gone)
include h hgone

/-- The messages `msgs` were skipped, or none at all. -/
theorem Recorded.skip
    (hread : Reading seen' f' cs' (receipts.map (fun x => (x.pipe, x.message)) ++ msgs) k' rest') :
    Recorded seen' f' cs' answers (receipts ++ msgs.map fun x => ⟨x.1, x.2, none⟩) k' rest' where
  reading := by simpa [Function.comp_def] using hread
  answers := by simp [h.answers]
  matching x hx := by
    rcases mem_append.mp hx with hx | hx
    · exact fun a ha => (h.matching x hx a ha).mono hgone
    · obtain ⟨-, -, rfl⟩ := mem_map.mp hx
      exact nofun

theorem Recorded.step
    (hread : Reading seen' f' cs' (receipts.map fun x => (x.pipe, x.message)) k' rest') :
    Recorded seen' f' cs' answers receipts k' rest' :=
  ⟨hread, h.answers, fun x hx a ha => (h.matching x hx a ha).mono hgone⟩

theorem Recorded.reply (ha : Answers cs' k rest' a)
    (hread : Reading seen f' cs'
      (receipts.map (fun x => (x.pipe, x.message)) ++ [(k, rest')]) k []) :
    Recorded seen f' cs' (answers ++ [a]) (receipts ++ [⟨k, rest', some a⟩]) k [] where
  reading := by simpa using hread
  answers := by simp [h.answers]
  matching x hx := by
    rcases mem_append.mp hx with hx | hx
    · exact fun a ha => (h.matching x hx a ha).mono hgone
    · obtain rfl := List.mem_singleton.mp hx
      rintro b ⟨⟩
      exact ha

end

/-- The reply is expected from pipe `t`, or that is gone. -/
def Expects (r : Req) (cs : Channels) (t : PipeId) : Prop :=
  r.replyPipe = some t ∨ r.replyPipe = none ∧ (cs t).gone

/-- The invariant. Between the envelope of a request and its reply the socket is at the beginning of
a message. -/
structure Tracked (n : ReqNet) : Prop where
  wired : n.req.Wired n.pipes n.channels
  noProbe : n.req.probeRouter = false
  seen : n.pipes ⊆ n.seen
  target : n.req.receivingReply = true ∨ n.req.messageBegins = false →
    ∃ t, n.target = some t ∧ Expects n.req n.channels t
  idle : n.req.receivingReply = false ∨ n.req.messageBegins = true → n.answer.parts = []
  recorded : ∃ receipts k rest, Recorded n.seen n.req.fq n.channels n.answers receipts k rest ∧
    (n.req.receivingReply = n.req.messageBegins → rest = []) ∧
    (n.req.receivingReply = true → n.req.messageBegins = false →
      n.req.Accepts k ∧ n.answer.parts ≠ [] ∧ Answers n.channels k rest n.answer)

theorem tracked_initial (random : UInt32) (immediate : Bool) (hwm₀ hwm₁ : PipeId → Int) :
    (initial random immediate hwm₀ hwm₁).Tracked where
  wired := Dealer.wired_new immediate hwm₀ hwm₁
  noProbe := rfl
  seen := subset_rfl
  target h := by rcases h with h | h <;> cases h
  idle _ := rfl
  recorded := ⟨[], 0, [],
    ⟨⟨[], FqNet.sound_initial hwm₀ hwm₁, Batches.nil 0, nofun⟩, rfl, nofun⟩, fun _ => rfl, nofun⟩

section
variable (h : n.Tracked)
include h

/-- The pipes have changed, and the socket knows it. -/
theorem Tracked.update {pipes : Finset PipeId} (hwired : r.Wired pipes cs)
    (hsub : pipes ⊆ seen) (hprobe : r.probeRouter = n.req.probeRouter)
    (hgone : ∀ t, (n.channels t).gone → (cs t).gone)
    (hread : ∀ {msgs k rest}, Reading n.seen n.req.fq n.channels msgs k rest →
      Reading seen r.fq cs msgs k rest)
    (hreply : r.receivingReply = n.req.receivingReply)
    (hbegins : r.messageBegins = n.req.messageBegins)
    (hpipe : r.replyPipe = n.req.replyPipe ∨
      ∃ t, n.req.replyPipe = some t ∧ r.replyPipe = none ∧ (cs t).gone) :
    Tracked { n with req := r, pipes := pipes, seen := seen, channels := cs } where
  wired := hwired
  noProbe := hprobe.trans h.noProbe
  seen := hsub
  target hcase := by
    obtain ⟨t, ht, hexp⟩ := h.target (by rwa [hreply, hbegins] at hcase)
    refine ⟨t, ht, ?_⟩
    rcases hpipe with hpipe | ⟨t', ht', hnone, hgone'⟩
    · exact hexp.imp hpipe.trans fun ⟨hnone, hg⟩ => ⟨hpipe.trans hnone, hgone t hg⟩
    refine .inr ⟨hnone, ?_⟩
    rcases hexp with hsome | ⟨hnone', -⟩
    · obtain rfl : t = t' := some.inj (hsome.symm.trans ht')
      exact hgone'
    · rw [ht'] at hnone'
      cases hnone'
  idle hcase := h.idle (by rwa [hreply, hbegins] at hcase)
  recorded := by
    obtain ⟨receipts, k, rest, hrec, hnil, hmid⟩ := h.recorded
    refine ⟨receipts, k, rest, hrec.step hgone (hread hrec.reading), ?_, ?_⟩
    · rw [hreply, hbegins]
      exact hnil
    · rw [hreply, hbegins]
      intro hyes hno
      obtain ⟨hacc, hne, hans⟩ := hmid hyes hno
      refine ⟨?_, hne, hans.mono hgone⟩
      rcases hpipe with hpipe | ⟨-, -, hnone, -⟩
      · rw [Accepts, hpipe]
        exact hacc
      · exact .inl hnone

theorem Tracked.attach (hen : n.Enabled (.attach p))
    (hnext : n.next (.attach p) = .ok n') : n'.Tracked := by
  obtain ⟨⟨r, cs⟩, hattach, ⟨⟩⟩ := bind_ok hnext
  obtain ⟨⟨d, cs₁⟩, hd, ⟨⟩⟩ := bind_ok hattach
  obtain ⟨hwired, rfl, hsame, -⟩ := h.wired.attach hen.1 hen.2 h.noProbe hd
  have hfq : n.req.fq.attach p = .ok d.fq := by
    obtain ⟨_, -, hd⟩ := bind_ok hd
    obtain ⟨f, hf, hd⟩ := bind_ok hd
    obtain ⟨b, -, ⟨⟩⟩ := bind_ok hd
    exact hf
  refine h.update hwired (insert_subset_insert p h.seen) (by rw [hsame]) (fun _ ht => ht)
    (fun hread => ?_) rfl rfl (.inl rfl)
  exact (hread.attach (mt (h.wired.queued p).mp hen.1) hen.2 hfq).mono (subset_insert p _)

theorem Tracked.pipe {a : Action} (hen : n.Enabled (.pipe p a))
    (hund : n.Undisturbed (.pipe p a)) (hnext : n.next (.pipe p a) = .ok n') : n'.Tracked := by
  obtain ⟨⟨ev, cs⟩, hact, hnext⟩ := bind_ok hnext
  obtain ⟨⟨r, cs'⟩, htell, ⟨⟩⟩ := bind_ok hnext
  obtain ⟨hout, hhic, hdeliver⟩ := hen
  have htells := Channels.act_tells hout hact
  obtain ⟨hd, hsame⟩ := tell_dealer htells.few htell
  obtain ⟨rfl, hwired, hsame', htold, -⟩ := h.wired.event hout hhic hdeliver hact hd
  obtain ⟨reply, hc⟩ := htold.called
  refine h.update hwired ?_ (by rw [hsame']) (fun t ht => hc.gone_mono ht)
    (fun hread => hread.told (fun hside => (hout.2.2.1 hside).2.1) hund htold) (by rw [hsame])
    (by rw [hsame]) ?_
  · exact (Channels.remaining_subset ..).trans h.seen
  · by_cases hterm : ev = [.pipeTerminated] ∧ n.req.replyPipe = some p
    · exact .inr ⟨p, hterm.2, by rw [hsame]; exact if_pos hterm, htells.gone.mpr (.inr hterm.1)⟩
    · exact .inl (by rw [hsame]; exact if_neg hterm)

theorem Tracked.hasIn (hnext : n.next .hasIn = .ok n') : n'.Tracked := by
  obtain ⟨⟨b, r, cs⟩, hin, ⟨⟩⟩ := bind_ok hnext
  unfold Req.xhasIn at hin
  split at hin
  · cases hin
    exact h
  obtain ⟨⟨b', d, cs'⟩, hd, ⟨⟩⟩ := bind_ok hin
  obtain ⟨hsame, hwired, hquiet⟩ := h.wired.hasIn hd
  obtain ⟨⟨_, f, _⟩, hfq, ⟨⟩⟩ := bind_ok hd
  exact h.update hwired h.seen (by rw [hsame]) (fun t => (hquiet t).gone)
    (fun hread => hread.hasIn hfq) rfl rfl (.inl rfl)

theorem Tracked.hasOut (hnext : n.next .hasOut = .ok n') : n'.Tracked := by
  obtain ⟨⟨b, r, cs⟩, hout, ⟨⟩⟩ := bind_ok hnext
  unfold Req.xhasOut at hout
  split at hout
  · cases hout
    exact h
  obtain ⟨⟨b', d, cs'⟩, hd, ⟨⟩⟩ := bind_ok hout
  obtain ⟨hsame, hwired, hkept, -⟩ := h.wired.hasOut hd
  have hfq : ({ n.req with toDealer := d } : Req).fq = n.req.fq := by rw [hsame]
  refine h.update hwired h.seen (by rw [hsame]) (fun t => (hkept t).gone.mpr) (fun hread => ?_) rfl
    rfl (.inl rfl)
  rw [hfq]
  exact hread.kept hkept

theorem Tracked.setOption (hen : n.Enabled (.setOption o value))
    (hnext : n.next (.setOption o value) = .ok n') : n'.Tracked := by
  cases hnext
  obtain ⟨correlate, strict, heq⟩ := Req.setOption_eq value hen n.req
  rw [heq]
  exact { h with }

end

/-- The reply that the next part belongs to. -/
def current (n : ReqNet) : Answer :=
  if n.answer.parts.isEmpty then ⟨number n.req, n.target, []⟩ else n.answer

theorem received_current (n : ReqNet) (m : Msg) : n.received m = if m.hasMore then
        { n with answer := { n.current with parts := n.current.parts ++ [m] } }
      else { n with
        answers := n.answers ++ [{ n.current with parts := n.current.parts ++ [m] }]
        answer := ⟨none, none, []⟩ } := by
  unfold received current
  split <;> rfl

theorem Tracked.part (h : n.Tracked) (hr : r.receivingReply = true) (hb : r.messageBegins = false)
    (hsame : r = { n.req with fq := r.fq, messageBegins := r.messageBegins })
    (hmem : ∀ q, q ∈ r.fq.pipes.items ↔ q ∈ n.req.fq.pipes.items)
    (hquiet : ∀ q, (n.channels q).Quiet (cs q))
    (hrec : Recorded n.seen r.fq cs n.answers receipts k rest) (hacc : r.Accepts k)
    (hans : Answers cs k rest n.current) :
    ∃ m r' cs', r.recvPart cs = .ok (.ok m, r', cs') ∧
      Tracked { n.received m with req := r', channels := cs' } := by
  have hpipes : ∀ q, q ∈ r.fq.pipes.items ↔ q ∈ n.pipes := fun q =>
    (hmem q).trans (h.wired.queued q)
  obtain ⟨m, r', cs', hcall, hreads, hf, hsame'⟩ := Req.recvPart_spec hrec.reading
    (fun q hq => h.seen ((hpipes q).mp hq)) hacc hans.ne_nil
  refine ⟨m, r', cs', hcall, ?_⟩
  have hquiet' := fun q => (hquiet q).trans (hreads.quiet q)
  have hgone : ∀ t, (cs t).gone → (cs' t).gone := fun t => (hreads.quiet t).gone
  have hans' := (hans.mono hgone).concat m
  have hagreed : Fq.Matches r'.fq.pipes cs' := by
    cases hm : m.hasMore with
    | true => exact (hf.more hm).agreed
    | false => exact (hf.last hm).agreed
  have hwired : r'.Wired n.pipes cs' := by
    rw [hsame', hsame]
    exact h.wired.quiet hagreed (fun q => (hreads.mem q).trans (hmem q)) hquiet'
  have hpipe : r'.replyPipe = n.req.replyPipe := by rw [hsame', hsame]
  have hprobe : r'.probeRouter = false := by
    rw [hsame', hsame]
    exact h.noProbe
  obtain ⟨t, ht, hexp⟩ := h.target (.inl (by rw [hsame] at hr; exact hr))
  have htarget : ∃ t, n.target = some t ∧ Expects r' cs' t := by
    refine ⟨t, ht, hexp.imp hpipe.trans fun ⟨hnone, hg⟩ => ⟨hpipe.trans hnone, ?_⟩⟩
    exact (hquiet' t).gone hg
  rw [received_current]
  cases hm : m.hasMore with
  | true =>
    rw [hm, if_pos rfl, hr, if_pos rfl, hb] at hsame'
    have hyes : r'.receivingReply = true := by rw [hsame']
    have hno : r'.messageBegins = false := by rw [hsame']
    refine ⟨hwired, hprobe, h.seen, fun _ => htarget, ?_,
      receipts, k, rest ++ [m], hrec.step hgone (hf.more hm), ?_, fun _ _ => ⟨?_, by simp, hans'⟩⟩
    · rintro (hcase | hcase)
      · rw [show r'.receivingReply = false from hcase] at hyes
        cases hyes
      · rw [show r'.messageBegins = true from hcase] at hno
        cases hno
    · intro heq
      rw [show r'.receivingReply = r'.messageBegins from heq, hno] at hyes
      cases hyes
    · rw [hsame']
      exact hacc
  | false =>
    rw [hm, if_neg Bool.false_ne_true] at hsame'
    have hno : r'.receivingReply = false := by rw [hsame']
    refine ⟨hwired, hprobe, h.seen, fun _ => htarget, fun _ => rfl,
      _, k, [], hrec.reply hgone hans' (hf.last hm), fun _ => rfl, fun hcase => ?_⟩
    rw [show r'.receivingReply = true from hcase] at hno
    cases hno

theorem Tracked.recv (h : n.Tracked) : ∃ n', n.next .recv = .ok n' ∧ n'.Tracked := by
  obtain ⟨receipts, k, rest, hrec, hnil, hmid⟩ := h.recorded
  have hmem : ∀ q ∈ n.req.fq.pipes.items, q ∈ n.seen := fun q hq =>
    h.seen ((h.wired.queued q).mp hq)
  simp only [next, Req.xrecv]
  cases hr : n.req.receivingReply with
  | false => exact ⟨n, rfl, h⟩
  | true =>
    obtain ⟨t, ht, hexp⟩ := h.target (.inl hr)
    cases hb : n.req.messageBegins with
    | false =>
      obtain ⟨hacc, hne, hans⟩ := hmid hr hb
      have hcurrent : n.current = n.answer := if_neg (by simpa using hne)
      obtain ⟨m, r', cs', hcall, htracked⟩ := h.part hr hb rfl (fun _ => .rfl) (fun _ => .refl _)
        hrec hacc (by rw [hcurrent]; exact hans)
      exact ⟨_, by simp [hcall], htracked⟩
    | true =>
      rw [hnil (hr.trans hb.symm)] at hrec
      obtain ⟨found, r₁, cs₁, hbegin, hreads, hcase⟩ := Req.beginReply_spec hmem hrec.reading
        (Nat.lt_succ_self _)
      have hgone : ∀ t, (n.channels t).gone → (cs₁ t).gone := fun t => (hreads.quiet t).gone
      rcases hcase with ⟨rfl, hsame, s, k', hread⟩ | ⟨rfl, hsame, q, s, heads, hheads, hacc, hread⟩
      · -- no reply was found: what was read belongs to no request
        have hrec' := hrec.skip hgone hread
        have hpipe : r₁.replyPipe = n.req.replyPipe := by rw [hsame]
        have hb₁ : r₁.messageBegins = true := by rw [hsame, hb]
        refine ⟨{ n with req := r₁, channels := cs₁ }, by simp [hbegin], ?_, ?_,
          h.seen, fun _ => ⟨t, ht, hexp.imp hpipe.trans fun ⟨hnone, hg⟩ =>
            ⟨hpipe.trans hnone, hgone t hg⟩⟩, fun _ => h.idle (.inr hb),
          _, k', [], hrec', fun _ => rfl, fun _ hno => ?_⟩
        · rw [hsame]
          exact h.wired.quiet hread.agreed hreads.mem hreads.quiet
        · rw [hsame]
          exact h.noProbe
        · rw [show r₁.messageBegins = false from hno] at hb₁
          cases hb₁
      · have hcurrent : n.current = ⟨number n.req, n.target, []⟩ :=
          if_pos (by rw [h.idle (.inr hb)]; rfl)
        have hans : Answers cs₁ q heads n.current := by
          rw [hcurrent]
          refine ⟨heads, t, (append_nil heads).symm, hheads, ht, ?_⟩
          -- the reply comes from the pipe of the request, unless that is gone
          rcases hexp with hsome | ⟨-, hg⟩
          · refine .inl ?_
            rcases hacc with hnone | hsome'
            · rw [hsome] at hnone
              cases hnone
            · exact some.inj (hsome'.symm.trans hsome)
          · exact .inr (hgone t hg)
        obtain ⟨m, r', cs', hcall, htracked⟩ := h.part (by rw [hsame, hr]) (by rw [hsame])
          (by rw [hsame]) hreads.mem hreads.quiet (hrec.skip hgone hread)
            (by rw [hsame]; exact hacc)
          hans
        exact ⟨_, by simp [hbegin, hcall], htracked⟩

theorem sent_eq (n : ReqNet) (m : Msg) (r : Req) :
    ∃ requests request, n.sent m r = { n with requests := requests, request := request } := by
  by_cases hm : m.hasMore = true
  · exact ⟨_, _, if_pos hm⟩
  · exact ⟨_, _, if_neg hm⟩

theorem Tracked.requested (h : n.Tracked) (requests : List Req.Request) (request : Req.Request)
    (failed : Bool) :
    Tracked { n with requests := requests, request := request, failed := failed } :=
  { h with }

theorem Expects.target {target : Option PipeId} (h : Expects r cs t)
    (ht : target = some t) : r.replyPipe.or target = some t := by
  rcases h with hsome | ⟨hnone, -⟩
  · rw [hsome]
    rfl
  · rw [hnone]
    exact ht

theorem Tracked.send (h : n.Tracked) (hen : n.Enabled (.send m blocking))
    (hnext : n.next (.send m blocking) = .ok n') : n'.Tracked := by
  obtain ⟨⟨res, r, cs⟩, hsend, heq⟩ := bind_ok hnext
  obtain ⟨receipts, k, rest, hrec, hnil, -⟩ := h.recorded
  -- the record of the requests aside
  have hnew : Tracked { n with
      req := r
      channels := cs
      target := r.replyPipe.or n.target
      answer := if res.errno = some .efsm then n.answer else ⟨none, none, []⟩ } := by
    rcases Req.xsend_spec h.wired hrec.reading h.seen (fun hr hb => hnil (hr.trans hb.symm)) hen
      hsend with ⟨herrno, rfl, rfl⟩ | ⟨herrno, hwired, hgone, hprobe, s, k', rest', hread, hcase⟩
    · rw [if_pos herrno]
      refine { h with target := fun hcase => ?_ }
      obtain ⟨t, ht, hexp⟩ := h.target hcase
      exact ⟨t, hexp.target ht, hexp⟩
    rw [if_neg herrno]
    refine ⟨hwired, hprobe.trans h.noProbe, h.seen, fun hbusy => ?_, fun _ => rfl,
      _, k', rest', hrec.skip hgone hread, fun heq => ?_, fun hyes hno => ?_⟩
    · rcases hcase with ⟨hr, hb⟩ | ⟨-, -, ⟨t, ht⟩ | ⟨hb, hsame⟩⟩
      · rcases hbusy with hbusy | hbusy
        · rw [show r.receivingReply = true from hbusy] at hr
          cases hr
        · rw [show r.messageBegins = false from hbusy] at hb
          cases hb
      · exact ⟨t, by rw [show r.replyPipe.or n.target = some t by rw [ht]; rfl], .inl ht⟩
      · obtain ⟨t, ht, hexp⟩ := h.target (.inr hb)
        have hexp' : Expects r cs t :=
          hexp.imp hsame.trans fun ⟨hnone, hg⟩ => ⟨hsame.trans hnone, hgone t hg⟩
        exact ⟨t, hexp'.target ht, hexp'⟩
    · rcases hcase with ⟨hr, hb⟩ | ⟨hnil, -⟩
      · rw [← show r.receivingReply = r.messageBegins from heq, hr] at hb
        cases hb
      · exact hnil
    · rcases hcase with ⟨hr, -⟩ | ⟨-, heq, -⟩
      · rw [show r.receivingReply = true from hyes] at hr
        cases hr
      · rw [show r.receivingReply = true from hyes, show r.messageBegins = false from hno] at heq
        cases heq
  obtain ⟨requests, request, hsent⟩ := sent_eq n m r
  cases heq
  split
  · rw [hsent]
    exact hnew.requested requests request _
  · exact hnew.requested n.requests n.request _

theorem Tracked.step {a : Act} (h : n.Tracked) (hstep : n.Step a n') (hund : n.Undisturbed a) :
    n'.Tracked := by
  obtain ⟨hen, hnext⟩ := hstep
  cases a with
  | attach => exact h.attach hen hnext
  | pipe => exact h.pipe hen hund hnext
  | send => exact h.send hen hnext
  | recv =>
    obtain ⟨n₁, hn₁, htracked⟩ := h.recv
    rw [hnext] at hn₁
    cases hn₁
    exact htracked
  | hasIn => exact h.hasIn hnext
  | hasOut => exact h.hasOut hnext
  | setOption => exact h.setOption hen hnext

theorem Tracked.matching (h : n.Tracked) : n.Matching where
  replies := by
    obtain ⟨receipts, k, rest, hrec, -, hmid⟩ := h.recorded
    refine ⟨receipts, k, rest, fun x hx => ?_, fun q => ?_, hrec.answers, hrec.matching,
      fun hne => ?_⟩
    · exact hrec.reading.mem_seen (mem_map_of_mem hx)
    · rw [hrec.reading.got_eq q, flatMap_map]
    · cases hr : n.req.receivingReply with
      | false => exact absurd (h.idle (.inl hr)) hne
      | true =>
        cases hb : n.req.messageBegins with
        | false => exact (hmid hr hb).2.2
        | true => exact absurd (h.idle (.inr hb)) hne
  ordered p := (h.wired.agreed.follows p).current
  recv := by
    obtain ⟨n', hn', -⟩ := h.recv
    exact ⟨n', hn'⟩

/-- **Replies belong to the request**, in runs in which nothing disturbs a message that is half
read. -/
theorem replies_match {random : UInt32} {immediate : Bool} {hwm₀ hwm₁ : PipeId → Int}
    {tr : List Act}
    (h : Exec (Guarded Step Undisturbed) (initial random immediate hwm₀ hwm₁) tr n) : n.Matching :=
  (h.invariant Tracked (fun _ _ _ hb ⟨hstep, hund⟩ => hb.step hstep hund)
    (tracked_initial random immediate hwm₀ hwm₁)).matching

/-! ## Concrete runs -/

instance (n : ReqNet) (a : Act) : Decidable (n.Undisturbed a) := by
  rcases a <;> dsimp only [Undisturbed] <;> infer_instance

/-- The peer of pipe `p` sends a message. -/
def arrives (p : PipeId) (parts : List Msg) : List Act :=
  parts.map (fun m => .pipe p (.write .second m)) ++
    [.pipe p (.flush .second), .pipe p (.deliver .first)]

/-- Pipe `p` is terminated, whatever its peer has sent. -/
def closes (p : PipeId) : List Act :=
  [.pipe p (.setNodelay .second), .pipe p (.terminate .first false), .pipe p (.deliver .second),
    .pipe p (.deliver .first)]

/-- Messages of another pipe and with another number are skipped. The next request goes to pipe
`1`, which is closed, so that pipe `0` can answer it. -/
theorem replies_match_two_requests :
    ∃ tr n, Exec (Guarded Step Undisturbed) (initial 5 false (fun _ => 0) fun _ => 0) tr n ∧
      n.answers = [⟨some 6, some 0, [part, single 8]⟩, ⟨some 7, some 1, [single 3]⟩] ∧
      n.Matching := by
  refine exists_exec_with guarded_of_attempt
    (fun n => n.answers = [⟨some 6, some 0, [part, single 8]⟩, ⟨some 7, some 1, [single 3]⟩])
    ([.setOption .correlate 1, .attach 0, .attach 1, .send (single 1) false] ++
      arrives 1 [single 9] ++
      arrives 0 [Req.idFrame 5, Req.bottom, part, single 7,
        Req.idFrame 6, Req.bottom, part, single 8] ++
      [.recv, .hasIn, .recv, .send (single 2) false] ++ closes 1 ++
      arrives 0 [Req.idFrame 7, Req.bottom, single 3] ++ [.recv]) (by decide +kernel) ?_
  intro _ _ hexec hanswers
  exact ⟨hanswers, replies_match hexec⟩

/-- Pipe `0` is closed after the first frame of the reply was received, and the user gets a message
of pipe `1` as the rest of it. If pipe `0` is only about to be closed, the assertion of the fair
queue fails. -/
theorem reply_mixed :
    (∃ tr n, Exec Step (initial 5 false (fun _ => 0) fun _ => 0) tr n ∧
      n.answers = [⟨some 6, some 0, [part, single 8]⟩] ∧ ¬ n.Matching) ∧
    ∃ tr n, Exec Step (initial 5 false (fun _ => 0) fun _ => 0) tr n ∧
      failure? (n.next .recv) = some .assertion := by
  refine ⟨?_, exists_exec_of_replay step_of_attempt
    ([.setOption .correlate 1, .attach 0, .attach 1, .send (single 1) false] ++
      arrives 0 [Req.idFrame 6, Req.bottom, part, single 7] ++ arrives 1 [single 9] ++
      [.recv, .pipe 0 (.terminate .first true)]) (by decide +kernel)⟩
  refine exists_exec_with step_of_attempt
    (fun n => n.answers = [⟨some 6, some 0, [part, single 8]⟩] ∧ n.seen = {0, 1} ∧
      (n.channels 0).got.length = 3 ∧ (n.channels 1).got.length = 1)
    ([.setOption .correlate 1, .attach 0, .attach 1, .send (single 1) false] ++
      arrives 0 [Req.idFrame 6, Req.bottom, part, single 7] ++ [.recv] ++ closes 0 ++
      arrives 1 [single 8] ++ [.recv]) (by decide +kernel) ?_
  rintro _ n _ ⟨hanswers, hseen, hgot₀, hgot₁⟩
  refine ⟨hanswers, fun hmatch => ?_⟩
  obtain ⟨receipts, p, rest, hmem, hgot, hfilter, hans, -⟩ := hmatch.replies
  have ha : (⟨some 6, some 0, [part, single 8]⟩ : Answer) ∈ receipts.filterMap Receipt.answer := by
    rw [hfilter, hanswers]
    exact .head _
  obtain ⟨x, hx, hxa⟩ := mem_filterMap.mp ha
  obtain ⟨-, t, hparts, ⟨f, b, rfl, -⟩, -⟩ := hans x hx _ hxa
  -- no pipe has as many frames as the message would have
  have hlen : x.message.length ≤ (n.channels x.pipe).got.length := by
    rw [hgot x.pipe]
    obtain ⟨-, -, rfl⟩ := append_of_mem hx
    have hself : Fq.partsOf x.pipe (x.message.map (Prod.mk x.pipe)) = x.message := by
      simp [Fq.partsOf, List.filter_map]
    simp only [flatMap_append, flatMap_cons, FqNet.partsOf_append, length_append, hself]
    omega
  have hfour : x.message.length = 4 := by rw [hparts]; rfl
  have hpipe := (hmem x hx).1
  rw [hseen, mem_insert, Finset.mem_singleton] at hpipe
  rcases hpipe with hpipe | hpipe <;> rw [hpipe] at hlen <;> omega

end ReqNet
end LibZmq
