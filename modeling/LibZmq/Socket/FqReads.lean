import Mathlib.Algebra.BigOperators.Group.Finset.Basic
import Mathlib.Algebra.Order.BigOperators.Group.Finset
import LibZmq.Socket.Base
import LibZmq.Socket.Fq

/-!
# The owner of a fair queue

A socket with a fair queue does more than read: it writes to the same pipes, and some sockets call
`recvpipe` in a loop until they find a part that they want.

* `Matches.called`: the queue does not notice what else the socket does to a pipe.
* `Polled`: what a call of `recvpipe` leaves behind.
* `recvUntil_reads`: the loop ends, because every part that is skipped has waited in some pipe
  (`backlog`).
-/

namespace LibZmq

open LibZmq.Core PipePair List Option Channels

namespace Channel

/-- The number of parts that wait in the pipe. -/
def waiting (c : Channel) : Nat := (c.pair.inbox .first).readable.length

/-- The peer has not closed the pipe, as far as can be seen. -/
def NoDelimiter (c : Channel) : Prop :=
  ∀ d ∈ (c.pair.inbox .first).readable, d.isDelimiter = false

instance (c : Channel) : Decidable c.NoDelimiter := inferInstanceAs (Decidable (∀ _ ∈ _, _))

/-- The pipe takes a message, and reading will not change that. -/
def Accepting (c : Channel) : Prop := c.Writable ∧ c.NoDelimiter

end Channel

namespace Fq

/-- The number of parts that wait in the pipes. -/
def backlog (f : Fq) (cs : Channels) : Nat := ∑ p ∈ f.pipes.items.items.toFinset, (cs p).waiting

/-- Calls `recvpipe` until it returns a part with `stop`, or none; at most `n` times. -/
def recvUntil (stop : PipeId → Msg → Bool) : Nat → Fq → Channels →
    Except Failure (Option (PipeId × Msg) × Fq × Channels)
  | 0, f, cs => .ok (none, f, cs)
  | n + 1, f, cs => do
      match ← f.recvpipe cs with
      | (none, f, cs) => .ok (none, f, cs)
      | (some (p, m), f, cs) =>
          if stop p m then .ok (some (p, m), f, cs) else recvUntil stop n f cs

variable {f f' f'' : Fq} {cs cs' cs'' : Channels} {p : PipeId} {part : Option (PipeId × Msg)}
  {pipes : Finset PipeId}

/-! ## Other calls of the socket -/

section calls
variable (h : Matches l cs) (halive : ¬ (cs p).gone)
include h halive

theorem Matches.terminate (hcall : cs.terminate p delay = .ok cs') : Matches l cs' :=
  h.called (terminate_called halive hcall) trivial trivial (fun _ => rfl) nofun nofun

theorem Matches.hiccuped (hcall : cs.hiccuped immediate p = .ok cs') : Matches l cs' := by
  unfold Channels.hiccuped at hcall
  split at hcall
  · exact h.terminate halive hcall
  · cases hcall

end calls

/-! ## Events -/

theorem handle_mem (h : f.pipes.Placed) (hp : p ∈ f.pipes.items) (hf : f.handle p e = .ok f')
    (q : PipeId) : q ∈ f'.pipes.items ↔ q ∈ f.pipes.items ∧ (e = .pipeTerminated → q ≠ p) := by
  cases e with
  | readActivated =>
    obtain ⟨l, hl, ⟨⟩⟩ := bind_ok hf
    have hmem := (ActiveArray.placed_of_activate h hp (inRange_ok hl)).2.1 (q := q)
    rw [hmem, and_iff_left nofun]
  | pipeTerminated =>
    obtain ⟨l, last, hl, hforgets⟩ := pipeTerminated_eq h hp
    rw [handle, hl] at hf
    cases hf
    rw [hforgets.mem, forall_prop_of_true rfl]
  | writeActivated | hiccuped | statsPublish =>
    cases hf
    rw [and_iff_left nofun]

theorem hears (h : Matches f.pipes cs) (hmem : ∀ q, q ∈ f.pipes.items ↔ q ∈ pipes)
    (hout : cs.Outside pipes p a) (hact : cs.act p a = .ok (ev, cs')) :
    ∃ f', ev.foldlM (fun f e => f.handle p e) f = .ok f' ∧ Told f cs p a f' cs' ∧
      ∀ q, q ∈ f'.pipes.items ↔ q ∈ remaining pipes p ev := by
  have htells := act_tells hout hact
  obtain ⟨hen, hprudent, hfirst, hund⟩ := hout
  obtain ⟨f', hf', htold⟩ := told h hen hprudent
    (fun hside => ⟨(hmem p).mpr (hfirst hside).1, (hfirst hside).2.1⟩) hund hact
  refine ⟨f', hf', htold, fun q => ?_⟩
  rcases htells.few with rfl | ⟨e, rfl⟩
  · cases hf'
    rw [hmem, remaining_nil]
  · simp only [foldlM_singleton] at hf'
    rw [handle_mem h.placed ((hmem p).mpr (htells.mem nofun)) hf' q, hmem, mem_remaining]

/-! ## Calls of `recvpipe` -/

theorem read_waiting (hread : cs.read p = .ok (m, cs')) :
    (cs' p).waiting + m.toList.length ≤ (cs p).waiting := by
  obtain ⟨⟨m', s⟩, hcall, ⟨⟩⟩ := lift_bind_ok hread
  simp only [note, Function.update_self]
  cases m with
  | none => exact read_shrinks_le hcall
  | some => exact read_shrinks hcall

/-- Reading a pipe that is not closed does not change whether it can be written. -/
theorem read_accepting (hread : cs.read p = .ok (m, cs')) (h : (cs q).Accepting) :
    (cs' q).Accepting := by
  obtain ⟨⟨m', s⟩, hcall, ⟨⟩⟩ := lift_bind_ok hread
  rcases eq_or_ne q p with rfl | hne
  · obtain ⟨⟨hst, hout, hhwm⟩, hno⟩ := read_keeps hcall h.2
    rw [Channel.Accepting, Channel.Writable, Channel.NoDelimiter, pipe_note, pair_note, hst, hout,
      hhwm]
    exact ⟨h.1, hno⟩
  · rw [note, Function.update_of_ne hne]
    exact h

/-- What any number of calls leaves behind. -/
structure Searched (f : Fq) (cs : Channels) (f' : Fq) (cs' : Channels) : Prop where
  agreed : Matches f'.pipes cs'
  mem : ∀ q, q ∈ f'.pipes.items ↔ q ∈ f.pipes.items
  quiet : ∀ q, (cs q).Quiet (cs' q)
  stays : ∀ q, (cs q).Accepting → (cs' q).Accepting

theorem Searched.refl (h : Matches f.pipes cs) : Searched f cs f cs :=
  ⟨h, fun _ => .rfl, fun _ => .refl _, fun _ => id⟩

theorem Searched.trans (h : Searched f cs f' cs') (h' : Searched f' cs' f'' cs'') :
    Searched f cs f'' cs'' :=
  ⟨h'.agreed, fun q => (h'.mem q).trans (h.mem q), fun q => (h.quiet q).trans (h'.quiet q),
    fun q hq => h'.stays q (h.stays q hq)⟩

/-- What `recvpipe` leaves behind when it returns `part`. -/
structure Polled (f : Fq) (cs : Channels) (part : Option (PipeId × Msg)) (f' : Fq)
    (cs' : Channels) : Prop extends Searched f cs f' cs' where
  waiting : ∀ q, (cs' q).waiting ≤ (cs q).waiting
  got : ∀ q, (cs' q).got = (cs q).got ++ partsOf q part.toList
  source : ∀ p m, part = some (p, m) → p ∈ f.pipes.items ∧ (cs' p).waiting < (cs p).waiting ∧
    f'.more = m.hasMore
  nothing : part = none → f'.more = f.more

theorem Polled.refl (h : Matches f.pipes cs) : Polled f cs none f cs :=
  ⟨.refl h, fun _ => le_rfl, fun q => by simp [partsOf], nofun, fun _ => rfl⟩

theorem more_fetched (f : Fq) (p : PipeId) (m : Msg) : (f.fetched p m).more = m.hasMore := by
  unfold fetched
  split <;> simp_all

theorem items_fetched (f : Fq) (p : PipeId) (m : Msg) :
    (f.fetched p m).pipes.items = f.pipes.items := by
  unfold fetched
  split <;> rfl

theorem recvLoop_polled (h : Matches f.pipes cs) (hn : n ≤ f.pipes.active)
    (hrecv : recvLoop n f cs = .ok (part, f', cs')) : Polled f cs part f' cs' := by
  -- every pipe without a message leaves the active ones
  induction n generalizing f cs with
  | zero =>
    cases hrecv
    exact .refl h
  | succ n ih =>
    obtain ⟨p, hp⟩ := h.placed.exists_current (by omega)
    obtain ⟨m, cs₁, hread, hasks⟩ := read_asks (h.alive hp.1.1) (h.healthy p)
    have hself := read_waiting hread
    have hwait : ∀ q, (cs₁ q).waiting ≤ (cs q).waiting := by
      intro q
      rcases eq_or_ne q p with rfl | hne
      · exact Nat.le_of_add_right_le hself
      · rw [hasks.others q hne]
    rw [recvLoop, currentPipe_eq hp] at hrecv
    simp only [ok_bind, hread] at hrecv
    cases m with
    | some =>
      cases hrecv
      have hrec := received_fetched h hp hasks
      refine ⟨⟨hrec.agreed, fun q => by rw [items_fetched], hasks.all_quiet,
        fun _ => read_accepting hread⟩, hwait, hrec.got, ?_, fun hnone => by cases hnone⟩
      rintro _ _ heq
      cases heq
      exact ⟨hp.1.1, hself, more_fetched ..⟩
    | none =>
      simp only at hrecv
      split at hrecv
      · cases hrecv
      obtain ⟨l, hl, hleaves⟩ := deactivate_eq h.placed hp
      have hfewer := hleaves.fewer
      rw [hl] at hrecv
      have hpoll := ih (h.notFound hp.1 hasks hleaves) (by simp only; omega) hrecv
      refine ⟨⟨hpoll.agreed, fun q => (hpoll.mem q).trans hleaves.mem,
        fun q => (hasks.all_quiet q).trans (hpoll.quiet q),
        fun q hq => hpoll.stays q (read_accepting hread hq)⟩,
        fun q => (hpoll.waiting q).trans (hwait q), fun q => ?_, fun p' m heq => ?_, hpoll.nothing⟩
      · rw [hpoll.got q]
        rcases eq_or_ne q p with rfl | hne
        · rw [hasks.got]
          simp
        · rw [hasks.others q hne]
      · obtain ⟨hmem, hlt, hmore⟩ := hpoll.source p' m heq
        exact ⟨hleaves.mem.mp hmem, hlt.trans_le (hwait p'), hmore⟩

theorem recvpipe_polled (h : Matches f.pipes cs) (hrecv : f.recvpipe cs = .ok (part, f', cs')) :
    Polled f cs part f' cs' :=
  recvLoop_polled h le_rfl hrecv

/-- Every part that is returned has waited in a pipe. -/
theorem Polled.backlog (h : Polled f cs part f' cs') :
    f'.backlog cs' + part.toList.length ≤ f.backlog cs := by
  have hitems : f'.pipes.items.items.toFinset = f.pipes.items.items.toFinset := by
    ext q
    rw [List.mem_toFinset, List.mem_toFinset]
    exact h.mem q
  rw [Fq.backlog, hitems]
  cases part with
  | none =>
    rw [toList_none, length_nil, Nat.add_zero]
    exact Finset.sum_le_sum fun q _ => h.waiting q
  | some x =>
    obtain ⟨hmem, hlt, -⟩ := h.source x.1 x.2 rfl
    exact Finset.sum_lt_sum (fun q _ => h.waiting q) ⟨x.1, mem_toFinset.mpr hmem, hlt⟩

theorem recvUntil_searched {stop : PipeId → Msg → Bool} (h : Matches f.pipes cs)
    (hrecv : recvUntil stop n f cs = .ok (part, f', cs')) : Searched f cs f' cs' := by
  induction n generalizing f cs with
  | zero =>
    cases hrecv
    exact .refl h
  | succ n ih =>
    obtain ⟨⟨found, f₁, cs₁⟩, hcall, hrecv⟩ := bind_ok hrecv
    have hpoll := recvpipe_polled h hcall
    rcases found with _ | ⟨p, m⟩
    · cases hrecv
      exact hpoll.toSearched
    simp only at hrecv
    split at hrecv
    · cases hrecv
      exact hpoll.toSearched
    · exact hpoll.toSearched.trans (ih hpoll.agreed hrecv)

end Fq

/-! ## Reading whole messages -/

namespace FqNet

variable {f f' : Fq} {cs cs' : Channels} {got parts : List (PipeId × Msg)} {p : PipeId}
  {a : Action}

/-- The socket only sends. -/
theorem Sound.kept (h : Sound ⟨f, cs, got⟩) (hkept : ∀ q, (cs q).Kept (cs' q)) :
    Sound ⟨f, cs', got⟩ := by
  refine ⟨h.agreed.kept hkept, fun q => (h.got q).trans (hkept q).got.symm, ?_⟩
  obtain ⟨c, rest, hg, hcase⟩ := h.grouped
  refine ⟨c, rest, hg, hcase.imp_right ?_⟩
  rintro ⟨hmore, hne, hcur, hr⟩
  refine ⟨hmore, hne, hcur, ?_⟩
  show (cs' c).pipe.state.reading = true
  rw [(hkept c).state]
  exact hr

/-- The parts `parts` have been received. -/
structure Reads (f : Fq) (cs : Channels) (got parts : List (PipeId × Msg)) (f' : Fq)
    (cs' : Channels) : Prop where
  sound : Sound ⟨f', cs', got ++ parts⟩
  mem : ∀ q, q ∈ f'.pipes.items ↔ q ∈ f.pipes.items
  quiet : ∀ q, (cs q).Quiet (cs' q)
  source : ∀ x ∈ parts, x.1 ∈ f.pipes.items
  backlog : f'.backlog cs' + parts.length ≤ f.backlog cs

theorem Reads.trans
    (h : Reads f cs got parts f' cs') (h' : Reads f' cs' (got ++ parts) parts' f'' cs'') :
    Reads f cs got (parts ++ parts') f'' cs'' where
  sound := by
    rw [← append_assoc]
    exact h'.sound
  mem q := (h'.mem q).trans (h.mem q)
  quiet q := (h.quiet q).trans (h'.quiet q)
  source x hx := by
    rcases mem_append.mp hx with hx | hx
    · exact h.source x hx
    · exact (h.mem x.1).mp (h'.source x hx)
  backlog := by
    have h₁ := h.backlog
    have h₂ := h'.backlog
    rw [length_append]
    omega

theorem Sound.recvpipe_reads (h : Sound ⟨f, cs, got⟩) :
    ∃ part f' cs', f.recvpipe cs = .ok (part, f', cs') ∧ Reads f cs got part.toList f' cs' ∧
      (part = none → f'.more = false) := by
  obtain ⟨n', hnext, hsound⟩ := h.recvpipe
  obtain ⟨⟨part, f', cs'⟩, hrecv, ⟨⟩⟩ := bind_ok hnext
  have hpoll := Fq.recvpipe_polled h.agreed hrecv
  refine ⟨part, f', cs', hrecv, ⟨hsound, hpoll.mem, hpoll.quiet, fun x hx => ?_, hpoll.backlog⟩, ?_⟩
  · rw [mem_toList] at hx
    exact (hpoll.source x.1 x.2 hx).1
  rintro rfl
  rw [hpoll.nothing rfl]
  obtain ⟨c, rest, hg, ⟨hno, -⟩ | ⟨-, hne, hcur, hr⟩⟩ := h.grouped
  · exact hno
  -- the rest of a message is there
  obtain ⟨m, f₁, cs₁, hsome, -⟩ := Fq.recvLoop_of_more h.agreed hcur hr (h.midway hg hne)
  have hrecv' : f.recvpipe cs = .ok (some (c, m), f₁, cs₁) := hsome
  rw [hrecv'] at hrecv
  cases hrecv

/-- The loop ends with a part that the caller wants, or when there is no more. -/
theorem Sound.recvUntil_reads (stop : PipeId → Msg → Bool) (h : Sound ⟨f, cs, got⟩)
    (hn : f.backlog cs < n) : ∃ skipped part f' cs', f.recvUntil stop n cs = .ok (part, f', cs') ∧
      Reads f cs got (skipped ++ part.toList) f' cs' ∧ (∀ x ∈ skipped, stop x.1 x.2 = false) ∧
      (∀ x, part = some x → stop x.1 x.2 = true) ∧ (part = none → f'.more = false) := by
  induction n generalizing f cs got with
  | zero => exact absurd hn (Nat.not_lt_zero _)
  | succ n ih =>
    obtain ⟨part, f₁, cs₁, hrecv, hreads, hnone⟩ := h.recvpipe_reads
    rw [Fq.recvUntil, hrecv]
    simp only [ok_bind]
    rcases part with _ | ⟨p, m⟩
    · exact ⟨[], none, f₁, cs₁, rfl, hreads, nofun, nofun, hnone⟩
    simp only
    split
    · rename_i hstop
      refine ⟨[], some (p, m), f₁, cs₁, rfl, hreads, nofun, ?_, nofun⟩
      rintro x hx
      cases hx
      exact hstop
    rename_i hgo
    have hfewer := hreads.backlog
    simp only [toList_some, length_singleton] at hfewer
    obtain ⟨skipped, part, f', cs', heq, hreads', hskip, hstop, hnone'⟩ :=
      ih hreads.sound (by omega)
    refine ⟨(p, m) :: skipped, part, f', cs', heq, hreads.trans hreads', fun x hx => ?_, hstop,
      hnone'⟩
    rcases mem_cons.mp hx with rfl | hx
    · exact Bool.eq_false_iff.mpr hgo
    · exact hskip x hx

/-! ## Messages that have been read -/

variable {msgs : List (PipeId × List Msg)} {k : PipeId} {rest : List Msg} {n : Nat}

/-- The messages `msgs` have been read, and then the first parts `rest` of another one from pipe
`k`. All of them have come from pipes in `seen`. -/
def Reading (seen : Finset PipeId) (f : Fq) (cs : Channels) (msgs : List (PipeId × List Msg))
    (k : PipeId) (rest : List Msg) : Prop :=
  ∃ got, Sound ⟨f, cs, got⟩ ∧ Batches Msg.hasMore got msgs k rest ∧ ∀ x ∈ got, x.1 ∈ seen

/-- Whole messages have been read, `msgs` and then perhaps others. -/
def Between (seen : Finset PipeId) (f : Fq) (cs : Channels) (msgs : List (PipeId × List Msg)) :
    Prop :=
  ∃ s k, Reading seen f cs (msgs ++ s) k []

theorem Between.of_append (h : Between seen f cs (msgs ++ s)) : Between seen f cs msgs := by
  obtain ⟨s', k, hread⟩ := h
  exact ⟨s ++ s', k, by rwa [← append_assoc]⟩

/-- The next part is `m`, and has come from pipe `k`. -/
structure Fetched (seen : Finset PipeId) (f : Fq) (cs : Channels) (msgs : List (PipeId × List Msg))
    (k : PipeId) (rest : List Msg) (m : Msg) : Prop where
  more : m.hasMore = true → Reading seen f cs msgs k (rest ++ [m])
  last : m.hasMore = false → Reading seen f cs (msgs ++ [(k, rest ++ [m])]) k []

/-- The rest of the message, or what follows it. -/
theorem Fetched.reading (h : Fetched seen f cs msgs k rest m) : ∃ s rest',
    Reading seen f cs (msgs ++ s) k rest' ∧ (m.hasMore = true ↔ rest' ≠ []) := by
  cases hmore : m.hasMore with
  | true => exact ⟨[], _, by rw [append_nil]; exact h.more hmore, by simp⟩
  | false => exact ⟨_, [], h.last hmore, by simp⟩

theorem Sound.more_iff (h : Sound ⟨f, cs, got⟩) (hb : Batches Msg.hasMore got msgs k rest) :
    f.more = true ↔ rest ≠ [] := by
  obtain ⟨c, rest', hg, ⟨hmore, rfl⟩ | ⟨hmore, hne, -⟩⟩ := h.grouped
  · have hnil := hg.eq_nil hb.grouped
    simp [show f.more = false from hmore, hnil]
  · refine iff_of_true hmore fun hnil => hne ?_
    rw [hnil] at hb
    exact hb.grouped.eq_nil hg

theorem Sound.rest_eq_nil (h : Sound ⟨f, cs, got⟩) (hb : Batches Msg.hasMore got msgs k rest)
    (hmore : f.more = false) : rest = [] := by
  by_contra hne
  have hyes := (h.more_iff hb).mpr hne
  rw [hmore] at hyes
  cases hyes

theorem Sound.isChain (h : Sound ⟨f, cs, got⟩) :
    got.IsChain fun x y => x.2.hasMore = true → y.1 = x.1 := by
  obtain ⟨c, rest', hg, -⟩ := h.grouped
  exact hg.isChain

section
variable (h : Reading seen f cs msgs k rest)
include h

theorem Reading.agreed : Fq.Matches f.pipes cs := by
  obtain ⟨got, hsound, -⟩ := h
  exact hsound.agreed

theorem Reading.mono (hsub : seen ⊆ seen') : Reading seen' f cs msgs k rest := by
  obtain ⟨got, hsound, hb, hseen⟩ := h
  exact ⟨got, hsound, hb, fun x hx => hsub (hseen x hx)⟩

/-- What was read from a pipe are its messages. -/
theorem Reading.got_eq (q : PipeId) : (cs q).got = Fq.partsOf q
      (msgs.flatMap (fun msg => msg.2.map (Prod.mk msg.1)) ++ rest.map (Prod.mk k)) := by
  obtain ⟨got, hsound, hb, -⟩ := h
  rw [← hb.parts]
  exact (hsound.got q).symm

/-- A message comes from a pipe that the queue has had. -/
theorem Reading.mem_seen (hmsg : msg ∈ msgs) : msg.1 ∈ seen ∧ Framed Msg.hasMore msg.2 := by
  obtain ⟨got, -, hb, hseen⟩ := h
  have hframed := hb.framed msg hmsg
  refine ⟨?_, hframed⟩
  obtain ⟨parts, m, hparts, -⟩ := hframed
  refine hseen (msg.1, m) ?_
  rw [hb.parts]
  refine mem_append_left _ (mem_flatMap.mpr ⟨msg, hmsg, ?_⟩)
  rw [hparts]
  simp

end

section steps
variable (h : Reading seen f cs msgs k rest)
include h

theorem Reading.attach (hp : p ∉ f.pipes.items) (halive : ¬ (cs p).gone)
    (hf : f.attach p = .ok f') : Reading seen f' cs msgs k rest := by
  obtain ⟨got, hsound, hb, hseen⟩ := h
  obtain ⟨n', hn', hsound'⟩ := hsound.attach ⟨hp, halive⟩
  simp only [next, hf] at hn'
  cases hn'
  exact ⟨got, hsound', hb, hseen⟩

theorem Reading.told (hreads : a.side = .first → a.reads = false)
    (hund : Undisturbed ⟨f, cs, []⟩ (.pipe p a)) (htold : Fq.Told f cs p a f' cs') :
    Reading seen f' cs' msgs k rest := by
  obtain ⟨got, hsound, hb, hseen⟩ := h
  exact ⟨got, hsound.told hreads hund htold, hb, hseen⟩

theorem Reading.hasIn (hin : f.hasIn cs = .ok (b, f', cs')) : Reading seen f' cs' msgs k rest := by
  obtain ⟨got, hsound, hb, hseen⟩ := h
  obtain ⟨n', hn', hsound'⟩ := hsound.hasIn
  simp only [next, hin] at hn'
  cases hn'
  exact ⟨got, hsound', hb, hseen⟩

theorem Reading.kept (hkept : ∀ q, (cs q).Kept (cs' q)) : Reading seen f cs' msgs k rest := by
  obtain ⟨got, hsound, hb, hseen⟩ := h
  exact ⟨got, hsound.kept hkept, hb, hseen⟩

end steps

section loop
variable (h : Reading seen f cs msgs k rest) (hmem : ∀ q ∈ f.pipes.items, q ∈ seen)
  (hn : f.backlog cs < n)
include h hmem hn

/-- A loop that wants no part reads everything. -/
theorem Reading.drain : ∃ f' cs', f.recvUntil (fun _ _ => false) n cs = .ok (none, f', cs') ∧
    (∀ q, q ∈ f'.pipes.items ↔ q ∈ f.pipes.items) ∧ (∀ q, (cs q).Quiet (cs' q)) ∧
    Between seen f' cs' msgs := by
  obtain ⟨got, hsound, hb, hseen⟩ := h
  obtain ⟨skipped, part, f', cs', hrecv, hreads, -, hstop, hnone⟩ :=
    hsound.recvUntil_reads (fun _ _ => false) hn
  cases part with
  | some x => cases hstop x rfl
  | none =>
    refine ⟨f', cs', hrecv, hreads.mem, hreads.quiet, ?_⟩
    have hsound' := hreads.sound
    rw [toList_none, append_nil] at hsound'
    obtain ⟨s, k', rest', hb'⟩ := hb.append skipped hsound'.isChain
    rw [hsound'.rest_eq_nil hb' (hnone rfl)] at hb'
    refine ⟨s, k', got ++ skipped, hsound', hb', fun x hx => ?_⟩
    rcases mem_append.mp hx with hx | hx
    · exact hseen x hx
    · exact hmem x.1 (hreads.source x (mem_append_left _ hx))

/-- A loop that wants parts from certain pipes skips whole messages of the others. -/
theorem Reading.recvUntil (stop : PipeId → Bool) (hk : rest ≠ [] → stop k = true) :
    ∃ part f' cs', f.recvUntil (fun p _ => stop p) n cs = .ok (part, f', cs') ∧
      (∀ q, q ∈ f'.pipes.items ↔ q ∈ f.pipes.items) ∧ (∀ q, (cs q).Quiet (cs' q)) ∧
      (part = none ∧ rest = [] ∧ f'.backlog cs' ≤ f.backlog cs ∧
          Between seen f' cs' msgs ∨
        ∃ q m s, part = some (q, m) ∧ stop q = true ∧ f'.backlog cs' < f.backlog cs ∧
          (rest ≠ [] → s = [] ∧ q = k) ∧ Fetched seen f' cs' (msgs ++ s) q rest m) := by
  obtain ⟨got, hsound, hb, hseen⟩ := h
  obtain ⟨skipped, part, f', cs', hrecv, hreads, hskip, hstop, hnone⟩ :=
    hsound.recvUntil_reads (fun p _ => stop p) hn
  refine ⟨part, f', cs', hrecv, hreads.mem, hreads.quiet, ?_⟩
  have hsound' := hreads.sound
  have hchain := hsound'.isChain
  have hfewer := hreads.backlog
  have hseen' : ∀ x ∈ got ++ (skipped ++ part.toList), x.1 ∈ seen := by
    intro x hx
    rcases mem_append.mp hx with hx | hx
    · exact hseen x hx
    · exact hmem x.1 (hreads.source x hx)
  -- in the middle of a message that is wanted nothing is skipped
  have hmidway : rest ≠ [] → skipped = [] := by
    intro hne
    cases skipped with
    | nil => rfl
    | cons x =>
      have hx := hb.source hne hchain
      have := hskip x (.head _)
      simp only [hx, hk hne] at this
      cases this
  rw [← append_assoc] at hsound' hchain hseen'
  obtain ⟨s, k', rest', hb'⟩ := hb.append skipped (isChain_append.mp hchain).1
  cases part with
  | none =>
    rw [toList_none, append_nil] at hsound' hseen' hfewer
    rw [hsound'.rest_eq_nil hb' (hnone rfl)] at hb'
    refine .inl ⟨rfl, ?_, by omega, s, k', _, hsound', hb', hseen'⟩
    by_contra hne
    rw [hmidway hne, append_nil] at hb'
    exact hne (hb'.grouped.eq_nil hb.grouped)
  | some x =>
    obtain ⟨q, m⟩ := x
    rw [toList_some] at hsound' hchain hseen' hfewer
    have hq : stop q = true := hstop (q, m) rfl
    -- what comes before is complete, or it is the message that is wanted
    obtain ⟨s, hb', hs⟩ : ∃ s, (∃ c, Batches Msg.hasMore (got ++ skipped) (msgs ++ s) c rest ∧
        (rest ≠ [] → c = q)) ∧ (rest ≠ [] → s = [] ∧ q = k) := by
      by_cases hne : rest = []
      · refine ⟨s, ⟨k', ?_, absurd hne⟩, absurd hne⟩
        have hnil : rest' = [] := by
          by_contra hne'
          have hsame := hb'.source hne' hchain
          obtain ⟨y, hlast, -⟩ := hb'.grouped.getLast? hne'
          rcases eq_nil_or_concat skipped with rfl | ⟨init, z, rfl⟩
          · rw [append_nil] at hb'
            rw [hne] at hb
            exact hne' (hb.grouped.eq_nil hb'.grouped)
          rw [concat_eq_append, ← append_assoc, getLast?_concat] at hlast
          cases hlast
          have := hskip (k', y) (by simp)
          simp only [← hsame, hq] at this
          cases this
        rw [hnil] at hb'
        rw [hne]
        exact hb'
      · rw [hmidway hne, append_nil] at hchain ⊢
        have hsame := hb.source hne hchain
        exact ⟨[], ⟨k, by rwa [append_nil], fun _ => hsame.symm⟩, fun _ => ⟨rfl, hsame⟩⟩
    obtain ⟨c, hb', hc⟩ := hb'
    refine .inr ⟨q, m, s, rfl, hq, ?_, hs, fun hm => ?_, fun hm => ?_⟩
    · rw [length_append, length_singleton] at hfewer
      omega
    · exact ⟨_, hsound', hb'.concat_more (fun hne => (hc hne).symm) hm, hseen'⟩
    · exact ⟨_, hsound', hb'.concat_last (fun hne => (hc hne).symm) hm, hseen'⟩

end loop
end FqNet
end LibZmq
