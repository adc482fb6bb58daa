import LibZmq.Socket.FqReads
import LibZmq.Socket.Xpub
import LibZmq.Trie.Trie

/-!
# Subscribing

`xsub_t` (`xsub.cpp`) receives from its publishers with fair queueing, and sends subscriptions,
cancellations and ordinary messages to all of them. It counts its subscriptions in a trie: every
subscription is forwarded, a cancellation only when it takes the last one away.
-/

namespace LibZmq

open LibZmq.Core PipePair

/-- `xsub_t`, with the two options that it looks at. -/
structure Xsub where
  fq : Fq
  dist : Dist
  subscriptions : Trie
  /-- A message was prepared by `xhas_in`. -/
  hasMessage : Bool
  message : Msg
  /-- Part of a multipart message was sent. -/
  moreSend : Bool
  /-- Part of a multipart message was received. -/
  moreRecv : Bool
  /-- Subscriptions are processed in the remaining parts of the message, too. -/
  processSubscribe : Bool
  onlyFirstSubscribe : Bool
  /-- `options.filter`. -/
  filter : Bool
  /-- `options.invert_matching`. -/
  invertMatching : Bool

namespace Xsub

open Xpub (liftTrie)

/-- The constructor; a `SUB` socket filters. -/
def new (filter : Bool) : Xsub :=
  { fq := .new
    dist := .new
    subscriptions := .new
    hasMessage := false
    message := Msg.init
    moreSend := false
    moreRecv := false
    processSubscribe := false
    onlyFirstSubscribe := false
    filter := filter
    invertMatching := false }

/-! ## Pipes -/

/-- The message that `send_subscription` makes. -/
def subscription (key : Bytes) : Msg :=
  { type := if key.length + 1 ≤ Msg.maxVsmSize then .vsm else .lmsg, flags := 0, data := 1 :: key }

/-- `send_subscription`. A full pipe drops the message. -/
def sendSubscription (p : PipeId) (cs : Channels) (key : Bytes) : Except Failure Channels := do
  let (_, cs) ← cs.write p (subscription key)
  .ok cs

/-- All cached subscriptions are sent to the pipe. -/
def sendCached (x : Xsub) (cs : Channels) (p : PipeId) : Except Failure Channels := do
  let keys ← liftTrie (Trie.apply x.subscriptions)
  let cs ← keys.foldlM (sendSubscription p) cs
  cs.flush p

def xattachPipe (x : Xsub) (cs : Channels) (p : PipeId) : Except Failure (Xsub × Channels) := do
  let f ← x.fq.attach p
  let d ← x.dist.attach p
  let cs ← x.sendCached cs p
  .ok ({ x with fq := f, dist := d }, cs)

def xreadActivated (x : Xsub) (p : PipeId) : Except Failure Xsub := do
  let f ← x.fq.activated p
  .ok { x with fq := f }

def xwriteActivated (x : Xsub) (p : PipeId) : Except Failure Xsub := do
  let d ← x.dist.activated p
  .ok { x with dist := d }

def xpipeTerminated (x : Xsub) (p : PipeId) : Except Failure Xsub := do
  let f ← x.fq.pipeTerminated p
  let d ← x.dist.pipeTerminated p
  .ok { x with fq := f, dist := d }

/-- What the owner of a pipe is told; `hiccuped` is `xhiccuped`. -/
def handle (x : Xsub) (cs : Channels) (p : PipeId) :
    PipeEvent → Except Failure (Xsub × Channels)
  | .readActivated => do .ok (← x.xreadActivated p, cs)
  | .writeActivated => do .ok (← x.xwriteActivated p, cs)
  | .pipeTerminated => do .ok (← x.xpipeTerminated p, cs)
  | .hiccuped => do .ok (x, ← x.sendCached cs p)
  | .statsPublish _ _ => .ok (x, cs)

/-- `xsetsockopt` with `ZMQ_ONLY_FIRST_SUBSCRIBE`; `none` stands for `-1` with `EINVAL`. -/
def setOnlyFirstSubscribe (x : Xsub) (value : Int) : Option Xsub :=
  if value < 0 then none else some { x with onlyFirstSubscribe := value ≠ 0 }

/-! ## Sending -/

/-- The key of a request; `command` says whether the message is a command. -/
def key (m : Msg) (command : Bool) : Except Failure Bytes :=
  if command then
    match m.commandBody with
    | none => .error .outOfRange
    | some key => .ok key
  else .ok m.data.tail

/-- What a part of the user asks for. -/
def request? (m : Msg) : Except Failure (Option Request) :=
  if m.isSubscribe || m.data.head? == some 1 then do
    let key ← key m m.isSubscribe
    .ok (some ⟨true, key⟩)
  else if m.isCancel || m.data.head? == some 0 then do
    let key ← key m m.isCancel
    .ok (some ⟨false, key⟩)
  else .ok none

/-- The part is sent to all publishers. -/
def sendToAll (x : Xsub) (cs : Channels) (m : Msg) :
    Except Failure (SendResult × Xsub × Channels) := do
  let (d, cs) ← x.dist.sendToAll cs m
  .ok (.accepted, { x with dist := d }, cs)

/-- The request is applied to the trie; the second component is whether the publishers are told. -/
def applyRequest (x : Xsub) : Option Request → Except Failure (Xsub × Bool)
  | none => .ok (x, true)
  | some ⟨true, key⟩ => do
      let (t, _) ← liftTrie (Trie.add key x.subscriptions)
      .ok ({ x with subscriptions := t, processSubscribe := true }, true)
  | some ⟨false, key⟩ => do
      let (t, last) ← liftTrie (Trie.rm key x.subscriptions)
      .ok ({ x with subscriptions := t, processSubscribe := true }, last)

/-- What `xsend` does before it passes the part on: the state, and whether the part is passed on. -/
def process (x : Xsub) (m : Msg) : Except Failure (Xsub × Bool) :=
  if x.moreSend && !x.processSubscribe then .ok ({ x with moreSend := m.hasMore }, true)
  else do
    let process := if x.moreSend then x.processSubscribe else !x.onlyFirstSubscribe
    let request ← request? m
    applyRequest { x with moreSend := m.hasMore, processSubscribe := process } request

def xsend (x : Xsub) (cs : Channels) (m : Msg) : Except Failure (SendResult × Xsub × Channels) := do
  let (x, told) ← x.process m
  if told then x.sendToAll cs m else .ok (.accepted, x, cs)

/-! ## Receiving -/

/-- `match`. -/
def matches? (x : Xsub) (m : Msg) : Except Failure Bool := do
  let found ← liftTrie (Trie.check m.data x.subscriptions)
  .ok (found ^^ x.invertMatching)

/-- The user wants the message that begins with `m`. -/
def wanted (x : Xsub) (m : Msg) : Except Failure Bool :=
  if x.moreRecv || !x.filter then .ok true else x.matches? m

/-- The remaining parts of a message are dropped; they must be there. -/
def dropRest : Nat → Fq → Channels → Except Failure (Fq × Channels)
  | 0, f, cs => .ok (f, cs)
  | n + 1, f, cs => do
      match ← f.recvpipe cs with
      | (none, _, _) => .error .assertion
      | (some (_, m), f, cs) => if m.hasMore then dropRest n f cs else .ok (f, cs)

/-- The loop of `xrecv` and `xhas_in`: a part that the user wants is searched for. -/
def recvLoop : Nat → Xsub → Channels → Except Failure (Option Msg × Xsub × Channels)
  | 0, x, cs => .ok (none, x, cs)
  | n + 1, x, cs => do
      match ← x.fq.recvpipe cs with
      | (none, f, cs) => .ok (none, { x with fq := f }, cs)
      | (some (_, m), f, cs) => do
          let x := { x with fq := f }
          if ← x.wanted m then .ok (some m, x, cs)
          else if m.hasMore then do
            let (f, cs) ← dropRest (x.fq.backlog cs + 1) x.fq cs
            recvLoop n { x with fq := f } cs
          else recvLoop n x cs

/-- `xrecv`; `none` stands for `-1` with `EAGAIN`. -/
def xrecv (x : Xsub) (cs : Channels) : Except Failure (Option Msg × Xsub × Channels) :=
  if x.hasMessage then
    .ok (some x.message,
      { x with hasMessage := false, message := Msg.init, moreRecv := x.message.hasMore }, cs)
  else do
    match ← recvLoop (x.fq.backlog cs + 1) x cs with
    | (none, x, cs) => .ok (none, x, cs)
    | (some m, x, cs) => .ok (some m, { x with moreRecv := m.hasMore }, cs)

def xhasIn (x : Xsub) (cs : Channels) : Except Failure (Bool × Xsub × Channels) :=
  if x.moreRecv || x.hasMessage then .ok (true, x, cs)
  else do
    match ← recvLoop (x.fq.backlog cs + 1) x cs with
    | (none, x, cs) => .ok (false, x, cs)
    | (some m, x, cs) => .ok (true, { x with hasMessage := true, message := m }, cs)

/-! ## What the functions leave behind -/

variable {x x' : Xsub} {cs cs' cs'' : Channels} {p : PipeId} {part : Option Msg}

/-- The subscriptions to `keys` were written to pipe `p`, which was flushed `n` times. -/
structure Greets (cs cs' : Channels) (p : PipeId) (keys : List Bytes) (n : Nat) : Prop where
  others : ∀ q, q ≠ p → cs' q = cs q
  gone : ¬ (cs' p).gone
  kept : ∀ q, (cs q).Kept (cs' q)
  sent : (cs' p).sent = (cs p).sent ++ keys.map fun key => [subscription key]
  begun : (cs' p).begun = (cs p).begun
  flushes : (cs' p).flushes = (cs p).flushes + n

namespace Greets

theorem refl (halive : ¬ (cs p).gone) : Greets cs cs p [] 0 :=
  ⟨fun _ _ => rfl, halive, fun _ => .refl _, (List.append_nil _).symm, rfl, rfl⟩

theorem trans (h : Greets cs cs' p keys k)
    (h' : Greets cs' cs'' p keys' k') : Greets cs cs'' p (keys ++ keys') (k + k') where
  others q hq := (h'.others q hq).trans (h.others q hq)
  gone := h'.gone
  kept q := (h.kept q).trans (h'.kept q)
  sent := by rw [h'.sent, h.sent, List.map_append, List.append_assoc]
  begun := h'.begun.trans h.begun
  flushes := by rw [h'.flushes, h.flushes, Nat.add_assoc]

theorem idle (h : Greets cs cs' p keys k) (hidle : (cs p).Idle) : (cs' p).Idle := by
  intro hst
  rw [h.begun]
  exact hidle ((h.kept p).state ▸ hst)

end Greets

@[simp] theorem hasMore_subscription (key : Bytes) : (subscription key).hasMore = false := by
  simp [subscription, Msg.hasMore]

theorem ordinary_subscription (key : Bytes) : (subscription key).Ordinary := by
  constructor
  · unfold subscription Msg.isDelimiter
    split <;> rfl
  · simp [subscription, Msg.isCredential, MsgFlag.credential]

section greeting
variable (halive : ¬ (cs p).gone) (hidle : (cs p).Idle)
include halive hidle

theorem sendSubscription_greets {key : Bytes} (h : sendSubscription p cs key = .ok cs') :
    ∃ keys, Greets cs cs' p keys 0 := by
  obtain ⟨⟨b, cs₁⟩, hwrite, ⟨⟩⟩ := bind_ok h
  rcases Channels.write_cases halive (ordinary_subscription key) hwrite with
    ⟨-, hw⟩ | ⟨-, ho⟩
  · have hbegun := hidle hw.writable.1
    refine ⟨[key], hw.others, hw.gone, hw.all_kept, ?_, ?_, hw.flushes⟩
    · rw [hw.sent, hbegun]
      simp
    · rw [hw.begun, hbegun]
      simp
  · exact ⟨[], ho.others, ho.gone, ho.all_kept, by rw [ho.sent]; simp, ho.begun,
      ho.flushes⟩

theorem foldlM_greets {keys : List Bytes}
    (h : keys.foldlM (sendSubscription p) cs = .ok cs') : ∃ keys', Greets cs cs' p keys' 0 := by
  induction keys generalizing cs with
  | nil =>
    cases h
    exact ⟨[], .refl halive⟩
  | cons _ _ ih =>
    obtain ⟨cs₁, hsend, h⟩ := bind_ok h
    obtain ⟨keys₁, hg⟩ := sendSubscription_greets halive hidle hsend
    obtain ⟨keys₂, hg'⟩ := ih hg.gone (hg.idle hidle) h
    exact ⟨keys₁ ++ keys₂, hg.trans hg'⟩

/-- Cached subscriptions are whole messages, and the pipe is flushed. -/
theorem sendCached_greets (h : x.sendCached cs p = .ok cs') : ∃ keys, Greets cs cs' p keys 1 := by
  obtain ⟨keys, -, h⟩ := bind_ok h
  obtain ⟨cs₁, hfold, hflush⟩ := bind_ok h
  obtain ⟨keys', hg⟩ := foldlM_greets halive hidle hfold
  obtain ⟨hpipe, hc⟩ := Channels.flush_calls hg.gone hflush
  have hflushed : Greets cs₁ cs' p [] 1 :=
    ⟨hc.others, hc.gone, hc.all_kept, by rw [hc.sent]; simp, hc.begun, hc.flushes⟩
  have hall := hg.trans hflushed
  exact ⟨_, hall⟩

end greeting

/-- `xsend` remembers whether more parts follow; it leaves the pipes alone until it passes the part
on. -/
theorem process_keeps (h : x.process m = .ok (x', told)) :
    x'.fq = x.fq ∧ x'.dist = x.dist ∧ x'.moreSend = m.hasMore := by
  unfold process at h
  split at h
  · cases h
    exact ⟨rfl, rfl, rfl⟩
  obtain ⟨request, -, h⟩ := bind_ok h
  rcases request with _ | ⟨_ | _, key⟩
  · cases h
    exact ⟨rfl, rfl, rfl⟩
  · obtain ⟨r, -, ⟨⟩⟩ := bind_ok h
    exact ⟨rfl, rfl, rfl⟩
  · obtain ⟨r, -, ⟨⟩⟩ := bind_ok h
    exact ⟨rfl, rfl, rfl⟩

theorem dropRest_searched (h : Fq.Matches f.pipes cs)
    (hdrop : dropRest n f cs = .ok (f', cs')) : Fq.Searched f cs f' cs' := by
  induction n generalizing f cs with
  | zero =>
    cases hdrop
    exact .refl h
  | succ n ih =>
    obtain ⟨⟨part, f₁, cs₁⟩, hrecv, hdrop⟩ := bind_ok hdrop
    have hpoll := Fq.recvpipe_polled h hrecv
    rcases part with _ | ⟨p, m⟩
    · cases hdrop
    simp only at hdrop
    split at hdrop
    · exact hpoll.toSearched.trans (ih hpoll.agreed hdrop)
    · cases hdrop
      exact hpoll.toSearched

/-- The search for a part changes only the queue. -/
theorem recvLoop_searched (h : Fq.Matches x.fq.pipes cs)
    (hloop : recvLoop n x cs = .ok (part, x', cs')) :
    Fq.Searched x.fq cs x'.fq cs' ∧ x' = { x with fq := x'.fq } := by
  induction n generalizing x cs with
  | zero =>
    cases hloop
    exact ⟨.refl h, rfl⟩
  | succ n ih =>
    obtain ⟨⟨found, f₁, cs₁⟩, hrecv, hloop⟩ := bind_ok hloop
    have hpoll := Fq.recvpipe_polled h hrecv
    rcases found with _ | ⟨p, m⟩
    · cases hloop
      exact ⟨hpoll.toSearched, rfl⟩
    obtain ⟨wanted, -, hloop⟩ := bind_ok hloop
    split at hloop
    · cases hloop
      exact ⟨hpoll.toSearched, rfl⟩
    split at hloop
    · obtain ⟨⟨f₂, cs₂⟩, hdrop, hloop⟩ := bind_ok hloop
      have hdropped := dropRest_searched hpoll.agreed hdrop
      obtain ⟨hs, heq⟩ := ih hdropped.agreed hloop
      exact ⟨hpoll.toSearched.trans (hdropped.trans hs), heq⟩
    · obtain ⟨hs, heq⟩ := ih hpoll.agreed hloop
      exact ⟨hpoll.toSearched.trans hs, heq⟩

/-- The user has received, or has asked whether there is something to receive. -/
structure Receives (x : Xsub) (cs : Channels) (x' : Xsub) (cs' : Channels) : Prop where
  searched : Fq.Searched x.fq cs x'.fq cs'
  dist : x'.dist = x.dist
  subscriptions : x'.subscriptions = x.subscriptions
  moreSend : x'.moreSend = x.moreSend

section
variable (h : Fq.Matches x.fq.pipes cs)
include h

theorem receives_of_recvLoop
    (hloop : recvLoop n x cs = .ok (part, x', cs')) : Receives x cs x' cs' := by
  obtain ⟨hs, heq⟩ := recvLoop_searched h hloop
  exact ⟨hs, by rw [heq], by rw [heq], by rw [heq]⟩

theorem xrecv_receives (hrecv : x.xrecv cs = .ok (part, x', cs')) : Receives x cs x' cs' := by
  unfold xrecv at hrecv
  split at hrecv
  · cases hrecv
    exact ⟨.refl h, rfl, rfl, rfl⟩
  obtain ⟨⟨found, x₁, cs₁⟩, hloop, hrecv⟩ := bind_ok hrecv
  obtain ⟨hs, hdist, hsubs, hmore⟩ := receives_of_recvLoop h hloop
  cases found <;> cases hrecv <;> exact ⟨hs, hdist, hsubs, hmore⟩

theorem xhasIn_receives (hin : x.xhasIn cs = .ok (b, x', cs')) : Receives x cs x' cs' := by
  unfold xhasIn at hin
  split at hin
  · cases hin
    exact ⟨.refl h, rfl, rfl, rfl⟩
  obtain ⟨⟨found, x₁, cs₁⟩, hloop, hin⟩ := bind_ok hin
  obtain ⟨hs, hdist, hsubs, hmore⟩ := receives_of_recvLoop h hloop
  cases found <;> cases hin <;> exact ⟨hs, hdist, hsubs, hmore⟩

end

end Xsub
end LibZmq
