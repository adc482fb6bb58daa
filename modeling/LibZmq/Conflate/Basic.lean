import LibZmq.Msg

/-!
# `dbuffer_t` and `ypipe_conflate_t`

The queue of a conflating pipe keeps only the last message (`dbuffer.hpp`,
`ypipe_conflate.hpp`). The critical sections are functions of their own, so
that the sequential operations below and the interleavings of
`LibZmq.Conflate.Concurrent` are built from the same pieces.
-/

namespace LibZmq

/-- `dbuffer_t<msg_t>`, without its mutex. -/
structure DBuffer where
  back : Msg
  front : Msg
  hasMsg : Bool
deriving DecidableEq, Repr

namespace DBuffer

def new : DBuffer := { back := .init, front := .init, hasMsg := false }

/-- `*_back = value_`. -/
def copyBack (b : DBuffer) (value : Msg) : DBuffer := { b with back := value }

/-- `_front->move (*_back); _has_msg = true`. -/
def moveFront (_b : DBuffer) : DBuffer := { back := .init, front := _b.back, hasMsg := true }

/-- The critical section of `read`. -/
def take (b : DBuffer) : Option Msg × DBuffer :=
  if b.hasMsg then (some b.front, { b with front := .init, hasMsg := false }) else (none, b)

/-- `write` when `try_lock` succeeds. -/
def write (b : DBuffer) (value : Msg) : DBuffer := (b.copyBack value).moveFront

def checkRead (b : DBuffer) : Bool := b.hasMsg

def probe (b : DBuffer) (fn : Msg → Bool) : Bool := fn b.front

/-- The message a reader would get. -/
def content (b : DBuffer) : Option Msg := if b.hasMsg then some b.front else none

@[simp] theorem content_new : new.content = none := rfl

@[simp] theorem content_copyBack (b : DBuffer) (v : Msg) : (b.copyBack v).content = b.content := rfl

@[simp] theorem content_moveFront (b : DBuffer) : b.moveFront.content = some b.back := rfl

theorem take_fst (b : DBuffer) : b.take.1 = b.content := by
  cases h : b.hasMsg <;> simp [take, content, h]

@[simp] theorem content_take (b : DBuffer) : b.take.2.content = none := by
  cases h : b.hasMsg <;> simp [take, content, h]

theorem checkRead_eq (b : DBuffer) : b.checkRead = b.content.isSome := by
  cases h : b.hasMsg <;> simp [checkRead, content, h]

end DBuffer

/-- `ypipe_conflate_t<msg_t>`. The flag starts out false and nothing sets it. -/
structure YPipeConflate where
  dbuffer : DBuffer
  readerAwake : Bool
deriving DecidableEq, Repr

namespace YPipeConflate

def new : YPipeConflate := { dbuffer := .new, readerAwake := false }

/-- `write`; whether the item is incomplete does not matter. -/
def write (p : YPipeConflate) (value : Msg) (_incomplete : Bool) : YPipeConflate :=
  { p with dbuffer := p.dbuffer.write value }

/-- `unwrite`: there are no incomplete items. -/
def unwrite (p : YPipeConflate) : Option Msg × YPipeConflate := (none, p)

def flush (p : YPipeConflate) : Bool × YPipeConflate := (p.readerAwake, p)

def checkRead (p : YPipeConflate) : Bool × YPipeConflate :=
  if p.dbuffer.checkRead then (true, p) else (false, { p with readerAwake := false })

def read (p : YPipeConflate) : Option Msg × YPipeConflate :=
  match p.checkRead with
  | (false, p') => (none, p')
  | (true, p') => (p'.dbuffer.take.1, { p' with dbuffer := p'.dbuffer.take.2 })

def probe (p : YPipeConflate) (fn : Msg → Bool) : Bool := p.dbuffer.probe fn

theorem checkRead_fst (p : YPipeConflate) : p.checkRead.1 = p.dbuffer.content.isSome := by
  unfold checkRead
  rw [← DBuffer.checkRead_eq]
  split <;> simp_all

theorem checkRead_dbuffer (p : YPipeConflate) : p.checkRead.2.dbuffer = p.dbuffer := by
  unfold checkRead
  split <;> rfl

/-- A read returns the content and leaves nothing behind. -/
theorem read_content (p : YPipeConflate) :
    p.read.1 = p.dbuffer.content ∧ p.read.2.dbuffer.content = none := by
  have hfst := p.checkRead_fst
  have hbuf := p.checkRead_dbuffer
  unfold read
  generalize p.checkRead = res at hfst hbuf
  obtain ⟨ok, p'⟩ := res
  simp only at hfst hbuf
  cases ok with
  | false =>
    have hnone : p.dbuffer.content = none := by simpa using hfst.symm
    simp [hbuf, hnone]
  | true => simp [hbuf, DBuffer.take_fst]

end YPipeConflate
end LibZmq
