import Mathlib.Logic.Function.Basic
import CppPlayground.Lib.Program
import CppPlayground.Lib.System

/-! # `CharStringBuffer`: the members of the class

    `char_string.hpp`, member by member, on any set of buffers.  `heap_buffer.data` is the
    pointer and the size that `allocate_at_least` returns, and the members that the code
    names `data.size`, `data.count` and `size` are that size.  A pointer is the number of
    its allocation.

    The union knows which of its members was written last.  Reading the other one gives
    something that the environment of the call says, and so do the characters of a new
    block. -/

namespace CharStringBuffer

open Program Transition

variable {H : Type} {n : Nat}

/-- `HeapBuffer` -/
structure HeapBuffer where
  capacity : Nat
  ptr : Option Nat
  size : Nat
  deriving DecidableEq, Repr

/-- `m_buffer`; `StackBufferSize` is `n`. -/
inductive Union (n : Nat) where
  | stackBuffer (chars : Vector UInt8 n)
  | heapBuffer (h : HeapBuffer)
  deriving DecidableEq

/-- `m_buffer` and `m_is_short_string` -/
structure Buffer (n : Nat) where
  mBuffer : Union n
  mIsShortString : Bool
  deriving DecidableEq

/-- The buffers that exist, the blocks by the number of their allocation, those that are
    freed without characters, and the pointers and counts of the calls of
    `allocate_at_least` and `deallocate` so far. -/
structure State (H : Type) (n : Nat) where
  buffer : H → Option (Buffer n)
  blocks : List (Option (List UInt8))
  allocated : List (Nat × Nat)
  deallocated : List (Nat × Nat)

/-- The characters of a block that is not freed. -/
def State.block (s : State H n) (ptr : Nat) : Option (List UInt8) := (s.blocks[ptr]?).join

/-- What `allocate_at_least(count)` can give. -/
structure Grant (count : Nat) where
  chars : List UInt8
  enough : count ≤ chars.length

/-- What a call finds: the allocator, and the members of a union that are not active. -/
structure Environment (n : Nat) where
  allocator : (count : Nat) → Option (Grant count)
  stackBuffer : Vector UInt8 n
  heapBuffer : HeapBuffer

/-! ## Memory -/

/-- `std::bad_alloc` is the only exception. -/
inductive Exn where
  | badAlloc
  deriving DecidableEq, Repr

/-- `allocator.allocate_at_least(count)`: the pointer and the size. -/
def allocateAtLeast (E : Environment n) (count : Nat) : Prog (State H n) Exn (Nat × Nat) :=
  fun s =>
    match E.allocator count with
    | none => (.threw .badAlloc, s)
    | some grant =>
        let data := (s.blocks.length, grant.chars.length)
        (.ok data, { s with
          blocks := s.blocks ++ [some grant.chars]
          allocated := s.allocated ++ [data] })

/-- `allocator.deallocate(ptr, count)`, of a pointer that is not null. -/
def deallocate (ptr count : Nat) : Prog (State H n) Exn Unit :=
  change fun s =>
    if (s.block ptr).isSome then
      some { s with
        blocks := s.blocks.set ptr none
        deallocated := s.deallocated ++ [(ptr, count)] }
    else none

/-- `if (data.ptr != nullptr) { allocator.deallocate(data.ptr, count); }` -/
def deallocateIf (ptr : Option Nat) (count : Nat) : Prog (State H n) Exn Unit :=
  match ptr with
  | none => pure ()
  | some ptr => deallocate ptr count

/-- The first `count` characters behind a pointer. -/
def readChars (ptr : Option Nat) (count : Nat) : Prog (State H n) Exn (List UInt8) :=
  if count = 0 then pure []
  else access fun s => do
    let chars ← s.block (← ptr)
    if count ≤ chars.length then some (chars.take count) else none

/-- Characters with others written over them from `start` on. -/
def overwrite (chars : List UInt8) (start : Nat) (new : List UInt8) : List UInt8 :=
  chars.take start ++ new ++ chars.drop (start + new.length)

/-- `std::copy_n` and `std::fill_n` to `ptr + start`. -/
def writeChars (ptr : Option Nat) (start : Nat) (new : List UInt8) :
    Prog (State H n) Exn Unit :=
  if new = [] then pure ()
  else change fun s => do
    let ptr ← ptr
    let chars ← s.block ptr
    if start + new.length ≤ chars.length then
      some { s with blocks := s.blocks.set ptr (some (overwrite chars start new)) }
    else none

/-! ## Fields -/

/-- The `stack_buffer` of a union. -/
def Union.stack (E : Environment n) : Union n → Vector UInt8 n
  | .stackBuffer chars => chars
  | .heapBuffer _ => E.stackBuffer

/-- The `heap_buffer` of a union. -/
def Union.heap (E : Environment n) : Union n → HeapBuffer
  | .stackBuffer _ => E.heapBuffer
  | .heapBuffer h => h

/-- `heap_buffer.data = data` -/
def Union.setData (E : Environment n) (u : Union n) (data : Nat × Nat) : Union n :=
  .heapBuffer { u.heap E with ptr := some data.1, size := data.2 }

/-- A `stack_buffer` of zeros. -/
def zeros (n : Nat) : Union n := .stackBuffer (Vector.replicate n 0)

variable [DecidableEq H]

/-- Replace a buffer. -/
def State.set (s : State H n) (this : H) (b : Option (Buffer n)) : State H n :=
  { s with buffer := Function.update s.buffer this b }

/-- The fields of a buffer. -/
def fields (this : H) : Prog (State H n) Exn (Buffer n) := access fun s => s.buffer this

/-- Write the fields of a buffer. -/
def setFields (this : H) (b : Buffer n) : Prog (State H n) Exn Unit :=
  modify fun s => s.set this (some b)

/-- A constructor has returned: the object must not have existed. -/
def newBuffer (this : H) (b : Buffer n) : Prog (State H n) Exn Unit :=
  change fun s => if (s.buffer this).isNone then some (s.set this (some b)) else none

/-- `m_is_short_string = value` -/
def setShortString (this : H) (value : Bool) : Prog (State H n) Exn Unit := do
  let b ← fields this
  setFields this { b with mIsShortString := value }

/-- `m_buffer.heap_buffer.data = data` -/
def setData (E : Environment n) (this : H) (data : Nat × Nat) : Prog (State H n) Exn Unit := do
  let b ← fields this
  setFields this { b with mBuffer := b.mBuffer.setData E data }

/-- `std::copy_n(std::cbegin(other.m_buffer.stack_buffer), StackBufferSize,
    std::begin(other.m_buffer.stack_buffer))`, from a buffer to itself. -/
def copyToItself (E : Environment n) (other : H) : Prog (State H n) Exn Unit := do
  let b ← fields other
  setFields other { b with mBuffer := .stackBuffer (b.mBuffer.stack E) }

/-! ## The members of the class -/

/-- `CharStringBuffer()` -/
def construct (this : H) : Prog (State H n) Exn Unit := newBuffer this ⟨zeros n, true⟩

/-- `CharStringBuffer(capacity)`; `ShortStringLength` is `n - 1`. -/
def constructCapacity (E : Environment n) (this : H) (capacity : UInt64) :
    Prog (State H n) Exn Unit :=
  if capacity.toNat < n - 1 then newBuffer this ⟨zeros n, true⟩
  else do
    let data ← allocateAtLeast E (capacity + 1).toNat
    writeChars (some data.1) 0 (List.replicate (capacity + 1).toNat 0)
    newBuffer this ⟨(zeros n).setData E data, false⟩

/-- `CharStringBuffer(const CharStringBuffer &other)` -/
def copyConstruct (E : Environment n) (this other : H) : Prog (State H n) Exn Unit := do
  let o ← fields other
  if o.mIsShortString then newBuffer this ⟨.stackBuffer (o.mBuffer.stack E), true⟩
  else do
    let h := o.mBuffer.heap E
    let data ← allocateAtLeast E h.size
    let numToCopy := min data.2 h.size
    let chars ← readChars h.ptr numToCopy
    writeChars (some data.1) 0 chars
    writeChars (some data.1) numToCopy (List.replicate (data.2 - numToCopy) 0)
    newBuffer this ⟨(zeros n).setData E data, false⟩

/-- `CharStringBuffer(CharStringBuffer &&other)` -/
def moveConstruct (this other : H) : Prog (State H n) Exn Unit := do
  let o ← fields other
  newBuffer this ⟨o.mBuffer, o.mIsShortString⟩

/-- `~CharStringBuffer()` -/
def destruct (E : Environment n) (this : H) : Prog (State H n) Exn Unit := do
  let b ← fields this
  if b.mIsShortString then pure ()
  else deallocateIf (b.mBuffer.heap E).ptr (b.mBuffer.heap E).capacity
  modify fun s => s.set this none

/-- `*this = other` -/
def copyAssign (E : Environment n) (this other : H) : Prog (State H n) Exn Unit := do
  let t ← fields this
  let o ← fields other
  if this = other then pure ()
  else if t.mIsShortString then
    if o.mIsShortString then copyToItself E other
    else do
      setShortString this false
      let data ← allocateAtLeast E (o.mBuffer.heap E).size
      setData E this data
  else
    let h := t.mBuffer.heap E
    if o.mIsShortString then do
      deallocateIf h.ptr h.size
      setShortString this true
      copyToItself E other
    else do
      let k := o.mBuffer.heap E
      if k.size > h.size then do
        deallocateIf h.ptr h.size
        -- the block that is allocated here is not stored
        let _ ← allocateAtLeast E k.size
        let numToCopy := min h.size k.size
        let chars ← readChars k.ptr numToCopy
        writeChars h.ptr 0 chars
        writeChars h.ptr numToCopy (List.replicate (h.size - numToCopy) 0)
      else pure ()

/-- `std::swap(m_is_short_string, other.m_is_short_string)` -/
def swapShortString (this other : H) : Prog (State H n) Exn Unit := do
  let t ← fields this
  let o ← fields other
  setShortString this o.mIsShortString
  setShortString other t.mIsShortString

/-- `std::swap(m_buffer, other.m_buffer)` -/
def swapUnion (this other : H) : Prog (State H n) Exn Unit := do
  let t ← fields this
  let o ← fields other
  setFields this { t with mBuffer := o.mBuffer }
  setFields other { o with mBuffer := t.mBuffer }

/-- `*this = std::move(other)` -/
def moveAssign (this other : H) : Prog (State H n) Exn Unit := do
  swapShortString this other
  swapUnion this other

/-! ## Runs -/

/-- The operations that make, change and destroy buffers. -/
inductive Op (H : Type) where
  | construct (this : H)
  | constructCapacity (this : H) (capacity : UInt64)
  | copyConstruct (this other : H)
  | moveConstruct (this other : H)
  | copyAssign (this other : H)
  | moveAssign (this other : H)
  | destruct (this : H)
  deriving DecidableEq, Repr

/-- An operation. -/
def exec (E : Environment n) : Op H → Prog (State H n) Exn Unit
  | .construct this => construct this
  | .constructCapacity this capacity => constructCapacity E this capacity
  | .copyConstruct this other => copyConstruct E this other
  | .moveConstruct this other => moveConstruct this other
  | .copyAssign this other => copyAssign E this other
  | .moveAssign this other => moveAssign this other
  | .destruct this => destruct E this

/-- An operation, what it found, and whether it returned or threw. -/
structure Event (H : Type) (n : Nat) where
  op : Op H
  environment : Environment n
  outcome : Outcome Exn Unit

/-- The objects that an operation uses exist, and one that it constructs does not. -/
def Op.Legal (s : State H n) : Op H → Prop
  | .construct this => s.buffer this = none
  | .constructCapacity this _ => s.buffer this = none
  | .copyConstruct this other => s.buffer this = none ∧ s.buffer other ≠ none
  | .moveConstruct this other => s.buffer this = none ∧ s.buffer other ≠ none
  | .copyAssign this other => s.buffer this ≠ none ∧ s.buffer other ≠ none
  | .moveAssign this other => s.buffer this ≠ none ∧ s.buffer other ≠ none
  | .destruct this => s.buffer this ≠ none

/-- The runs of any set of buffers. -/
def buffers (H : Type) [DecidableEq H] (n : Nat) : System (State H n) (Event H n) where
  init s := s = ⟨fun _ => none, [], [], []⟩
  step s a s' := a.op.Legal s ∧ exec a.environment a.op s = (a.outcome, s')
    ∧ a.outcome ≠ .undefined

end CharStringBuffer
