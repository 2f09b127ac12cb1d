import Mathlib.Algebra.Group.Nat.Defs
import CppPlayground.Lib.Storage
import CppPlayground.Lib.System

/-! # `FixedCapacityQueue`: the members of the class

    `containers/fixed_capacity_queue.hpp`.  The slots are storage for `m_capacity`
    elements.  A `std::size_t` is a natural number below `2 ^ 64`; every addition and
    subtraction on one goes through `sizeAdd` and `sizeSub`, which reduce the result and
    record in `wrapped` that a result had to be reduced. -/

namespace FixedCapacityQueue

open Program Storage Transition

variable {A T : Type}

/-- What a member can throw; `element` is an exception of a constructor of `T`. -/
inductive Exn where
  | badAlloc
  | invalidArgument
  | element
  deriving DecidableEq, Repr

/-- The data members, and whether a computation on them has wrapped around. -/
structure Queue (T : Type) where
  mData : Slots T
  mCapacity : Nat
  mHeadIndex : Nat
  mSize : Nat
  wrapped : Bool

/-- How a `T` is constructed from arguments of type `A`: its value, and what the call
    leaves in the arguments. -/
structure Construct (A T : Type) where
  build : A → T
  left : A → A

/-- `T(const T &)` -/
def Construct.copy : Construct T T := ⟨id, id⟩

/-- `T(T &&)` -/
def Construct.move (E : Element T) : Construct T T := ⟨id, E.moved⟩

/-! ## `std::size_t` -/

/-- `a + b` -/
def sizeAdd (a b : Nat) : Prog (Queue T) Exn Nat := do
  modify fun q => { q with wrapped := q.wrapped || 2 ^ 64 ≤ a + b }
  pure ((a + b) % 2 ^ 64)

/-- `a - b` -/
def sizeSub (a b : Nat) : Prog (Queue T) Exn Nat := do
  modify fun q => { q with wrapped := q.wrapped || a < b }
  pure ((a + 2 ^ 64 - b) % 2 ^ 64)

/-! ## The members -/

def onData {α : Type} (p : Prog (Slots T) Exn α) : Prog (Queue T) Exn α :=
  zoom Queue.mData (fun q d => { q with mData := d }) p

def Queue.empty (q : Queue T) : Bool := q.mSize == 0

def Queue.full (q : Queue T) : Bool := q.mSize == q.mCapacity

def setSize (n : Nat) : Prog (Queue T) Exn Unit := modify fun q => { q with mSize := n }

/-- `FixedCapacityQueue(capacity)`; `allocates` says whether `new Slot[capacity]`
    succeeds.  The check for `0` comes after the allocation. -/
def construct (allocates : Nat → Bool) (capacity : Nat) : Outcome Exn (Queue T) :=
  if allocates capacity then
    if capacity = 0 then .threw .invalidArgument
    else .ok ⟨fun _ => none, capacity, 0, 0, false⟩
  else .threw .badAlloc

/-- `tail_index()` -/
def tailIndex : Prog (Queue T) Exn Nat := do
  let head ← gets Queue.mHeadIndex
  let size ← gets Queue.mSize
  let capacity ← gets Queue.mCapacity
  let writeIndex ← sizeAdd head size
  if capacity ≤ writeIndex then sizeSub writeIndex capacity else pure writeIndex

/-- `advance_index(m_head_index)`, which also decrements `m_size`. -/
def advanceHeadIndex : Prog (Queue T) Exn Unit := do
  let head ← gets Queue.mHeadIndex
  let index ← sizeAdd head 1
  let capacity ← gets Queue.mCapacity
  modify fun q => { q with mHeadIndex := if index = capacity then 0 else index }
  let size ← gets Queue.mSize
  let size' ← sizeSub size 1
  setSize size'

/-- `construct_element(args...)`; `fails` says whether the constructor of `T` throws.
    The result is the returned flag and what is left in the arguments. -/
def constructElement (k : Construct A T) (fails : Bool) (args : A) :
    Prog (Queue T) Exn (Bool × A) := do
  if ← gets Queue.full then pure (false, args)
  else do
    let tail ← tailIndex
    let capacity ← gets Queue.mCapacity
    onData (constructAt capacity tail (if fails then some .element else none) (k.build args))
    let size ← gets Queue.mSize
    let size' ← sizeAdd size 1
    setSize size'
    pure (true, k.left args)

/-- `destruct_element()`, its assertion included. -/
def destructElement : Prog (Queue T) Exn Unit := do
  if ← gets Queue.empty then undefinedBehaviour
  else do
    let head ← gets Queue.mHeadIndex
    onData (destroyAt head)
    advanceHeadIndex

/-- `clear()`.  Every round removes an element, which bounds the rounds. -/
def clear : Prog (Queue T) Exn Unit := do
  let n ← gets Queue.mSize
  whileLoop (fun q => !q.empty) destructElement (n + 1)

/-- `~FixedCapacityQueue()` -/
def destruct : Prog (Queue T) Exn Unit := clear

/-- `emplace(args...)` -/
def emplace (k : Construct A T) (fails : Bool) (args : A) :
    Prog (Queue T) Exn (Bool × A) := constructElement k fails args

/-- `push(const T &)` -/
def pushCopy (fails : Bool) (value : T) : Prog (Queue T) Exn (Bool × T) :=
  constructElement .copy fails value

/-- `push(T &&)` -/
def pushMove (E : Element T) (fails : Bool) (value : T) : Prog (Queue T) Exn (Bool × T) :=
  constructElement (.move E) fails value

/-- `pop()`; a throwing move leaves the front element half moved-from. -/
def pop (E : Element T) (fails : Bool) : Prog (Queue T) Exn (Option T) := do
  if ← gets Queue.empty then pure none
  else do
    let head ← gets Queue.mHeadIndex
    let value ← onData (load head)
    if fails then do
      onData (assignAt head (E.halfMoved value))
      throwing .element
    else do
      onData (assignAt head (E.moved value))
      destructElement
      pure (some value)

/-! ## Runs -/

/-- The public operations. -/
inductive Op (A T : Type) where
  | pushCopy (value : T)
  | pushMove (value : T)
  | emplace (args : A)
  | pop
  | clear

/-- What they return, with what they leave in their arguments. -/
inductive Answer (A T : Type) where
  | pushed (done : Bool) (left : T)
  | emplaced (done : Bool) (left : A)
  | popped (value : Option T)
  | cleared
  deriving DecidableEq

/-- One call. -/
def exec (E : Element T) (k : Construct A T) (fails : Bool) :
    Op A T → Prog (Queue T) Exn (Answer A T)
  | .pushCopy value => do
      let r ← pushCopy fails value
      pure (.pushed r.1 r.2)
  | .pushMove value => do
      let r ← pushMove E fails value
      pure (.pushed r.1 r.2)
  | .emplace args => do
      let r ← emplace k fails args
      pure (.emplaced r.1 r.2)
  | .pop => do
      let r ← pop E fails
      pure (.popped r)
  | .clear => do
      clear
      pure .cleared

/-- The runs of a queue whose elements do not throw. -/
def queues (E : Element T) (k : Construct A T) (allocates : Nat → Bool) (capacity : Nat) :
    System (Queue T) (Op A T × Outcome Exn (Answer A T)) where
  init q := construct allocates capacity = .ok q
  step q a q' := exec E k false a.1 q = (a.2, q')

end FixedCapacityQueue
