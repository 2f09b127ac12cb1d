import CppPlayground.Lib.Storage

/-! # `FixedCapacityVector`: the members of the class

    `containers/fixed_capacity_vector.hpp`, member by member.  A vector is its `m_size`
    and its buffer, seen as `capacity_` places for a `T`.  The members that involve a
    second vector run on the pair of `*this` and `other`; whether the two are one object
    (`this == std::addressof(other)`) is a parameter of the members that ask for it.

    `capacityValue` (`c` below) is the template argument; a `SizeType` never leaves
    `0 … c`, so it is a `Nat`. -/

namespace FixedCapacityVector

open Program Storage

variable {T : Type}

/-- What a member can throw; `element` is an exception of a constructor of `T`. -/
inductive Exn where
  | lengthError
  | outOfRange
  | element
  deriving DecidableEq, Repr

/-- `m_size` and `m_buffer`. -/
structure Vec (T : Type) where
  mSize : Nat
  mBuffer : Slots T

/-- A vector whose constructor starts: `m_size = 0UL`, the buffer is as it was. -/
def Vec.uninitialised (b : Slots T) : Vec T := ⟨0, b⟩

/-! ## Pieces shared by the members -/

def onBuffer {α : Type} (p : Prog (Slots T) Exn α) : Prog (Vec T) Exn α :=
  zoom Vec.mBuffer (fun v b => { v with mBuffer := b }) p

/-- `new (data() + i) T(value)` by a constructor of kind `k`. -/
def newElement (c : Nat) (E : Element T) (k : Ctor) (i : Nat) (value : T) :
    Prog (Vec T) Exn Unit :=
  onBuffer (constructAt c i (if E.throws k i then some .element else none) value)

def setSize (n : Nat) : Prog (Vec T) Exn Unit := modify fun v => { v with mSize := n }

/-- `++m_size` -/
def incSize : Prog (Vec T) Exn Unit := modify fun v => { v with mSize := v.mSize + 1 }

/-- `--m_size` -/
def decSize : Prog (Vec T) Exn Unit := modify fun v => { v with mSize := v.mSize - 1 }

/-- `new (data() + m_size) T(value); ++m_size;` -/
def appendElement (c : Nat) (E : Element T) (k : Ctor) (value : T) :
    Prog (Vec T) Exn Unit := do
  let n ← gets Vec.mSize
  newElement c E k n value
  incSize

/-! ## Observers -/

def Vec.empty (v : Vec T) : Bool := v.mSize == 0

def Vec.full (c : Nat) (v : Vec T) : Bool := v.mSize == c

def front : Prog (Vec T) Exn T := do
  if ← gets Vec.empty then throwing .outOfRange else onBuffer (load 0)

def back : Prog (Vec T) Exn T := do
  if ← gets Vec.empty then throwing .outOfRange
  else do
    let n ← gets Vec.mSize
    onBuffer (load (n - 1))

/-- `at(index)` -/
def atIndex (index : Nat) : Prog (Vec T) Exn T := do
  let n ← gets Vec.mSize
  if n ≤ index then throwing .outOfRange else onBuffer (load index)

/-- What `begin() … end()` passes over: the places `data() + 0`, `data() + 1`, …. -/
def Vec.iterate (v : Vec T) : List (Option T) := (List.range v.mSize).map v.mBuffer

/-- What `rbegin() … rend()` passes over: `std::reverse_iterator` dereferences the
    place before its base, which runs from `end()` down to `begin()`. -/
def Vec.iterateReverse (v : Vec T) : List (Option T) :=
  (List.range v.mSize).map fun k => v.mBuffer (v.mSize - k - 1)

/-! ## Members on one vector -/

def clear : Prog (Vec T) Exn Unit := do
  if ← gets Vec.empty then pure ()
  else do
    let n ← gets Vec.mSize
    onBuffer (destroyRange n)
    setSize 0

/-- `~FixedCapacityVector()` -/
def destruct : Prog (Vec T) Exn Unit := clear

/-- `push_back(const T &)` -/
def pushBackCopy (c : Nat) (E : Element T) (value : T) : Prog (Vec T) Exn Unit := do
  if ← gets (Vec.full c) then throwing .lengthError
  else appendElement c E .copy value

/-- `push_back(T &&)`; the result is what is left in the argument. -/
def pushBackMove (c : Nat) (E : Element T) (value : T) : Prog (Vec T) Exn T := do
  if ← gets (Vec.full c) then throwing .lengthError
  else do
    appendElement c E .move value
    pure (E.moved value)

/-- `emplace_back(args...)`, where the arguments construct `value`; the result is the
    place the returned reference refers to. -/
def emplaceBack (c : Nat) (E : Element T) (value : T) : Prog (Vec T) Exn Nat := do
  if ← gets (Vec.full c) then throwing .lengthError
  else do
    appendElement c E .args value
    let n ← gets Vec.mSize
    pure (n - 1)

def popBack : Prog (Vec T) Exn Unit := do
  if ← gets Vec.empty then throwing .outOfRange
  else do
    decSize
    let n ← gets Vec.mSize
    onBuffer (destroyAt n)

/-- `resize(new_size)`.  A round of either loop moves `m_size` by one, which bounds the
    rounds. -/
def resize (c : Nat) (E : Element T) (newSize : Nat) : Prog (Vec T) Exn Unit := do
  let n ← gets Vec.mSize
  if n = newSize then pure ()
  else do
    whileLoop (fun v => newSize < v.mSize) popBack (n + 1)
    whileLoop (fun v => v.mSize < newSize) (do let _ ← emplaceBack c E E.dflt)
      (newSize + 1)

/-- The loop of the initializer-list constructor. -/
def initLoop (c : Nat) (E : Element T) : List T → Prog (Vec T) Exn Unit
  | [] => pure ()
  | item :: rest => do
      appendElement c E .copy item
      initLoop c E rest

/-- `FixedCapacityVector(std::initializer_list<T>)` -/
def initConstruct (c : Nat) (E : Element T) (init : List T) : Prog (Vec T) Exn Unit := do
  if c < init.length then throwing .lengthError else initLoop c E init

/-! ## Members on `*this` and `other` -/

def onThis {α : Type} (p : Prog (Vec T) Exn α) : Prog (Vec T × Vec T) Exn α :=
  zoom Prod.fst (fun s v => (v, s.2)) p

def onOther {α : Type} (p : Prog (Vec T) Exn α) : Prog (Vec T × Vec T) Exn α :=
  zoom Prod.snd (fun s v => (s.1, v)) p

/-- The run-time size check. -/
def checkSize (c : Nat) : Prog (Vec T × Vec T) Exn Unit := do
  let n ← onOther (gets Vec.mSize)
  if c < n then throwing .lengthError else pure ()

/-- The check under `if constexpr (other_capacity > capacity_value)`. -/
def checkSizeIfLarger (c d : Nat) : Prog (Vec T × Vec T) Exn Unit :=
  if c < d then checkSize c else pure ()

/-- `for (i < other.m_size) { new (data() + i) T(other.data()[i]); ++m_size; }` -/
def copyLoop (c : Nat) (E : Element T) : Prog (Vec T × Vec T) Exn Unit := do
  let n ← onOther (gets Vec.mSize)
  forRange n fun i => do
    let x ← onOther (onBuffer (load i))
    onThis (newElement c E .copy i x)
    onThis incSize

/-- `new (data() + i) T(std::move(other.data()[i]))`: the source keeps a moved-from
    object, a half moved-from one if the constructor throws. -/
def moveElement (c : Nat) (E : Element T) (i : Nat) : Prog (Vec T × Vec T) Exn Unit := do
  let x ← onOther (onBuffer (load i))
  onOther (onBuffer (assignAt i (if E.throws .move i then E.halfMoved x else E.moved x)))
  onThis (newElement c E .move i x)

/-- The loop of the moving members: move, `++m_size`, destroy the source element. -/
def moveLoop (c : Nat) (E : Element T) : Prog (Vec T × Vec T) Exn Unit := do
  let n ← onOther (gets Vec.mSize)
  forRange n fun i => do
    moveElement c E i
    onThis incSize
    onOther (onBuffer (destroyAt i))

/-- `std::destroy(data(), data() + m_size); m_size = 0;` of the copy assignments. -/
def destroyElements : Prog (Vec T) Exn Unit := do
  let n ← gets Vec.mSize
  onBuffer (destroyRange n)
  setSize 0

/-- Copy constructor, same capacity. -/
def copyConstruct (c : Nat) (E : Element T) : Prog (Vec T × Vec T) Exn Unit :=
  copyLoop c E

/-- Copy constructor, `other_capacity != capacity_value`. -/
def copyConstructOther (c : Nat) (E : Element T) : Prog (Vec T × Vec T) Exn Unit := do
  checkSize c
  copyLoop c E

/-- Move constructor, same capacity. -/
def moveConstruct (c : Nat) (E : Element T) : Prog (Vec T × Vec T) Exn Unit := do
  moveLoop c E
  onOther (setSize 0)

/-- Move constructor, `other_capacity != capacity_value`. -/
def moveConstructOther (c : Nat) (E : Element T) : Prog (Vec T × Vec T) Exn Unit := do
  checkSize c
  moveLoop c E
  onOther (setSize 0)

/-- Copy assignment, same capacity; `self` is `this == std::addressof(other)`. -/
def copyAssign (c : Nat) (E : Element T) (self : Bool) : Prog (Vec T × Vec T) Exn Unit := do
  if self then pure ()
  else do
    onThis destroyElements
    copyLoop c E

/-- Copy assignment, `other_capacity != capacity_value`. -/
def copyAssignOther (c d : Nat) (E : Element T) : Prog (Vec T × Vec T) Exn Unit := do
  checkSizeIfLarger c d
  onThis destroyElements
  copyLoop c E

/-- Move assignment, same capacity; `self` is `this == std::addressof(other)`. -/
def moveAssign (c : Nat) (E : Element T) (self : Bool) : Prog (Vec T × Vec T) Exn Unit := do
  if self then pure ()
  else do
    onThis clear
    moveLoop c E
    onOther (setSize 0)

/-- Move assignment, `other_capacity != capacity_value`. -/
def moveAssignOther (c d : Nat) (E : Element T) : Prog (Vec T × Vec T) Exn Unit := do
  checkSizeIfLarger c d
  onThis clear
  moveLoop c E
  onOther (setSize 0)

end FixedCapacityVector
