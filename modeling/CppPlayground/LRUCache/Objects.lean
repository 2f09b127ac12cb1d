import Mathlib.Logic.Function.Basic
import CppPlayground.LRUCache.Model

/-! # `LRUCache`: copies and moves

    The class declares no constructor but the one from a capacity, no assignment and no
    destructor, so it has those that go member by member.  The copy of a list has nodes of
    its own, while the copy of a table holds the iterators that were in the table.  A moved
    list keeps its nodes, and leaves, like a moved table, an empty container.

    The nodes of all objects are numbered by one counter. -/

namespace LRUCache

open Program Transition

variable {ι K V : Type} [DecidableEq ι] [DecidableEq K]

/-- The caches of a program, by their names. -/
structure Objects (ι K V : Type) where
  object : ι → Option (Cache K V)
  nextNode : ListIterator

def Objects.put (s : Objects ι K V) (this : ι) (c : Option (Cache K V)) : Objects ι K V :=
  { s with object := Function.update s.object this c }

/-- The members of an object. -/
def fields (this : ι) : Prog (Objects ι K V) LibCall (Cache K V) :=
  access fun s => s.object this

/-- `std::list(const std::list &)` -/
def copyNodes : ListIterator → List (Node K V) → List (Node K V)
  | _, [] => []
  | next, n :: ns => ⟨next, n.key, n.value⟩ :: copyNodes (next + 1) ns

/-- Each member copied: the iterators in the table stay what they are. -/
def Cache.copied (next : ListIterator) (c : Cache K V) : Cache K V :=
  { c with mElements := copyNodes next c.mElements }

/-- What is left of the members when they have been moved. -/
def Cache.movedFrom (c : Cache K V) : Cache K V := { c with mElements := [], mLookup := ∅ }

/-! ## The operations -/

/-- The members of `this` become copies of those of `other`. -/
def copyMembers (this other : ι) : Prog (Objects ι K V) LibCall Unit := do
  let c ← fields other
  modify fun s =>
    { s.put this (some (c.copied s.nextNode)) with nextNode := s.nextNode + c.size }

/-- The members of `this` become those of `other`. -/
def moveMembers (this other : ι) : Prog (Objects ι K V) LibCall Unit := do
  let c ← fields other
  modify fun s => (s.put other (some c.movedFrom)).put this (some c)

/-- `LRUCache(capacity)` -/
def construct (this : ι) (capacity : Nat) : Prog (Objects ι K V) LibCall Unit :=
  modify fun s => s.put this (some (Cache.construct capacity))

/-- `LRUCache(other)` -/
def copyConstruct (this other : ι) : Prog (Objects ι K V) LibCall Unit :=
  copyMembers this other

/-- `LRUCache(std::move(other))` -/
def moveConstruct (this other : ι) : Prog (Objects ι K V) LibCall Unit :=
  moveMembers this other

/-- `*this = other` -/
def copyAssign (this other : ι) : Prog (Objects ι K V) LibCall Unit :=
  if this = other then pure () else copyMembers this other

/-- `*this = std::move(other)`, of another object -/
def moveAssign (this other : ι) : Prog (Objects ι K V) LibCall Unit :=
  moveMembers this other

/-- `~LRUCache()` -/
def destruct (this : ι) : Prog (Objects ι K V) LibCall Unit :=
  modify fun s => s.put this none

/-- `insert` or `get`, which take new nodes from the common counter. -/
def call (this : ι) (op : Op K V) : Prog (Objects ι K V) LibCall (Option V) := do
  let c ← fields this
  zoom (fun s => { c with nextNode := s.nextNode })
    (fun s c' => { s.put this (some c') with nextNode := c'.nextNode }) (exec quiet op)

/-! ## Runs -/

/-- What a program does with its caches. -/
inductive Stmt (ι K V : Type) where
  | construct (this : ι) (capacity : Nat)
  | copyConstruct (this other : ι)
  | moveConstruct (this other : ι)
  | copyAssign (this other : ι)
  | moveAssign (this other : ι)
  | destruct (this : ι)
  | call (this : ι) (op : Op K V)

/-- A statement and its answer; only a call has one. -/
def perform : Stmt ι K V → Prog (Objects ι K V) LibCall (Option V)
  | .construct this capacity => do construct this capacity; pure none
  | .copyConstruct this other => do copyConstruct this other; pure none
  | .moveConstruct this other => do moveConstruct this other; pure none
  | .copyAssign this other => do copyAssign this other; pure none
  | .moveAssign this other => do moveAssign this other; pure none
  | .destruct this => do destruct this; pure none
  | .call this op => call this op

/-- Objects are constructed once and used while they exist.  A cache has room for an entry,
    and no cache is moved into itself, which would leave its containers unspecified. -/
def Allowed (s : Objects ι K V) : Stmt ι K V → Prop
  | .construct this capacity => s.object this = none ∧ 1 ≤ capacity
  | .copyConstruct this other | .moveConstruct this other =>
      s.object this = none ∧ s.object other ≠ none
  | .copyAssign this other => s.object this ≠ none ∧ s.object other ≠ none
  | .moveAssign this other => this ≠ other ∧ s.object this ≠ none ∧ s.object other ≠ none
  | .destruct this | .call this _ => s.object this ≠ none

/-- The programs up to their first undefined behaviour, if nothing throws. -/
def objects (ι K V : Type) [DecidableEq ι] [DecidableEq K] :
    System (Objects ι K V) (Stmt ι K V × Option V) where
  init s := s = ⟨fun _ => none, 0⟩
  step s a s' := Allowed s a.1 ∧ perform a.1 s = (.ok a.2, s')

end LRUCache
