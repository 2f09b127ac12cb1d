import Mathlib.Data.List.AList
import CppPlayground.Lib.Program
import CppPlayground.Lib.System

/-! # `LRUCache`: the members of the class

    `containers/lru_cache.hpp`.  A `std::list` is the list of its nodes, each with an
    identity that an iterator refers to and that moving the node within the list keeps;
    a `std::unordered_map` is a finite map.  The iterator of a node that is gone, and
    `front()` and `back()` of an empty list, are undefined behaviour.

    Every call of the library that may throw asks `throws` first and has no effect when
    it does.  Only `m_lookup.erase` in `shrink_to_fit()`, which hashes a key once more, is
    assumed not to throw. -/

namespace LRUCache

open Program Transition

variable {K V : Type} [DecidableEq K]

/-- The calls that may throw: the lookup, the construction of the node, the map
    emplacement, the assignment of the value, the copy of the value out of the cache. -/
inductive LibCall where
  | find
  | emplaceFront
  | emplace
  | assign
  | copy
  deriving DecidableEq, Repr

/-- `std::list<ListEntry>::iterator`: the node it refers to. -/
abbrev ListIterator : Type := Nat

/-- A node with its `ListEntry`. -/
structure Node (K V : Type) where
  id : ListIterator
  key : K
  value : V
  deriving DecidableEq, Repr

/-- `m_elements`, `m_lookup` and `m_capacity`; `nextNode` is the identity of the next
    node to be allocated. -/
structure Cache (K V : Type) where
  mElements : List (Node K V)
  mLookup : AList fun _ : K => ListIterator
  mCapacity : Nat
  nextNode : ListIterator

/-- `LRUCache(capacity)` -/
def Cache.construct (capacity : Nat) : Cache K V := ⟨[], ∅, capacity, 0⟩

/-- `size()` -/
def Cache.size (c : Cache K V) : Nat := c.mElements.length

/-! ## The calls of the standard library -/

/-- A call that may throw. -/
def mayThrow (throws : LibCall → Bool) (call : LibCall) : Prog (Cache K V) LibCall Unit :=
  attempt (if throws call then some call else none)

/-- `m_lookup.find(key)`; `none` is `m_lookup.end()`. -/
def find (throws : LibCall → Bool) (key : K) :
    Prog (Cache K V) LibCall (Option ListIterator) := do
  mayThrow throws .find
  gets fun c => c.mLookup.lookup key

/-- `m_elements.emplace_front(key, value)` -/
def emplaceFront (throws : LibCall → Bool) (key : K) (value : V) :
    Prog (Cache K V) LibCall Unit := do
  mayThrow throws .emplaceFront
  modify fun c => { c with
    mElements := ⟨c.nextNode, key, value⟩ :: c.mElements, nextNode := c.nextNode + 1 }

/-- `m_elements.front()`; its `id` is `m_elements.begin()`. -/
def front : Prog (Cache K V) LibCall (Node K V) := access fun c => c.mElements.head?

/-- `m_elements.back()` -/
def back : Prog (Cache K V) LibCall (Node K V) := access fun c => c.mElements.getLast?

/-- `m_elements.pop_back()` -/
def popBack : Prog (Cache K V) LibCall Unit :=
  change fun c => if c.mElements = [] then none
    else some { c with mElements := c.mElements.dropLast }

/-- `m_lookup.emplace(key, pos)`, without effect if the key is there. -/
def emplace (throws : LibCall → Bool) (key : K) (pos : ListIterator) :
    Prog (Cache K V) LibCall Unit := do
  mayThrow throws .emplace
  modify fun c => if key ∈ c.mLookup then c
    else { c with mLookup := c.mLookup.insert key pos }

/-- `m_lookup.erase(key)` -/
def eraseKey (key : K) : Prog (Cache K V) LibCall Unit :=
  modify fun c => { c with mLookup := c.mLookup.erase key }

/-- The node an iterator refers to. -/
def Cache.node (c : Cache K V) (pos : ListIterator) : Option (Node K V) :=
  c.mElements.find? fun n => n.id = pos

/-- `*pos` -/
def deref (pos : ListIterator) : Prog (Cache K V) LibCall (Node K V) :=
  access fun c => c.node pos

/-- `pos->value = value` -/
def assignValue (throws : LibCall → Bool) (pos : ListIterator) (value : V) :
    Prog (Cache K V) LibCall Unit := do
  let _ ← deref pos
  mayThrow throws .assign
  modify fun c => { c with
    mElements := c.mElements.map fun n => if n.id = pos then { n with value := value } else n }

/-! ## The members of the class -/

/-- `shrink_to_fit()`.  Every round removes a node, which bounds the rounds. -/
def shrinkToFit : Prog (Cache K V) LibCall Unit := do
  let n ← gets Cache.size
  whileLoop (fun c => c.mCapacity < c.size) (do
    let last ← back
    eraseKey last.key
    popBack) (n + 1)

/-- `promote_element(pos)`: `m_elements.splice(m_elements.begin(), m_elements, pos)`. -/
def promoteElement (pos : ListIterator) : Prog (Cache K V) LibCall Unit :=
  change fun c => (c.node pos).map fun n =>
    { c with mElements := n :: c.mElements.eraseP fun m => m.id = pos }

/-- `insert(key, value)`; the result is the node that holds the returned reference. -/
def insert (throws : LibCall → Bool) (key : K) (value : V) :
    Prog (Cache K V) LibCall ListIterator := do
  let pos ← find throws key
  match pos with
  | none => do
      -- new key
      emplaceFront throws key value
      let node ← front
      emplace throws node.key node.id
      shrinkToFit
      let first ← front
      pure first.id
  | some listPos => do
      -- existing key
      assignValue throws listPos value
      promoteElement listPos
      let node ← deref listPos
      pure node.id

/-- `get(key)` -/
def get (throws : LibCall → Bool) (key : K) : Prog (Cache K V) LibCall (Option V) := do
  let pos ← find throws key
  match pos with
  | none => pure none
  | some listPos => do
      promoteElement listPos
      let node ← deref listPos
      mayThrow throws .copy
      pure (some node.value)

/-! ## Runs -/

/-- The public operations. -/
inductive Op (K V : Type) where
  | insert (key : K) (value : V)
  | get (key : K)
  deriving DecidableEq

/-- A call and the value it answers with; `insert` answers with what its reference
    denotes. -/
def exec (throws : LibCall → Bool) : Op K V → Prog (Cache K V) LibCall (Option V)
  | .insert key value => do
      let ref ← insert throws key value
      let node ← deref ref
      pure (some node.value)
  | .get key => get throws key

/-- No call throws. -/
def quiet (_ : LibCall) : Bool := false

/-- A call and the way it ended. -/
abbrev Event (K V : Type) : Type := Op K V × Outcome LibCall (Option V)

/-- The runs of a cache in which nothing throws. -/
def caches (K V : Type) [DecidableEq K] (capacity : Nat) : System (Cache K V) (Event K V) where
  init c := c = Cache.construct capacity
  step c a c' := exec quiet a.1 c = (a.2, c')

end LRUCache
