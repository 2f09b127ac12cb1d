import Mathlib.Logic.Function.Basic
import CppPlayground.Lib.Program
import CppPlayground.Lib.System

/-! # `OwningPointer`: the members of the class

    `memory/owning_pointer.hpp`, member by member, on any set of handles.  A handle is its
    two fields, statement by statement: the deleter and the pointer are moved, called and
    reset in the order of the source.  Using a handle that does not exist, or constructing
    over one, is undefined behaviour.

    Every call of a deleter is recorded with what the handles held at that moment. -/

namespace OwningPointer

open Program Transition

variable {H A D : Type}

/-- `m_deleter` and `m_ptr`; a pointer that is not null is a `some`. -/
structure Handle (D A : Type) where
  mDeleter : D
  mPtr : Option A

/-- The type of the deleters as `OwningPointer` sees it. -/
structure DeleterType (D A : Type) where
  /-- `DeleterType{}` -/
  dflt : D
  /-- what a move leaves in its source -/
  moved : D → D
  /-- what a call with a pointer leaves in the deleter -/
  called : D → Option A → D

/-- A call of a deleter by a member of `this`, and what the handles held. -/
structure Call (H A D : Type) where
  this : H
  deleter : D
  ptr : Option A
  held : H → Option A

/-- The handles that exist, and the calls of deleters so far. -/
structure State (H A D : Type) where
  handle : H → Option (Handle D A)
  calls : List (Call H A D)

/-- What the handles hold. -/
def State.held (s : State H A D) (h : H) : Option A := (s.handle h).bind Handle.mPtr

variable [DecidableEq H]

/-- Replace the fields of a handle. -/
def State.set (s : State H A D) (this : H) (fields : Option (Handle D A)) : State H A D :=
  { s with handle := Function.update s.handle this fields }

/-! ## Pieces shared by the members -/

/-- The fields of a handle. -/
def fields (this : H) : Prog (State H A D) Unit (Handle D A) := access fun s => s.handle this

/-- `m_ptr = ptr` -/
def setPtr (this : H) (ptr : Option A) : Prog (State H A D) Unit Unit := do
  let h ← fields this
  modify fun s => s.set this (some { h with mPtr := ptr })

/-- `m_deleter = deleter` -/
def setDeleter (this : H) (deleter : D) : Prog (State H A D) Unit Unit := do
  let h ← fields this
  modify fun s => s.set this (some { h with mDeleter := deleter })

/-- A constructor: the object must not exist yet. -/
def newHandle (this : H) (deleter : D) (ptr : Option A) : Prog (State H A D) Unit Unit :=
  change fun s => if (s.handle this).isNone then some (s.set this (some ⟨deleter, ptr⟩))
    else none

/-- `std::move(other.m_deleter)`, as the value of a new or assigned deleter. -/
def moveDeleter (E : DeleterType D A) (other : H) : Prog (State H A D) Unit D := do
  let h ← fields other
  setDeleter other (E.moved h.mDeleter)
  pure h.mDeleter

/-- `m_deleter(m_ptr)`, which throws if `throws` says so. -/
def callDeleter (E : DeleterType D A) (throws : Bool) (this : H) :
    Prog (State H A D) Unit Unit := do
  let h ← fields this
  modify fun s => { s with calls := s.calls ++ [⟨this, h.mDeleter, h.mPtr, s.held⟩] }
  setDeleter this (E.called h.mDeleter h.mPtr)
  attempt (if throws then some () else none)

/-- `if (m_ptr != nullptr) { m_deleter(m_ptr); m_ptr = nullptr; }` -/
def deleteObject (E : DeleterType D A) (throws : Bool) (this : H) :
    Prog (State H A D) Unit Unit := do
  let h ← fields this
  if h.mPtr ≠ none then do
    callDeleter E throws this
    setPtr this none
  else pure ()

/-! ## The members of the class -/

/-- `OwningPointer()` and `OwningPointer(nullptr)` -/
def construct (E : DeleterType D A) (this : H) : Prog (State H A D) Unit Unit :=
  newHandle this E.dflt none

/-- `OwningPointer(ptr)` -/
def constructFrom (E : DeleterType D A) (this : H) (ptr : Option A) :
    Prog (State H A D) Unit Unit := newHandle this E.dflt ptr

/-- `OwningPointer(ptr, deleter)`; the deleter is copied or moved in. -/
def constructWith (this : H) (ptr : Option A) (deleter : D) : Prog (State H A D) Unit Unit :=
  newHandle this deleter ptr

/-- `OwningPointer(std::move(other))` -/
def moveConstruct (E : DeleterType D A) (this other : H) : Prog (State H A D) Unit Unit := do
  let deleter ← moveDeleter E other
  let h ← fields other
  newHandle this deleter h.mPtr
  setPtr other none

/-- The body of `~OwningPointer()`. -/
def destructBody (E : DeleterType D A) (throws : Bool) (this : H) :
    Prog (State H A D) Unit Unit := do
  let h ← fields this
  if h.mPtr ≠ none then callDeleter E throws this else pure ()

/-- `~OwningPointer()`; the fields are gone afterwards, also if the deleter throws. -/
def destruct (E : DeleterType D A) (throws : Bool) (this : H) :
    Prog (State H A D) Unit Unit := fun s =>
  match destructBody E throws this s with
  | (.undefined, s') => (.undefined, s')
  | (out, s') => (out, s'.set this none)

/-- `*this = std::move(other)` -/
def moveAssign (E : DeleterType D A) (throws : Bool) (this other : H) :
    Prog (State H A D) Unit Unit := do
  if this = other then
    let _ ← fields this
    pure ()
  else do
    let deleter ← moveDeleter E other
    setDeleter this deleter
    deleteObject E throws this
    let k ← fields other
    setPtr this k.mPtr
    setPtr other none

/-- `*this = nullptr` -/
def assignNull (E : DeleterType D A) (throws : Bool) (this : H) :
    Prog (State H A D) Unit Unit := deleteObject E throws this

/-- `release()` -/
def release (this : H) : Prog (State H A D) Unit (Option A) := do
  let h ← fields this
  setPtr this none
  pure h.mPtr

/-! ## Runs -/

/-- The public operations that change handles. -/
inductive Op (H A D : Type) where
  | construct (this : H)
  | constructFrom (this : H) (ptr : Option A)
  | constructWith (this : H) (ptr : Option A) (deleter : D)
  | moveConstruct (this other : H)
  | moveAssign (this other : H)
  | assignNull (this : H)
  | release (this : H)
  | destruct (this : H)

/-- An operation and the pointer it returns; only `release` returns one. -/
def exec (E : DeleterType D A) (throws : Bool) : Op H A D → Prog (State H A D) Unit (Option A)
  | .construct this => do construct E this; pure none
  | .constructFrom this ptr => do constructFrom E this ptr; pure none
  | .constructWith this ptr deleter => do constructWith this ptr deleter; pure none
  | .moveConstruct this other => do moveConstruct E this other; pure none
  | .moveAssign this other => do moveAssign E throws this other; pure none
  | .assignNull this => do assignNull E throws this; pure none
  | .release this => release this
  | .destruct this => do destruct E throws this; pure none

/-- An operation that returned, and the pointer it returned. -/
abbrev Event (H A D : Type) : Type := Op H A D × Option A

/-- The runs in which no deleter throws. -/
def handles (E : DeleterType D A) : System (State H A D) (Event H A D) where
  init s := s = ⟨fun _ => none, []⟩
  step s a s' := exec E false a.1 s = (.ok a.2, s')

/-- The pointer an operation adopts, with its deleter. -/
def adopts (E : DeleterType D A) : Event H A D → Option (A × D)
  | (.constructFrom _ ptr, _) => ptr.map fun p => (p, E.dflt)
  | (.constructWith _ ptr deleter, _) => ptr.map fun p => (p, deleter)
  | _ => none

/-- The pointer an operation releases. -/
def releases : Event H A D → Option A
  | (.release _, ptr) => ptr
  | _ => none

/-- The pointers adopted in a run, with their deleters. -/
def adoptions (E : DeleterType D A) (tr : List (Event H A D)) : List (A × D) :=
  observed (adopts E) tr

/-- The pointers adopted in a run. -/
def adopted (E : DeleterType D A) (tr : List (Event H A D)) : List A :=
  (adoptions E tr).map Prod.fst

/-- The pointers returned by `release`. -/
def released (tr : List (Event H A D)) : List A := observed releases tr

end OwningPointer
