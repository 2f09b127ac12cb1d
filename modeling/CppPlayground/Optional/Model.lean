import Mathlib.Logic.Function.Basic
import CppPlayground.Lib.Program
import CppPlayground.Lib.System

/-! # `Optional`: the members of the class

    `utility/optional.hpp`, member by member, on any set of objects.  The union
    `m_storage` holds a `T` or nothing, and only placement new and an explicit destructor
    call change which; `m_has_value` is set in a statement of its own.  Constructing over
    a `T`, and reading, assigning to or destroying a `T` where none is, are undefined
    behaviour.

    No member makes more than one call of a constructor or assignment of `T`, so `throws`
    says whether it throws.  The `noexcept` of a member covers this call, and stops no
    exception, except in the move assignment: its last branch calls a constructor that the
    clause does not ask about. -/

namespace Optional

open Program Transition

variable {H T : Type}

/-- The value type as `Optional` sees it. -/
structure ValueType (T : Type) where
  /-- the value a completed move leaves in its source -/
  moved : T → T
  /-- the value a throwing move leaves in its source -/
  halfMoved : T → T
  /-- the value a throwing assignment leaves in its target -/
  halfAssigned : T → T → T
  /-- `std::is_nothrow_copy_assignable_v<T>` -/
  nothrowCopyAssignable : Bool
  /-- `std::is_nothrow_move_constructible_v<T> && std::is_nothrow_move_assignable_v<T>` -/
  nothrowMovable : Bool
  /-- a constructor of `T` that takes the union `Storage`, if `T` has one: from whether it
      throws and the `T` in the union, the value it makes and the one it leaves there -/
  fromStorage : Option (Bool → T → T × T)

/-- `m_storage` and `m_has_value`. -/
structure Object (T : Type) where
  mStorage : Option T
  mHasValue : Bool
  deriving DecidableEq, Repr

/-- The objects that exist, and how often a `T` has been constructed and destroyed in
    each. -/
structure State (H T : Type) where
  object : H → Option (Object T)
  constructs : H → Nat
  destroys : H → Nat

variable [DecidableEq H]

/-- Replace an object. -/
def State.put (s : State H T) (this : H) (o : Option (Object T)) : State H T :=
  { s with object := Function.update s.object this o }

/-! ## Statements -/

/-- The fields of an object. -/
def fields (this : H) : Prog (State H T) Unit (Object T) := access fun s => s.object this

/-- `m_storage.value` -/
def valueOf (this : H) : Prog (State H T) Unit T :=
  access fun s => (s.object this).bind Object.mStorage

/-- `m_has_value = flag` -/
def setHasValue (this : H) (flag : Bool) : Prog (State H T) Unit Unit := do
  let o ← fields this
  modify fun s => s.put this (some { o with mHasValue := flag })

/-- A new value for the `T` in `m_storage`. -/
def setValue (this : H) (v : T) : Prog (State H T) Unit Unit := do
  let o ← fields this
  let _ ← valueOf this
  modify fun s => s.put this (some { o with mStorage := some v })

/-- `new (&m_storage.value) T(v)` -/
def constructValue (throws : Bool) (this : H) (v : T) : Prog (State H T) Unit Unit := do
  let o ← fields this
  if o.mStorage.isSome then undefinedBehaviour
  else do
    attempt (if throws then some () else none)
    modify fun s =>
      { s.put this (some { o with mStorage := some v }) with
        constructs := Function.update s.constructs this (s.constructs this + 1) }

/-- `m_storage.value.~T()` -/
def destroyValue (this : H) : Prog (State H T) Unit Unit := do
  let o ← fields this
  let _ ← valueOf this
  modify fun s =>
    { s.put this (some { o with mStorage := none }) with
      destroys := Function.update s.destroys this (s.destroys this + 1) }

/-- `std::move(other.m_storage.value)`, as the argument of a constructor or assignment that
    throws if `throws` says so. -/
def moveValue (E : ValueType T) (throws : Bool) (other : H) : Prog (State H T) Unit T := do
  let v ← valueOf other
  setValue other (if throws then E.halfMoved v else E.moved v)
  pure v

/-- `std::move(other.m_storage)`, as the argument of a constructor of `T`: the union and not
    the `T` in it. -/
def moveStorage (E : ValueType T) (throws : Bool) (other : H) : Prog (State H T) Unit T := do
  let v ← valueOf other
  let make ← access fun _ => E.fromStorage
  setValue other (make throws v).2
  pure (make throws v).1

/-- `m_storage.value = v` -/
def assignValue (E : ValueType T) (throws : Bool) (this : H) (v : T) :
    Prog (State H T) Unit Unit := do
  let old ← valueOf this
  setValue this (if throws then E.halfAssigned old v else v)
  attempt (if throws then some () else none)

/-- A constructor: the members are initialised, the body runs, and if it throws the object
    is gone again; the destructor of the union does nothing. -/
def constructor (this : H) (body : Prog (State H T) Unit Unit) : Prog (State H T) Unit Unit :=
  fun s =>
    match (do
      change fun s => if (s.object this).isNone then some (s.put this (some ⟨none, false⟩))
        else none
      body : Prog (State H T) Unit Unit) s with
    | (.threw e, s') => (.threw e, s'.put this none)
    | (out, s') => (out, s')

/-! ## The members of the class -/

/-- `Optional()` -/
def construct (this : H) : Prog (State H T) Unit Unit := constructor this (pure ())

/-- `Optional(value)`, by a copy or a move, and `Optional(std::in_place, args...)`, whose
    arguments construct `v`. -/
def constructFrom (throws : Bool) (this : H) (v : T) : Prog (State H T) Unit Unit :=
  constructor this do
    constructValue throws this v
    setHasValue this true

/-- `Optional(other)` -/
def copyConstruct (throws : Bool) (this other : H) : Prog (State H T) Unit Unit :=
  constructor this do
    let o ← fields other
    if o.mHasValue then do
      let v ← valueOf other
      constructValue throws this v
      setHasValue this true
    else pure ()

/-- `Optional(std::move(other))` -/
def moveConstruct (E : ValueType T) (throws : Bool) (this other : H) :
    Prog (State H T) Unit Unit :=
  constructor this do
    let o ← fields other
    if o.mHasValue then do
      let v ← moveValue E throws other
      constructValue throws this v
      setHasValue this true
    else pure ()

/-- `~Optional()` -/
def destruct (this : H) : Prog (State H T) Unit Unit := do
  let o ← fields this
  if o.mHasValue then destroyValue this else pure ()
  modify fun s => s.put this none

/-- `*this = other`.  The branch for a `T` whose copy assignment may throw is empty. -/
def copyAssign (E : ValueType T) (throws : Bool) (this other : H) :
    Prog (State H T) Unit Unit := do
  let o ← fields this
  let k ← fields other
  if this = other then pure ()
  else if o.mHasValue && k.mHasValue then
    if E.nothrowCopyAssignable then do
      let v ← valueOf other
      assignValue E false this v
    else pure ()
  else if o.mHasValue then do
    destroyValue this
    setHasValue this false
  else if k.mHasValue then do
    let v ← valueOf other
    constructValue throws this v
    setHasValue this true
  else pure ()

/-- `*this = std::move(other)`.  The last branch constructs from `other.m_storage`. -/
def moveAssign (E : ValueType T) (throws : Bool) (this other : H) :
    Prog (State H T) Unit Unit :=
  noexceptIf E.nothrowMovable do
    let o ← fields this
    let k ← fields other
    if this = other then pure ()
    else if o.mHasValue && k.mHasValue then do
      let v ← moveValue E throws other
      assignValue E throws this v
    else if o.mHasValue then do
      destroyValue this
      setHasValue this false
    else if k.mHasValue then do
      let v ← moveStorage E throws other
      constructValue throws this v
      setHasValue this true
    else pure ()

/-- `has_value()` -/
def hasValue (this : H) : Prog (State H T) Unit Bool := do
  let o ← fields this
  pure o.mHasValue

/-- `value()`, the exception being `std::bad_optional_access` -/
def value (this : H) : Prog (State H T) Unit T := do
  let o ← fields this
  if o.mHasValue then valueOf this else throwing ()

/-! ## Runs -/

/-- The public operations that change objects. -/
inductive Op (H T : Type) where
  | construct (this : H)
  | constructFrom (this : H) (v : T)
  | copyConstruct (this other : H)
  | moveConstruct (this other : H)
  | copyAssign (this other : H)
  | moveAssign (this other : H)
  | destruct (this : H)
  deriving DecidableEq, Repr

def exec (E : ValueType T) (throws : Bool) : Op H T → Prog (State H T) Unit Unit
  | .construct this => construct this
  | .constructFrom this v => constructFrom throws this v
  | .copyConstruct this other => copyConstruct throws this other
  | .moveConstruct this other => moveConstruct E throws this other
  | .copyAssign this other => copyAssign E throws this other
  | .moveAssign this other => moveAssign E throws this other
  | .destruct this => destruct this

/-- What the language asks of an operation: only objects that exist are used, only objects
    that do not exist are constructed, and a move assignment compiles only for a `T` that can
    be constructed from the union. -/
def Allowed (E : ValueType T) (s : State H T) : Op H T → Prop
  | .construct this | .constructFrom this _ => s.object this = none
  | .copyConstruct this other | .moveConstruct this other =>
      s.object this = none ∧ s.object other ≠ none
  | .copyAssign this other => s.object this ≠ none ∧ s.object other ≠ none
  | .moveAssign this other =>
      E.fromStorage.isSome ∧ s.object this ≠ none ∧ s.object other ≠ none
  | .destruct this => s.object this ≠ none

instance (E : ValueType T) (s : State H T) : (op : Op H T) → Decidable (Allowed E s op)
  | .construct this => inferInstanceAs (Decidable (s.object this = none))
  | .constructFrom this _ => inferInstanceAs (Decidable (s.object this = none))
  | .copyConstruct this other | .moveConstruct this other =>
      inferInstanceAs (Decidable (s.object this = none ∧ s.object other ≠ none))
  | .copyAssign this other =>
      inferInstanceAs (Decidable (s.object this ≠ none ∧ s.object other ≠ none))
  | .moveAssign this other => inferInstanceAs
      (Decidable (E.fromStorage.isSome ∧ s.object this ≠ none ∧ s.object other ≠ none))
  | .destruct this => inferInstanceAs (Decidable (s.object this ≠ none))

/-- An operation, whether the call of `T` throws in it, and how it ended. -/
abbrev Event (H T : Type) : Type := Op H T × Bool × Outcome Unit Unit

/-- All runs of operations, with exceptions at any call.  An operation in which the program
    ends is not a step. -/
def optionals (E : ValueType T) : System (State H T) (Event H T) where
  init s := s = ⟨fun _ => none, fun _ => 0, fun _ => 0⟩
  step s a s' := Allowed E s a.1 ∧ exec E a.2.1 a.1 s = (a.2.2, s') ∧ a.2.2 ≠ .diverged

end Optional
