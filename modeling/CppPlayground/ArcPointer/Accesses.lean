import CppPlayground.ArcPointer.Owned
import CppPlayground.Lib.Events

/-! # `ArcPointer`: the order of what is done with blocks and objects

    The threads of `Model`, which now also use the objects, as in `*ptr.get()`.  An event
    is a step of a thread with the handles the member modifies or reads, with what it does
    to a block or its object, and with the pointer by which it does so.  `get()` does not
    look at the control block: a handle that has lost it still returns its pointer, but
    what is done with that is not done with a block of the handle.

    `Synchronises` says which events are ordered whenever they happen one after the other.
    The operations on a count are sequentially consistent read-modify-write operations, so
    each acquires what all earlier ones on the same count have released.  Calls of members
    on one handle are ordered by the caller, if one of them modifies the handle. -/

namespace ArcPointer

open Transition Events

variable {I H A : Type}

/-- What is done with a block: `new ControlBlock`, `++m_num_shared` or `--m_num_shared`, a
    use of its object, `destroy_object(); delete this;`. -/
inductive Deed where
  | create
  | count
  | use
  | dispose
  deriving DecidableEq, Repr

/-- A member or its next step, or a use of `*handle.get()`. -/
inductive Act (H A : Type) where
  | member (ch : Choice H A)
  | use (handle : H)

structure Event (I H A : Type) where
  thread : I
  act : Act H A
  modifies : H → Bool
  reads : H → Bool
  deed : Option (Deed × Nat)
  pointer : Option A

/-- The handle is modified or read. -/
def Event.accesses (e : Event I H A) (k : H) : Bool := e.modifies k || e.reads k

/-- The later one of two such events has synchronised with the earlier one. -/
def Synchronises (x y : Event I H A) : Prop :=
  x.thread = y.thread
    ∨ (∃ b, x.deed = some (.count, b) ∧ y.deed = some (.count, b))
    ∨ ∃ k, (x.modifies k = true ∧ y.accesses k = true)
      ∨ (x.accesses k = true ∧ y.modifies k = true)

/-- What a step of a member does with a block. -/
def State.deed (s : State I H A) (t : I) : Choice H A → Option (Deed × Nat)
  | .construct _ _ => some (.create, s.nextBlock)
  | .next =>
      match s.point t with
      | .disposing b _ _ => some (.dispose, b)
      | _ => (s.target t).map fun b => (.count, b)
  | _ => none

/-- The pointer that a block is made with, or destroys the object of. -/
def State.pointer (s : State I H A) (t : I) : Choice H A → Option A
  | .construct _ ptr => ptr
  | .next =>
      match s.point t with
      | .disposing b _ _ => (s.block b).mPtr
      | _ => none
  | _ => none

section Steps

variable [DecidableEq H]

/-- The handles that a member modifies in its first step. -/
def Choice.modifies (k : H) : Choice H A → Bool
  | .construct this _ | .copyConstruct this _ | .destruct this => k = this
  | .moveConstruct this other | .moveAssign this other => k = this || k = other
  | .copyAssign _ _ | .next => false

/-- The handles that it reads; a copy assignment compares its two handles first. -/
def Choice.reads (k : H) : Choice H A → Bool
  | .copyConstruct _ other => k = other
  | .copyAssign this other => k = this || k = other
  | _ => false

/-- The event of a step of a member. -/
def State.member (s : State I H A) (t : I) (ch : Choice H A) : Event I H A where
  thread := t
  act := .member ch
  modifies k := (s.point t).modifies k || ch.modifies k
  reads k := (s.point t).reads k || ch.reads k
  deed := s.deed t ch
  pointer := s.pointer t ch

/-- The event of a use of the object that `p` points to: that of the control block, if the
    handle has one. -/
def useOf (t : I) (k : H) (controlBlock : Option Nat) (p : A) : Event I H A where
  thread := t
  act := .use k
  modifies _ := false
  reads j := j = k
  deed := controlBlock.map fun b => (.use, b)
  pointer := some p

variable [DecidableEq I] [Fintype I]

/-- What a thread does next.  It uses an object between two members, and by a handle that
    has a pointer and is not being modified. -/
def State.perform (s : State I H A) (t : I) : Act H A → Option (Event I H A × State I H A)
  | .member ch => (step s t ch).map fun s' => (s.member t ch, s')
  | .use k =>
      match s.point t, s.get k with
      | .idle, some p =>
          if s.readable k then some (useOf t k (s.controlBlock k) p, s) else none
      | _, _ => none

/-- All interleavings of members and uses. -/
def accesses (I H A : Type) [DecidableEq I] [Fintype I] [DecidableEq H] :
    System (State I H A) (Event I H A) where
  init := (arcs I H A).init
  step s e s' := s.perform e.thread e.act = some (e, s')

/-- The act does not dereference a null control block. -/
def NoNullAct (s : State I H A) (t : I) : Act H A → Prop
  | .member ch => NoNullDeref s (t, ch)
  | .use _ => True

omit [DecidableEq I] [Fintype I] in
instance (s : State I H A) (t : I) : (a : Act H A) → Decidable (NoNullAct s t a)
  | .member ch => inferInstanceAs (Decidable (NoNullDeref s (t, ch)))
  | .use _ => inferInstanceAs (Decidable True)

/-- The runs without a null dereference. -/
def soundAccesses (I H A : Type) [DecidableEq I] [Fintype I] [DecidableEq H] :
    System (State I H A) (Event I H A) :=
  (accesses I H A).restrict fun s e => NoNullAct s e.thread e.act

/-- Acts of threads, one after the other, as long as they are possible. -/
def State.performAll (s : State I H A) :
    List (I × Act H A) → Option (List (Event I H A) × State I H A)
  | [] => some ([], s)
  | a :: as =>
      if NoNullAct s a.1 a.2 then
        (s.perform a.1 a.2).bind fun p => (p.2.performAll as).map fun q => (p.1 :: q.1, q.2)
      else none

end Steps

end ArcPointer
