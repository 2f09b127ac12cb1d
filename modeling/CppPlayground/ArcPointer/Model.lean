import Mathlib.Data.Fintype.Basic
import Mathlib.Logic.Function.Basic
import CppPlayground.Lib.System

/-! # `ArcPointer`: handles, control blocks and threads

    `arc_pointer.hpp`.  A handle is an `ArcPointer` in some storage, with its
    `m_control_block` and its `m_ptr`; blocks are numbered in the order they are
    allocated.  Any finite number of threads run the special members of any finite number
    of handles.

    A step of a thread is an atomic operation on a reference count, or what it does to its
    own handles or to a block that it deletes between two of them.  A thread may only
    start on a handle that no other thread is modifying, and only modify one that no other
    thread uses.  A reference count never reaches `2 ^ 64`, since there are fewer handles
    than bytes of memory, and is a natural number. -/

namespace ArcPointer

open Transition

variable {I H A : Type}

/-- `ControlBlock`, with the number of times its object was destroyed and it was
    deleted. -/
structure Block (A : Type) where
  mPtr : Option A
  mNumShared : Nat
  destroyed : Nat
  deleted : Nat

/-- `ControlBlock(ptr, deleter)` -/
def Block.construct (ptr : Option A) : Block A := ⟨ptr, 1, 0, 0⟩

/-- The effect of `++m_num_shared`. -/
def Block.incremented (k : Block A) : Block A := { k with mNumShared := k.mNumShared + 1 }

/-- The effect of `--m_num_shared`. -/
def Block.decremented (k : Block A) : Block A := { k with mNumShared := k.mNumShared - 1 }

/-- The effect of `if (m_ptr != nullptr) destroy_object(); delete this;`. -/
def Block.disposed (k : Block A) : Block A :=
  { k with
    destroyed := if k.mPtr.isSome then k.destroyed + 1 else k.destroyed
    deleted := k.deleted + 1 }

/-- `m_control_block` and `m_ptr`; `none` is `nullptr`. -/
structure Handle (A : Type) where
  mControlBlock : Option Nat
  mPtr : Option A

/-- `nullptr` in both members. -/
def Handle.null : Handle A := ⟨none, none⟩

/-- The effect of `m_control_block = nullptr`. -/
def Handle.withoutBlock (o : Handle A) : Handle A := { o with mControlBlock := none }

/-- What a member does after `m_control_block->release_ref()`.  `taken` is the block that
    a copy assignment has added its reference to. -/
inductive After (H : Type) where
  | copyFrom (other : H) (taken : Nat)
  | moveFrom (other : H)
  | destroy

/-- Where a thread is: before `add_ref` in a copy constructor, whose object has its
    `members`, or in a copy assignment; before `release_ref`; in the `release_ref` that
    has brought the count of `block` to zero; or after `release_ref`, where `this` still
    refers to `block`. -/
inductive Point (H A : Type) where
  | idle
  | addingConstruct (this other : H) (members : Handle A)
  | addingAssign (this other : H)
  | releasing (this : H) (after : After H)
  | disposing (block : Nat) (this : H) (after : After H)
  | finishing (block : Nat) (this : H) (after : After H)
  | crashed

/-- The handles, the control blocks, and the threads. -/
structure State (I H A : Type) where
  handle : H → Option (Handle A)
  block : Nat → Block A
  nextBlock : Nat
  point : I → Point H A

/-- The member a thread starts, or its next step. -/
inductive Choice (H A : Type) where
  | construct (this : H) (ptr : Option A)
  | copyConstruct (this other : H)
  | moveConstruct (this other : H)
  | copyAssign (this other : H)
  | moveAssign (this other : H)
  | destruct (this : H)
  | next

section Steps

variable [DecidableEq H]

/-- The handle a thread reads after its `release_ref`. -/
def After.reads (h : H) : After H → Bool
  | .copyFrom other _ => h = other
  | _ => false

/-- The handles it modifies besides `this`. -/
def After.modifies (h : H) : After H → Bool
  | .moveFrom other => h = other
  | _ => false

/-- The handles a thread modifies in the operation it is in. -/
def Point.modifies (h : H) : Point H A → Bool
  | .addingConstruct this _ _ | .addingAssign this _ => h = this
  | .releasing this after | .disposing _ this after | .finishing _ this after =>
      h = this || after.modifies h
  | .idle | .crashed => false

/-- The handles a thread uses without modifying them. -/
def Point.reads (h : H) : Point H A → Bool
  | .addingConstruct _ other _ | .addingAssign _ other => h = other
  | .releasing _ after | .disposing _ _ after | .finishing _ _ after => after.reads h
  | .idle | .crashed => false

/-- No thread is modifying the handle. -/
def State.readable (s : State I H A) (h : H) : Prop := ∀ u, (s.point u).modifies h = false

/-- No thread is using the handle. -/
def State.modifiable (s : State I H A) (h : H) : Prop :=
  ∀ u, (s.point u).modifies h = false ∧ (s.point u).reads h = false

instance [Fintype I] (s : State I H A) (h : H) : Decidable (s.readable h) :=
  inferInstanceAs (Decidable (∀ u, (s.point u).modifies h = false))

instance [Fintype I] (s : State I H A) (h : H) : Decidable (s.modifiable h) :=
  inferInstanceAs (Decidable (∀ u, (s.point u).modifies h = false ∧ (s.point u).reads h = false))

/-- The block a handle refers to. -/
def State.controlBlock (s : State I H A) (h : H) : Option Nat :=
  (s.handle h).bind Handle.mControlBlock

/-- What follows `release_ref`.  Move assignment resets `other.m_control_block`, twice,
    and leaves `other.m_ptr`. -/
def finish (handle : H → Option (Handle A)) (this : H) : After H → H → Option (Handle A)
  | .copyFrom other _ => Function.update handle this (handle other)
  | .moveFrom other =>
      Function.update (Function.update handle this (handle other)) other
        ((handle other).map .withoutBlock)
  | .destroy => Function.update handle this none

variable [DecidableEq I]

/-- A thread goes to another point. -/
def State.goto (s : State I H A) (t : I) (p : Point H A) : State I H A :=
  { s with point := Function.update s.point t p }

/-- Replace a block. -/
def State.setBlock (s : State I H A) (b : Nat) (k : Block A) : State I H A :=
  { s with block := Function.update s.block b k }

/-- An atomic operation on the count of a block: `nullptr` and a deleted block are
    undefined behaviour. -/
def State.onBlock (s : State I H A) (t : I) (controlBlock : Option Nat)
    (operation : Nat → State I H A) : State I H A :=
  match controlBlock with
  | some b => if (s.block b).deleted = 0 then operation b else s.goto t .crashed
  | none => s.goto t .crashed

/-- The next step of a thread in a member. -/
def State.next (s : State I H A) (t : I) : State I H A :=
  match s.point t with
  | .addingConstruct this _ members =>
      s.onBlock t members.mControlBlock fun b =>
        { (s.goto t .idle).setBlock b (s.block b).incremented with
          handle := Function.update s.handle this (some members) }
  | .addingAssign this other =>
      s.onBlock t (s.controlBlock other) fun b =>
        (s.goto t (.releasing this (.copyFrom other b))).setBlock b (s.block b).incremented
  | .releasing this after =>
      s.onBlock t (s.controlBlock this) fun b =>
        if (s.block b).decremented.mNumShared = 0 then
          (s.goto t (.disposing b this after)).setBlock b (s.block b).decremented
        else (s.goto t (.finishing b this after)).setBlock b (s.block b).decremented
  | .disposing b this after =>
      (s.goto t (.finishing b this after)).setBlock b (s.block b).disposed
  | .finishing _ this after =>
      { s.goto t .idle with handle := finish s.handle this after }
  | .idle | .crashed => s

variable [Fintype I]

/-- An idle thread starts a member, as far as the rules on handles allow it; the members
    without an atomic operation are done at once. -/
def State.begin (s : State I H A) (t : I) : Choice H A → Option (State I H A)
  | .construct this ptr =>
      if s.handle this = none ∧ s.modifiable this then
        some { s with
          handle := Function.update s.handle this (some ⟨some s.nextBlock, ptr⟩)
          block := Function.update s.block s.nextBlock (.construct ptr)
          nextBlock := s.nextBlock + 1 }
      else none
  | .copyConstruct this other =>
      if s.handle this = none ∧ s.modifiable this ∧ s.readable other then
        (s.handle other).map fun members => s.goto t (.addingConstruct this other members)
      else none
  | .moveConstruct this other =>
      if s.handle this = none ∧ s.modifiable this ∧ (s.handle other).isSome
          ∧ s.modifiable other then
        some { s with
          handle := Function.update (Function.update s.handle this (s.handle other)) other
            (some .null) }
      else none
  | .copyAssign this other =>
      if (s.handle this).isSome ∧ s.readable this ∧ (s.handle other).isSome
          ∧ s.readable other then
        if this = other then some s
        else if s.controlBlock other = s.controlBlock this then some s
        else if s.modifiable this then some (s.goto t (.addingAssign this other))
        else none
      else none
  | .moveAssign this other =>
      if (s.handle this).isSome ∧ s.modifiable this ∧ (s.handle other).isSome
          ∧ s.modifiable other then
        some (s.goto t (.releasing this (.moveFrom other)))
      else none
  | .destruct this =>
      if (s.handle this).isSome ∧ s.modifiable this then
        if s.controlBlock this = none then
          some { s with handle := Function.update s.handle this none }
        else some (s.goto t (.releasing this .destroy))
      else none
  | .next => none

/-- The step of a thread. -/
def step (s : State I H A) (t : I) (ch : Choice H A) : Option (State I H A) :=
  match s.point t, ch with
  | .idle, ch => s.begin t ch
  | .crashed, _ => none
  | _, .next => some (s.next t)
  | _, _ => none

/-- No handles, no blocks, all threads idle. -/
def start (blank : Block A) : State I H A := ⟨fun _ => none, fun _ => blank, 0, fun _ => .idle⟩

/-- All interleavings; a label is a thread and its choice. -/
def arcs (I H A : Type) [DecidableEq I] [Fintype I] [DecidableEq H] :
    System (State I H A) (I × Choice H A) where
  init s := ∃ blank, s = start blank
  step s a s' := step s a.1 a.2 = some s'

/-- The thread is at an atomic operation, on the block of a handle. -/
def Point.atomic : Point H A → Bool
  | .addingConstruct _ _ _ | .addingAssign _ _ | .releasing _ _ => true
  | _ => false

/-- The block it is on. -/
def State.target (s : State I H A) (t : I) : Option Nat :=
  match s.point t with
  | .addingConstruct _ _ members => members.mControlBlock
  | .addingAssign _ other => s.controlBlock other
  | .releasing this _ => s.controlBlock this
  | _ => none

/-- The step does not dereference a null control block. -/
def NoNullDeref (s : State I H A) (a : I × Choice H A) : Prop :=
  (s.point a.1).atomic = true → s.target a.1 ≠ none

instance (s : State I H A) (a : I × Choice H A) : Decidable (NoNullDeref s a) :=
  inferInstanceAs (Decidable ((s.point a.1).atomic = true → s.target a.1 ≠ none))

end Steps

end ArcPointer
