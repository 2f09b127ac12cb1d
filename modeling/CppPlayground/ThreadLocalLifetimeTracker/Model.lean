import Mathlib.Algebra.Group.Int.Defs
import Mathlib.Algebra.Group.Nat.Defs
import Mathlib.Data.Finset.Erase
import Mathlib.Data.Finset.Insert
import Mathlib.Logic.Function.Basic
import CppPlayground.Lib.System

/-! # `ThreadLocalLifetimeTracker` and its fixture

    `testing/thread_local_lifetime_tracker.hpp`.  Every thread has its own counters, of type
    `int64_t`; an increment beyond the largest value is undefined, as are calls on objects
    that do not exist.  Any threads construct, assign and destroy trackers, and reset their
    counters or have a fixture do it. -/

namespace ThreadLocalLifetimeTracker

open Transition

variable {I H : Type}

/-- The counters of a thread. -/
@[ext]
structure Counters where
  mNumConstructions : Int
  mNumDestructions : Int
  mNumDefaultConstructions : Int
  mNumCopyConstructions : Int
  mNumMoveConstructions : Int
  mNumCopyAssignments : Int
  mNumMoveAssignments : Int
  deriving DecidableEq, Repr

/-- What `reset()` leaves. -/
def Counters.zero : Counters := ⟨0, 0, 0, 0, 0, 0, 0⟩

/-- `++m` -/
def increment (m : Int) : Option Int := if m < 2 ^ 63 - 1 then some (m + 1) else none

/-- `ThreadLocalLifetimeTracker()` -/
def Counters.construct (k : Counters) : Option Counters := do
  let default ← increment k.mNumDefaultConstructions
  let constructions ← increment k.mNumConstructions
  some { k with mNumDefaultConstructions := default, mNumConstructions := constructions }

/-- `ThreadLocalLifetimeTracker(const ThreadLocalLifetimeTracker &)` -/
def Counters.copyConstruct (k : Counters) : Option Counters := do
  let copies ← increment k.mNumCopyConstructions
  let constructions ← increment k.mNumConstructions
  some { k with mNumCopyConstructions := copies, mNumConstructions := constructions }

/-- `ThreadLocalLifetimeTracker(ThreadLocalLifetimeTracker &&)` -/
def Counters.moveConstruct (k : Counters) : Option Counters := do
  let moves ← increment k.mNumMoveConstructions
  let constructions ← increment k.mNumConstructions
  some { k with mNumMoveConstructions := moves, mNumConstructions := constructions }

/-- `~ThreadLocalLifetimeTracker()` -/
def Counters.destruct (k : Counters) : Option Counters := do
  let destructions ← increment k.mNumDestructions
  some { k with mNumDestructions := destructions }

/-- `operator=(const ThreadLocalLifetimeTracker &)`, of `*this` or of another object. -/
def Counters.copyAssign (same : Bool) (k : Counters) : Option Counters :=
  if same then some k
  else do
    let assignments ← increment k.mNumCopyAssignments
    some { k with mNumCopyAssignments := assignments }

/-- `operator=(ThreadLocalLifetimeTracker &&)`, of `*this` or of another object. -/
def Counters.moveAssign (same : Bool) (k : Counters) : Option Counters :=
  if same then some k
  else do
    let assignments ← increment k.mNumMoveAssignments
    some { k with mNumMoveAssignments := assignments }

/-- What a thread calls. -/
inductive Call (H : Type) where
  | reset
  | constructFixture
  | destructFixture
  | construct (this : H)
  | copyConstruct (this other : H)
  | moveConstruct (this other : H)
  | destruct (this : H)
  | copyAssign (this other : H)
  | moveAssign (this other : H)
  deriving DecidableEq, Repr

/-- The counters of every thread, and the trackers that exist. -/
structure State (I H : Type) where
  counters : I → Counters
  alive : Finset H

variable [DecidableEq H]

/-- What a call does to the counters of the thread; a fixture resets them both when it is
    constructed and when it is destroyed. -/
def Call.count : Call H → Counters → Option Counters
  | .reset | .constructFixture | .destructFixture => fun _ => some .zero
  | .construct _ => Counters.construct
  | .copyConstruct _ _ => Counters.copyConstruct
  | .moveConstruct _ _ => Counters.moveConstruct
  | .destruct _ => Counters.destruct
  | .copyAssign this other => Counters.copyAssign (this = other)
  | .moveAssign this other => Counters.moveAssign (this = other)

/-- What it does to the trackers. -/
def Call.live : Call H → Finset H → Option (Finset H)
  | .reset, alive | .constructFixture, alive | .destructFixture, alive => some alive
  | .construct this, alive => if this ∉ alive then some (insert this alive) else none
  | .copyConstruct this other, alive | .moveConstruct this other, alive =>
      if this ∉ alive ∧ other ∈ alive then some (insert this alive) else none
  | .destruct this, alive => if this ∈ alive then some (alive.erase this) else none
  | .copyAssign this other, alive | .moveAssign this other, alive =>
      if this ∈ alive ∧ other ∈ alive then some alive else none

variable [DecidableEq I]

def exec (t : I) (call : Call H) (s : State I H) : Option (State I H) := do
  let alive ← call.live s.alive
  let counters ← call.count (s.counters t)
  some ⟨Function.update s.counters t counters, alive⟩

/-- All interleavings of calls by any threads. -/
def trackers (I H : Type) [DecidableEq I] [DecidableEq H] : System (State I H) (I × Call H) where
  init s := s = ⟨fun _ => .zero, ∅⟩
  step s a s' := exec a.1 a.2 s = some s'

end ThreadLocalLifetimeTracker
