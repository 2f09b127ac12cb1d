import Mathlib.Data.Fintype.Basic
import Mathlib.Data.Fintype.Sets
import CppPlayground.Lib.System

/-! # `BoundedBlockingQueue`: threads, the mutex and the condition variables

    `concurrency/mpsc_blocking_queue.hpp`.  Any finite number of threads make any calls of
    `push`, `emplace` and `pop`.  A thread is at a program point of its call; a step takes
    it to the next one.  `wait(lock, predicate)` is its loop: evaluate the predicate, and
    while it is false release the mutex and go to sleep in one step, be woken, acquire the
    mutex again.  A sleeping thread can wake up for no reason, and `notify_one` wakes any
    one of the threads asleep on its condition variable.

    An element operation may throw; the `unique_lock` then releases the mutex on the way
    out of the call.  In `push`, `std::forward(value)` names no type and does not compile;
    it is read as what hands the argument on to the queue. -/

namespace BoundedBlockingQueue

open Transition

variable {I T : Type}

/-- The two sides of the queue, each with its condition variable: pushers sleep on
    `m_cv_push`, poppers on `m_cv_pop`. -/
inductive Side where
  | push
  | pop
  deriving DecidableEq, Repr

/-- The side a call notifies. -/
def Side.other : Side → Side
  | .push => .pop
  | .pop => .push

/-- The public operations.  The arguments of `emplace` construct `value`. -/
inductive Call (T : Type) where
  | push (value : T)
  | emplace (value : T)
  | pop
  deriving DecidableEq, Repr

def Call.side : Call T → Side
  | .push _ | .emplace _ => .push
  | .pop => .pop

/-- Where a thread is.  `slept` says whether it has been asleep in this call, `result` is
    what `pop` has taken out. -/
inductive Point (T : Type) where
  | idle
  | locking (call : Call T)
  | checking (call : Call T) (slept : Bool)
  | sleepy (call : Call T)
  | asleep (call : Call T)
  | woken (call : Call T)
  | operating (call : Call T) (slept : Bool)
  | unlocking (call : Call T) (result : Option T)
  | notifying (call : Call T) (result : Option T)
  | unwinding (call : Call T)
  | crashed
  deriving DecidableEq, Repr

/-- `m_queue`, the owner of `m_mutex`, and the threads. -/
structure State (I T : Type) where
  mQueue : List T
  mMutex : Option I
  point : I → Point T

/-- What is decided from outside the code: which call an idle thread makes, that a thread
    takes its next step, wakes up spuriously, or throws (`left` is what a throwing move
    leaves in the front element), and whom `notify_one` wakes. -/
inductive Choice (I T : Type) where
  | call (call : Call T)
  | next
  | wakeUp
  | fail (left : T)
  | notify (woken : Option I)
  deriving DecidableEq, Repr

/-- What a step does that is seen from outside: the queue has grown or shrunk, or a call
    has returned. -/
inductive Event (T : Type) where
  | internal
  | inserted (value : T)
  | removed (value : T)
  | returned (result : Option T)
  deriving DecidableEq, Repr

/-- The predicate a call waits for: `m_queue.size() < m_capacity`, `!m_queue.empty()`. -/
def ready (capacity : Nat) (queue : List T) : Side → Bool
  | .push => queue.length < capacity
  | .pop => !queue.isEmpty

/-- Asleep on the condition variable of a side. -/
def Point.asleepOn (d : Side) : Point T → Bool
  | .asleep call => call.side = d
  | _ => false

section Steps

variable [DecidableEq I]

/-- A thread goes to another program point. -/
def State.goto (s : State I T) (t : I) (p : Point T) : State I T :=
  { s with point := Function.update s.point t p }

/-- A thread acquires the mutex, if it is free. -/
def State.lock (s : State I T) (t : I) (p : Point T) : Option (Event T × State I T) :=
  if s.mMutex = none then some (.internal, { s.goto t p with mMutex := some t }) else none

/-- A thread releases the mutex. -/
def State.unlock (s : State I T) (t : I) (p : Point T) : State I T :=
  { s.goto t p with mMutex := none }

/-- The element operation of a call: `m_queue.push(value)`, `m_queue.emplace(args...)`, or
    `std::move(m_queue.front())` and `m_queue.pop()`. -/
def State.operate (s : State I T) (t : I) (call : Call T) : Event T × State I T :=
  match call with
  | .push value | .emplace value =>
      (.inserted value, { s.goto t (.unlocking call none) with mQueue := s.mQueue ++ [value] })
  | .pop =>
      match s.mQueue with
      | value :: rest =>
          (.removed value, { s.goto t (.unlocking call (some value)) with mQueue := rest })
      | [] => (.internal, s.goto t .crashed)

/-- What a throwing element operation leaves in the queue: `push` and `emplace` have no
    effect, a throwing move leaves `left` in the front element. -/
def failed (queue : List T) (left : T) : Call T → List T
  | .push _ | .emplace _ => queue
  | .pop => match queue with
    | _ :: rest => left :: rest
    | [] => []

variable [Fintype I]

/-- The step of thread `t`, if it can take it. -/
def step (capacity : Nat) (s : State I T) (t : I) :
    Choice I T → Option (Event T × State I T)
  | .call call =>
      match s.point t with
      | .idle => some (.internal, s.goto t (.locking call))
      | _ => none
  | .next =>
      match s.point t with
      | .locking call => s.lock t (.checking call false)
      | .checking call slept =>
          if ready capacity s.mQueue call.side then
            some (.internal, s.goto t (.operating call slept))
          else some (.internal, s.goto t (.sleepy call))
      | .sleepy call => some (.internal, s.unlock t (.asleep call))
      | .woken call => s.lock t (.checking call true)
      | .operating call _ => some (s.operate t call)
      | .unlocking call result => some (.internal, s.unlock t (.notifying call result))
      | .unwinding _ => some (.internal, s.unlock t .idle)
      | _ => none
  | .wakeUp =>
      match s.point t with
      | .asleep call => some (.internal, s.goto t (.woken call))
      | _ => none
  | .fail left =>
      match s.point t with
      | .operating call _ =>
          some (.internal,
            { s.goto t (.unwinding call) with mQueue := failed s.mQueue left call })
      | _ => none
  | .notify (some u) =>
      match s.point t, s.point u with
      | .notifying call result, .asleep call' =>
          if call'.side = call.side.other then
            some (.returned result, (s.goto u (.woken call')).goto t .idle)
          else none
      | _, _ => none
  | .notify none =>
      match s.point t with
      | .notifying call result =>
          if ∀ u, (s.point u).asleepOn call.side.other = false then
            some (.returned result, s.goto t .idle)
          else none
      | _ => none

/-- A label: the thread, the choice, and what is seen of the step. -/
abbrev Label (I T : Type) : Type := I × Choice I T × Event T

/-- An empty queue, all threads idle. -/
def start : State I T := ⟨[], none, fun _ => .idle⟩

/-- All interleavings. -/
def queues (I T : Type) [DecidableEq I] [Fintype I] (capacity : Nat) :
    System (State I T) (Label I T) where
  init s := s = start
  step s a s' := step capacity s a.1 a.2.1 = some (a.2.2, s')

/-- Follow a schedule as long as its steps are possible and allowed. -/
def execute (capacity : Nat) (allowed : State I T → Label I T → Bool) :
    State I T → List (I × Choice I T) → Option (List (Label I T) × State I T)
  | s, [] => some ([], s)
  | s, (t, ch) :: rest =>
      match step capacity s t ch with
      | some (e, s') =>
          if allowed s (t, ch, e) then
            (execute capacity allowed s' rest).map fun r => ((t, ch, e) :: r.1, r.2)
          else none
      | none => none

end Steps

/-- A step without an exception. -/
def quietStep (_ : State I T) (a : Label I T) : Bool :=
  match a.2.1 with
  | .fail _ => false
  | _ => true

end BoundedBlockingQueue
