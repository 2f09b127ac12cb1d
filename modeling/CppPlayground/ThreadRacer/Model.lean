import Mathlib.Algebra.Group.Nat.Defs
import Mathlib.Data.Fintype.Card
import CppPlayground.Lib.System

/-! # `thread_racer`: the start barrier

    `thread_racer.cpp`, the part of `thread_func` before the race.  A thread counts itself
    in `num_threads_ready`; the last one to do so notifies all others, who wait for the
    count to be complete.  A step is one atomic operation: the increment, `notify_all`,
    the acquisition of the mutex, an evaluation of the predicate, the release of the mutex
    together with going to sleep.  A sleeping thread can also wake up for no reason. -/

namespace ThreadRacer

open Transition

variable {I : Type}

/-- Where a thread is in `thread_func`. -/
inductive Point where
  | starting
  | notifying
  | locking
  | checking
  | sleepy
  | asleep
  | woken
  | unlocking
  | racing
  deriving DecidableEq, Repr

/-- `num_threads_ready`, the owner of `mutex`, and the threads; besides, the threads that
    were `ready_to_go`, and whether `notify_all` has been executed. -/
structure State (I : Type) where
  numThreadsReady : Nat
  mutex : Option I
  point : I → Point
  readyToGo : List I
  notified : Bool

/-- A thread takes its next step, or wakes up spuriously. -/
inductive Choice where
  | next
  | wakeUp
  deriving DecidableEq, Repr

section Steps

variable [DecidableEq I]

/-- A thread goes to another program point. -/
def State.goto (s : State I) (t : I) (p : Point) : State I :=
  { s with point := Function.update s.point t p }

/-- `const bool ready_to_go = (++num_threads_ready) == num_threads;` -/
def State.arrive (numThreads : Nat) (s : State I) (t : I) : State I :=
  if (s.numThreadsReady + 1) % 2 ^ 64 = numThreads then
    { s.goto t .notifying with
      numThreadsReady := (s.numThreadsReady + 1) % 2 ^ 64
      readyToGo := s.readyToGo ++ [t] }
  else { s.goto t .locking with numThreadsReady := (s.numThreadsReady + 1) % 2 ^ 64 }

/-- Where `notify_all` leaves a thread. -/
def Point.notifiedAll : Point → Point
  | .asleep => .woken
  | p => p

/-- `cv_start.notify_all()` -/
def State.notifyAll (s : State I) (t : I) : State I :=
  { s with
    point := Function.update (fun u => (s.point u).notifiedAll) t .racing
    notified := true }

/-- A thread acquires the mutex, if it is free. -/
def State.lock (s : State I) (t : I) : Option (State I) :=
  if s.mutex = none then some { s.goto t .checking with mutex := some t } else none

/-- The step of thread `t`, if it can take it. -/
def step (numThreads : Nat) (s : State I) (t : I) : Choice → Option (State I)
  | .next =>
      match s.point t with
      | .starting => some (s.arrive numThreads t)
      | .notifying => some (s.notifyAll t)
      | .locking | .woken => s.lock t
      | .checking =>
          if s.numThreadsReady = numThreads then some (s.goto t .unlocking)
          else some (s.goto t .sleepy)
      | .sleepy => some { s.goto t .asleep with mutex := none }
      | .unlocking => some { s.goto t .racing with mutex := none }
      | .asleep | .racing => none
  | .wakeUp =>
      match s.point t with
      | .asleep => some (s.goto t .woken)
      | _ => none

/-- All interleavings of `num_threads` threads. -/
def racers (I : Type) [DecidableEq I] [Fintype I] : System (State I) (I × Choice) where
  init s := s = ⟨0, none, fun _ => .starting, [], false⟩
  step s a s' := step (Fintype.card I) s a.1 a.2 = some s'

end Steps

end ThreadRacer
