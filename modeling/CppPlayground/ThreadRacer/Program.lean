import Mathlib.Algebra.Group.Int.Defs
import CppPlayground.ThreadRacer.Model

/-! # `thread_racer`: the whole program

    `main` creates the threads, collects their results, sorts them and prints the
    scoreboard; a thread that has passed the start barrier reads the clock, counts to
    `Goal`, reads the clock again and hands its result over.  A step is one operation of
    `main` or of a thread; the clock readings, the order the sort gives to equal times and
    a creation that throws are part of the label. -/

namespace ThreadRacer

open Transition

/-- The values `--num-threads` accepts: `CLI::Range(1, max)`. -/
structure NumThreads where
  val : Nat
  pos : 0 < val
  lt : val < 2 ^ 64

/-- `static constexpr uint64_t Goal = 1UL << 34UL;` -/
def goal : Nat := 1 <<< 34

/-- `struct Result`; a time point is its count of nanoseconds. -/
structure Result where
  threadId : Nat
  time : Nat
  startTime : Int
  deriving DecidableEq, Repr

/-- A count of nanoseconds as a `uint64_t`. -/
def toUInt64 (count : Int) : Nat := (count % 2 ^ 64).toNat

/-- `Result{.thread_id = thread_id, .time = …(stop - start), .start_time = start}` -/
def Result.of (threadId : Nat) (start stop : Int) : Result :=
  ⟨threadId, toUInt64 (stop - start), start⟩

/-- Where a thread is after the barrier: its `start` and `counter`, and what it has put
    into its promise. -/
inductive Lane where
  | waiting
  | counting (start : Int) (counter : Nat)
  | finished (result : Result)
  deriving DecidableEq, Repr

/-- A line of the output. -/
inductive Line where
  | place (position threadId time : Nat)
  | delay (threadId startDelay : Nat)
  deriving DecidableEq, Repr

/-- The scoreboard, from `position` on. -/
def places (position : Nat) : List Result → List Line
  | [] => []
  | result :: results =>
      .place (position + 1) result.threadId result.time :: places (position + 1) results

/-- `std::ranges::min_element` by `start_time`, with the first of the smallest so far. -/
def minStart (smallest : Result) : List Result → Result
  | [] => smallest
  | result :: results =>
      if result.startTime < smallest.startTime then minStart result results
      else minStart smallest results

/-- `start_delay` -/
def startDelay (firstStartTime : Int) (results : List Result) : List Nat :=
  results.map fun result => toUInt64 (result.startTime - firstStartTime)

/-- What `main` prints; there is no smallest element of no results. -/
def output : List Result → Option (List Line)
  | [] => none
  | result :: results =>
      let firstStartTime := (minStart result results).startTime
      some (places 0 (result :: results) ++
        ((result :: results).zip (startDelay firstStartTime (result :: results))).map
          fun p => .delay p.1.threadId p.2)

/-- Where `main` is: `i` threads are created, `results` are collected, everything is
    printed and the threads are to be joined.  When the creation of a thread throws, the
    exception leaves `main`; whether that joins the threads created so far before the
    program is terminated is up to the implementation. -/
inductive Main where
  | creating (i : Nat)
  | collecting (results : List Result)
  | joining (lines : List Line)
  | finished (lines : List Line)
  | unwinding (i : Nat)
  | terminated (i : Nat)
  deriving DecidableEq, Repr

/-- How many threads `main` has created. -/
def Main.created (numThreads : Nat) : Main → Nat
  | .creating i | .unwinding i | .terminated i => i
  | .collecting _ | .joining _ | .finished _ => numThreads

/-- Does the process still run? -/
def Main.alive : Main → Bool
  | .terminated _ => false
  | _ => true

/-- `num_threads_ready`, `mutex` and `cv_start` with the threads before the race, the
    threads in the race, and `main`. -/
structure Race (n : Nat) where
  barrier : State (Fin n)
  lane : Fin n → Lane
  main : Main

/-- The steps. -/
inductive Action (n : Nat) where
  | create
  | createFails (unwinds : Bool)
  | sync (t : Fin n) (ch : Choice)
  | start (t : Fin n) (now : Int)
  | count (t : Fin n)
  | stop (t : Fin n) (now : Int)
  | collect
  | print (sorted : List Result)
  | join
  deriving DecidableEq, Repr

variable {n : Nat}

/-- The thread exists, and so does the process. -/
def Race.Runs (s : Race n) (t : Fin n) : Prop :=
  t.val < s.main.created n ∧ s.main.alive = true

instance (s : Race n) (t : Fin n) : Decidable (s.Runs t) :=
  inferInstanceAs (Decidable (_ ∧ _))

/-- A thread is elsewhere in the race. -/
def Race.move (s : Race n) (t : Fin n) (l : Lane) : Race n :=
  { s with lane := Function.update s.lane t l }

/-- The thread has set its promise and returns. -/
def Lane.isFinished : Lane → Bool
  | .finished _ => true
  | _ => false

/-- The step of a thread in the race. -/
def Race.racing (s : Race n) (t : Fin n) (a : Action n) : Option (Race n) :=
  match a, s.lane t with
  | .start _ now, .waiting =>
      if s.barrier.point t = .racing then some (s.move t (.counting now 0)) else none
  | .count _, .counting start counter =>
      if counter < goal then some (s.move t (.counting start ((counter + 1) % 2 ^ 64)))
      else none
  | .stop _ now, .counting start counter =>
      if counter < goal then none
      else some (s.move t (.finished (Result.of t.val start now)))
  | _, _ => none

/-- `future.get()` of the next thread. -/
def Race.collect (s : Race n) (results : List Result) : Option (Race n) :=
  if h : results.length < n then
    match s.lane ⟨results.length, h⟩ with
    | .finished result => some { s with main := .collecting (results ++ [result]) }
    | _ => none
  else none

/-- The sort, which may put results with equal times in any order, and the output. -/
def Race.print (s : Race n) (results sorted : List Result) : Option (Race n) :=
  if results.length = n ∧ sorted.Perm results ∧ sorted.Pairwise (·.time ≤ ·.time) then
    (output sorted).map fun lines => { s with main := .joining lines }
  else none

/-- The step of `main`. -/
def Race.mainStep (s : Race n) (a : Action n) : Option (Race n) :=
  match a, s.main with
  | .create, .creating i =>
      some { s with main := if i + 1 < n then .creating (i + 1) else .collecting [] }
  | .createFails unwinds, .creating i =>
      some { s with main := if unwinds then .unwinding i else .terminated i }
  | .collect, .collecting results => s.collect results
  | .print sorted, .collecting results => s.print results sorted
  | .join, .joining lines =>
      if ∀ t, (s.lane t).isFinished = true then some { s with main := .finished lines }
      else none
  | .join, .unwinding i =>
      if ∀ t : Fin n, t.val < i → (s.lane t).isFinished = true then
        some { s with main := .terminated i }
      else none
  | _, _ => none

/-- The step with a label, if it can be taken. -/
def Race.step (s : Race n) (a : Action n) : Option (Race n) :=
  match a with
  | .sync t ch =>
      if s.Runs t then
        (ThreadRacer.step n s.barrier t ch).map fun barrier => { s with barrier := barrier }
      else none
  | .start t _ | .count t | .stop t _ => if s.Runs t then s.racing t a else none
  | .create | .createFails _ | .collect | .print _ | .join => s.mainStep a

/-- Before the first thread is created. -/
def Race.begin (n : Nat) : Race n where
  barrier := ⟨0, none, fun _ => .starting, [], false⟩
  lane _ := .waiting
  main := .creating 0

/-- All interleavings of `main` and its threads. -/
def races (n : NumThreads) : System (Race n.val) (Action n.val) where
  init s := s = Race.begin n.val
  step s a s' := s.step a = some s'

end ThreadRacer
