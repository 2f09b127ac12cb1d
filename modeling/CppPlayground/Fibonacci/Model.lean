import Mathlib.Algebra.Group.Nat.Defs
import Mathlib.Logic.Function.Iterate

/-! # `fibonacci_limit` and the generator `fibonacci_numbers`

    `coroutines_fibonacci.cpp`, for an unsigned `T` of width `w`.  Where `T` is narrower
    than `int` its operands are promoted, and the assignment to `next` reduces the sum
    again, so that in every case the arithmetic is that of `BitVec w`. -/

namespace Fibonacci

variable {w : Nat}

/-- A value of type `T`; `wrapped` records that an addition that led to it has wrapped. -/
structure Number (w : Nat) where
  value : BitVec w
  wrapped : Bool
  deriving DecidableEq, Repr

/-- `a + b` -/
def Number.add (a b : Number w) : Number w where
  value := a.value + b.value
  wrapped := a.wrapped || b.wrapped || decide (2 ^ w ≤ a.value.toNat + b.value.toNat)

/-- The variables of both functions. -/
structure Pair (w : Nat) where
  current : Number w
  next : Number w
  deriving DecidableEq, Repr

/-- `T current = 0; T next = 1;` -/
def Pair.start (w : Nat) : Pair w := ⟨⟨0, false⟩, ⟨1, false⟩⟩

/-- `next += std::exchange(current, next);` -/
def Pair.advance (p : Pair w) : Pair w := ⟨p.next, p.next.add p.current⟩

/-! ## `fibonacci_limit` -/

/-- The loop, for at most so many rounds. -/
def limitLoop : Nat → Pair w → Option (Number w)
  | 0, _ => none
  | rounds + 1, p =>
      if BitVec.allOnes w - p.next.value < p.current.value then some p.next
      else limitLoop rounds p.advance

/-- `fibonacci_limit<T>()` -/
def fibonacciLimit (w rounds : Nat) : Option (Number w) := limitLoop rounds (Pair.start w)

/-! ## `fibonacci_numbers` -/

/-- The coroutine: not yet started, suspended at its `co_yield`, or past its
    `co_return`. -/
inductive Generator (w : Nat) where
  | initial
  | yielding (p : Pair w)
  | done
  deriving DecidableEq, Repr

/-- Resume the coroutine: what it yields next, if anything, and where it is suspended. -/
def Generator.resume (limit : BitVec w) : Generator w → Option (Number w) × Generator w
  | .initial => (some (Pair.start w).current, .yielding (Pair.start w))
  | .yielding p =>
      if p.current.value = limit then (none, .done)
      else (some p.advance.current, .yielding p.advance)
  | .done => (none, .done)

/-- The coroutine after `n` resumptions. -/
def Generator.after (limit : BitVec w) (n : Nat) : Generator w :=
  (fun g => (g.resume limit).2)^[n] .initial

/-- What `fibonacci_numbers<T>()` yields at its `n`-th resumption. -/
def fibonacciNumbers (limit : BitVec w) (n : Nat) : Option (Number w) :=
  ((Generator.after limit n).resume limit).1

example : fibonacciLimit 8 13 = some ⟨233, false⟩ := by decide

example : (List.range 6).map (fibonacciNumbers (3 : BitVec 2))
    = [some ⟨0, false⟩, some ⟨1, false⟩, some ⟨1, false⟩, some ⟨2, false⟩, some ⟨3, false⟩,
      none] := by decide

end Fibonacci
