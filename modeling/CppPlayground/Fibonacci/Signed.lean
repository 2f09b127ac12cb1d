import CppPlayground.Fibonacci.Enumeration

/-! # `fibonacci_numbers` of a signed type overflows

    `coroutines_fibonacci.cpp` again, now for a signed `T` of width `w` that is not
    promoted.  A sum or a difference outside the range of `T` is undefined, not wrapped.
    The test of `fibonacci_limit` is arranged so that nothing leaves the range; the
    generator has no such test before its addition.  It yields the number before the last
    one and then adds once too often. -/

namespace Fibonacci.Signed

/-- Why an evaluation gives no value. -/
inductive Error where
  | overflow
  | unfinished
  deriving DecidableEq, Repr

/-- `std::numeric_limits<T>::max()` -/
def maxValue (w : Nat) : Int := 2 ^ (w - 1) - 1

/-- `std::numeric_limits<T>::min()` -/
def minValue (w : Nat) : Int := -2 ^ (w - 1)

/-- The value of an operation of `T` with the mathematical result `x`. -/
def represent (w : Nat) (x : Int) : Except Error Int :=
  if minValue w ≤ x ∧ x ≤ maxValue w then .ok x else .error .overflow

/-- `a + b` -/
def add (w : Nat) (a b : Int) : Except Error Int := represent w (a + b)

/-- `a - b` -/
def sub (w : Nat) (a b : Int) : Except Error Int := represent w (a - b)

/-- The variables of both functions. -/
structure Pair where
  current : Int
  next : Int
  deriving DecidableEq, Repr

/-- `T current = 0; T next = 1;` -/
def Pair.start : Pair := ⟨0, 1⟩

/-- `next += std::exchange(current, next);` -/
def Pair.advance (w : Nat) (p : Pair) : Except Error Pair := do
  let next ← add w p.next p.current
  pure ⟨p.next, next⟩

/-- The loop of `fibonacci_limit`, for at most so many rounds. -/
def limitLoop (w : Nat) : Nat → Pair → Except Error Int
  | 0, _ => .error .unfinished
  | rounds + 1, p => do
      let room ← sub w (maxValue w) p.next
      if room < p.current then pure p.next
      else do
        let p ← p.advance w
        limitLoop w rounds p

/-- `fibonacci_limit<T>()` -/
def fibonacciLimit (w rounds : Nat) : Except Error Int := limitLoop w rounds Pair.start

/-- The coroutine: not yet started, suspended at its `co_yield`, or past its
    `co_return`. -/
inductive Generator where
  | initial
  | yielding (p : Pair)
  | done
  deriving DecidableEq, Repr

/-- Resume the coroutine: what it yields next, if anything, and where it is suspended. -/
def Generator.resume (w : Nat) (limit : Int) :
    Generator → Except Error (Option Int × Generator)
  | .initial => .ok (some Pair.start.current, .yielding Pair.start)
  | .yielding p =>
      if p.current = limit then .ok (none, .done)
      else do
        let p ← p.advance w
        pure (some p.current, .yielding p)
  | .done => .ok (none, .done)

/-- Iterate over the coroutine, for at most so many resumptions: what it has yielded, and
    how the iteration has ended. -/
def collect (w : Nat) (limit : Int) : Nat → Generator → List Int × Except Error Unit
  | 0, _ => ([], .error .unfinished)
  | rounds + 1, g =>
      match g.resume w limit with
      | .error e => ([], .error e)
      | .ok (none, _) => ([], .ok ())
      | .ok (some x, g') =>
          let rest := collect w limit rounds g'
          (x :: rest.1, rest.2)

/-- A full run of `fibonacci_numbers<T>()`. -/
def fibonacciNumbers (w rounds : Nat) : List Int × Except Error Unit :=
  match fibonacciLimit w rounds with
  | .error e => ([], .error e)
  | .ok limit => collect w limit rounds .initial

variable {w k rounds : Nat}

/-! ## The range -/

/-- The half of the range in which the Fibonacci numbers are. -/
theorem represent_natCast (n : Nat) :
    represent w n = if n < 2 ^ (w - 1) then .ok (n : Int) else .error .overflow := by
  have hpos : (0 : Int) < 2 ^ (w - 1) := Int.pow_pos (by decide)
  have hcast : ((2 ^ (w - 1) : Nat) : Int) = 2 ^ (w - 1) := by norm_cast
  by_cases hfits : n < 2 ^ (w - 1)
  · rw [represent, if_pos hfits, if_pos]
    unfold minValue maxValue
    omega
  · rw [represent, if_neg hfits, if_neg]
    unfold minValue maxValue
    omega

/-- The variables after `k` rounds. -/
def pair (k : Nat) : Pair := ⟨Nat.fib k, Nat.fib (k + 1)⟩

/-- A round is defined as long as the number after `next` is representable. -/
theorem advance_pair :
    (pair k).advance w
      = if Nat.fib (k + 2) < 2 ^ (w - 1) then .ok (pair (k + 1)) else .error .overflow := by
  have hsum : (pair k).next + (pair k).current = (Nat.fib (k + 2) : Nat) := by
    rw [Nat.fib_add_two, Int.natCast_add]
    exact Int.add_comm _ _
  rw [Pair.advance, add, hsum, represent_natCast]
  by_cases hfits : Nat.fib (k + 2) < 2 ^ (w - 1)
  · rw [if_pos hfits, if_pos hfits]
    rfl
  · rw [if_neg hfits, if_neg hfits]
    rfl

/-! ## `fibonacci_limit` -/

/-- The subtraction of the test stays in the range. -/
theorem sub_next (hfits : Nat.fib (k + 1) < 2 ^ (w - 1)) :
    sub w (maxValue w) (Nat.fib (k + 1))
      = .ok ((2 ^ (w - 1) - 1 - Nat.fib (k + 1) : Nat) : Int) := by
  have hcast : ((2 ^ (w - 1) : Nat) : Int) = 2 ^ (w - 1) := by norm_cast
  have hroom : maxValue w - (Nat.fib (k + 1) : Int)
      = ((2 ^ (w - 1) - 1 - Nat.fib (k + 1) : Nat) : Int) := by
    unfold maxValue
    omega
  rw [sub, hroom, represent_natCast, if_pos (by omega)]

/-- From round `k` on, as many rounds as are left to the last index are enough, and none
    of their additions overflows. -/
theorem limitLoop_pair (hk : k < lastIndex (w - 1)) (rounds : Nat) :
    limitLoop w rounds (pair k)
      = if lastIndex (w - 1) ≤ k + rounds then .ok (Nat.fib (lastIndex (w - 1)) : Int)
        else .error .unfinished := by
  induction rounds generalizing k with
  | zero => rw [if_neg (by omega), limitLoop]
  | succ rounds ih =>
      have hfits : Nat.fib (k + 1) < 2 ^ (w - 1) := le_lastIndex.mp hk
      have htest : ((2 ^ (w - 1) - 1 - Nat.fib (k + 1) : Nat) : Int) < Nat.fib k
          ↔ ¬ k + 2 ≤ lastIndex (w - 1) := by
        rw [le_lastIndex, Nat.fib_add_two]
        omega
      rw [limitLoop]
      show (sub w (maxValue w) (Nat.fib (k + 1)) >>= fun room =>
        if room < (Nat.fib k : Int) then pure (Nat.fib (k + 1) : Int)
        else (pair k).advance w >>= limitLoop w rounds) = _
      rw [sub_next hfits]
      show (if _ < (Nat.fib k : Int) then _ else _) = _
      by_cases hmore : k + 2 ≤ lastIndex (w - 1)
      · rw [if_neg fun hlt => htest.mp hlt hmore, advance_pair,
          if_pos (le_lastIndex.mp hmore)]
        show limitLoop w rounds (pair (k + 1)) = _
        rw [ih hmore]
        simp only [Nat.add_assoc, Nat.add_comm 1 rounds]
      · obtain hlast : lastIndex (w - 1) = k + 1 := by omega
        rw [if_pos (htest.mpr hmore), if_pos (by omega), hlast]
        rfl

/-! ## `fibonacci_numbers` -/

/-- The numbers from `F k` on, `n` of them. -/
def fibs (k n : Nat) : List Int := (List.range' k n).map fun i => (Nat.fib i : Int)

theorem fibs_succ (k n : Nat) : fibs k (n + 1) = (Nat.fib k : Int) :: fibs (k + 1) n := rfl

/-- **The addition after the last but one number**: suspended at `F k`, the coroutine
    yields the rest of the numbers but the last one, and overflows. -/
theorem collect_yielding (hw : 3 ≤ w) (hk : k < lastIndex (w - 1))
    (hrounds : lastIndex (w - 1) ≤ k + rounds) :
    collect w (Nat.fib (lastIndex (w - 1))) rounds (.yielding (pair k))
      = (fibs (k + 1) (lastIndex (w - 1) - (k + 1)), .error .overflow) := by
  induction rounds generalizing k with
  | zero => omega
  | succ rounds ih =>
      have hgoes : ¬ (pair k).current = Nat.fib (lastIndex (w - 1)) := by
        show ¬ (Nat.fib k : Int) = _
        have hlt := fib_lt_last (w := w - 1) (by omega) hk
        omega
      rw [collect, Generator.resume, if_neg hgoes, advance_pair]
      by_cases hmore : k + 2 ≤ lastIndex (w - 1)
      · rw [if_pos (le_lastIndex.mp hmore)]
        show ((Nat.fib (k + 1) : Int) :: (collect w _ rounds (.yielding (pair (k + 1)))).1,
          (collect w _ rounds (.yielding (pair (k + 1)))).2) = _
        rw [ih hmore (by omega), ← fibs_succ]
        congr 2
        omega
      · have hlast : lastIndex (w - 1) - (k + 1) = 0 := by omega
        rw [if_neg fun hfits => hmore (le_lastIndex.mpr hfits), hlast]
        rfl

/-- `fibonacci_limit<T>()` and a full run of `fibonacci_numbers<T>()` of a signed type of
    width `w`: no operation leaves the range, and the run yields the representable
    Fibonacci numbers and ends. -/
structure Enumerates (w : Nat) : Prop where
  limit_exact : ∀ rounds, fibonacciLimit w rounds ≠ .error .overflow
  exact : ∀ rounds, (fibonacciNumbers w rounds).2 ≠ .error .overflow
  ends : ∃ rounds, fibonacciNumbers w rounds = (fibs 0 (lastIndex (w - 1) + 1), .ok ())

/-- What happens instead: the limit is found without an overflow, and after the last but
    one number the run overflows. -/
structure Overflows (w : Nat) : Prop where
  limit_exact : ∀ rounds, fibonacciLimit w rounds ≠ .error .overflow
  limit : ∀ rounds, lastIndex (w - 1) ≤ rounds →
    fibonacciLimit w rounds = .ok (Nat.fib (lastIndex (w - 1)) : Int)
  run : ∀ rounds, lastIndex (w - 1) < rounds →
    fibonacciNumbers w rounds = (fibs 0 (lastIndex (w - 1)), .error .overflow)

theorem overflows_of_width (hw : 3 ≤ w) : Overflows w := by
  have hlast : 0 < lastIndex (w - 1) := by
    have hfour : 2 ^ 2 ≤ 2 ^ (w - 1) := Nat.pow_le_pow_right (by decide) (by omega)
    exact le_lastIndex.mpr (Nat.lt_of_lt_of_le (by decide) hfour)
  have hlimit : ∀ rounds, lastIndex (w - 1) ≤ rounds →
      fibonacciLimit w rounds = .ok (Nat.fib (lastIndex (w - 1)) : Int) := by
    intro rounds hrounds
    exact (limitLoop_pair hlast rounds).trans (if_pos (by omega))
  refine ⟨?_, hlimit, ?_⟩
  · intro rounds hoverflow
    have hloop := (limitLoop_pair hlast rounds).symm.trans hoverflow
    split at hloop <;> cases hloop
  · intro rounds hrounds
    obtain ⟨rest, rfl⟩ : ∃ rest, rounds = rest + 1 := ⟨rounds - 1, by omega⟩
    rw [fibonacciNumbers, hlimit _ (by omega)]
    show (((Nat.fib 0 : Nat) : Int) :: (collect w _ rest (.yielding (pair 0))).1,
      (collect w _ rest (.yielding (pair 0))).2) = _
    rw [collect_yielding hw hlast (by omega), ← fibs_succ]
    congr 2
    omega

/-- **Every signed `T` overflows**, whatever its width. -/
theorem overflows (hw : 32 ≤ w) : Overflows w ∧ ¬ Enumerates w := by
  have h : Overflows w := overflows_of_width (by omega)
  refine ⟨h, fun henumerates => ?_⟩
  have hrun := h.run (lastIndex (w - 1) + 1) (Nat.lt_succ_self _)
  exact henumerates.exact _ (congrArg Prod.snd hrun)

/-- `int64_t` is such a type. -/
theorem overflows_int64 : 32 ≤ 64 ∧ Overflows 64 ∧ ¬ Enumerates 64 :=
  ⟨by decide, overflows (by decide)⟩

/-- On `int32_t` the run yields the numbers up to 1134903170, but not 1836311903, the
    limit: it adds the two. -/
theorem int32_overflows :
    fibonacciLimit 32 46 = .ok 1836311903
      ∧ add 32 1836311903 1134903170 = .error .overflow
      ∧ (fibonacciNumbers 32 48).1.getLast? = some 1134903170
      ∧ (fibonacciNumbers 32 48).2 = .error .overflow ∧ ¬ Enumerates 32 := by
  have hrun : (fibonacciNumbers 32 48).2 = .error .overflow := by decide
  exact ⟨by decide +kernel, by decide, by decide +kernel, hrun, fun h => h.exact 48 hrun⟩

end Fibonacci.Signed
