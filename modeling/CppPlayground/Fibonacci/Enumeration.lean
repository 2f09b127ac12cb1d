import Mathlib.Data.Nat.Fib.Zeckendorf
import CppPlayground.Fibonacci.Model

/-! # `fibonacci_numbers` enumerates the representable Fibonacci numbers

    After `k` rounds both functions hold `F k` and `F (k + 1)`, as long as `F (k + 1)` is
    representable.  The test of `fibonacci_limit` asks for `F (k + 2)`; the generator goes
    one round further and computes a `next` that has wrapped, but stops before it would
    yield it. -/

namespace Fibonacci

variable {w k : Nat}

/-- `x` is the Fibonacci number `F k`, from additions none of which has wrapped. -/
structure IsFib (x : Number w) (k : Nat) : Prop where
  value : x.value.toNat = Nat.fib k
  exact : x.wrapped = false

theorem IsFib.unique {x y : Number w} (hx : IsFib x k) (hy : IsFib y k) : x = y := by
  obtain ⟨xValue, xWrapped⟩ := x
  obtain ⟨yValue, yWrapped⟩ := y
  obtain rfl : xValue = yValue := BitVec.eq_of_toNat_eq (hx.value.trans hy.value.symm)
  obtain rfl : xWrapped = yWrapped := hx.exact.trans hy.exact.symm
  rfl

/-- A sum that is representable is exact. -/
theorem IsFib.add {a b : Number w} (ha : IsFib a (k + 1)) (hb : IsFib b k)
    (hfits : Nat.fib (k + 2) < 2 ^ w) : IsFib (a.add b) (k + 2) := by
  have hsum : a.value.toNat + b.value.toNat = Nat.fib (k + 2) := by
    rw [ha.value, hb.value, Nat.fib_add_two, Nat.add_comm]
  constructor
  · show (a.value + b.value).toNat = Nat.fib (k + 2)
    rw [BitVec.toNat_add, hsum, Nat.mod_eq_of_lt hfits]
  · show (a.wrapped || b.wrapped || decide (2 ^ w ≤ a.value.toNat + b.value.toNat)) = false
    rw [ha.exact, hb.exact, hsum, decide_eq_false (Nat.not_le.mpr hfits)]
    rfl

/-- The variables after `k` rounds. -/
def pair (w k : Nat) : Pair w := Pair.advance^[k] (Pair.start w)

theorem pair_succ (w k : Nat) : pair w (k + 1) = (pair w k).advance :=
  Function.iterate_succ_apply' _ _ _

/-- **The loop invariant** of both functions. -/
theorem isFib_pair (hw : 1 ≤ w) (hfits : Nat.fib (k + 1) < 2 ^ w) :
    IsFib (pair w k).current k ∧ IsFib (pair w k).next (k + 1) := by
  induction k with
  | zero =>
      refine ⟨⟨rfl, rfl⟩, ?_, rfl⟩
      exact BitVec.toNat_one hw
  | succ k ih =>
      obtain ⟨hcurrent, hnext⟩ := ih (Nat.lt_of_le_of_lt Nat.fib_le_fib_succ hfits)
      rw [pair_succ]
      exact ⟨hnext, hnext.add hcurrent hfits⟩

/-! ## `fibonacci_limit` -/

/-- The index of the largest representable Fibonacci number. -/
def lastIndex (w : Nat) : Nat := Nat.greatestFib (2 ^ w - 1)

theorem le_lastIndex : k ≤ lastIndex w ↔ Nat.fib k < 2 ^ w := by
  have hpos := Nat.two_pow_pos w
  rw [lastIndex, Nat.le_greatestFib]
  omega

/-- The test of the loop asks whether the number after `next` is representable. -/
theorem limit_test (hw : 1 ≤ w) (hfits : Nat.fib (k + 1) < 2 ^ w) :
    BitVec.allOnes w - (pair w k).next.value < (pair w k).current.value
      ↔ 2 ^ w ≤ Nat.fib (k + 2) := by
  obtain ⟨hcurrent, hnext⟩ := isFib_pair hw hfits
  have hle : (pair w k).next.value ≤ BitVec.allOnes w := by
    rw [BitVec.le_def, BitVec.toNat_allOnes, hnext.value]
    omega
  rw [BitVec.lt_def, BitVec.toNat_sub_of_le hle, BitVec.toNat_allOnes, hnext.value,
    hcurrent.value, Nat.fib_add_two]
  omega

/-- From round `k` on, as many rounds as are left to the last index are enough. -/
theorem limitLoop_pair (hw : 1 ≤ w) {rounds : Nat} (hk : k < lastIndex w)
    (hrounds : lastIndex w ≤ k + rounds) :
    ∃ limit, limitLoop rounds (pair w k) = some limit ∧ IsFib limit (lastIndex w) := by
  induction rounds generalizing k with
  | zero => omega
  | succ rounds ih =>
      have hfits : Nat.fib (k + 1) < 2 ^ w := le_lastIndex.mp hk
      rw [limitLoop]
      by_cases hlast : k + 1 = lastIndex w
      · have hnot : ¬ Nat.fib (k + 2) < 2 ^ w := by
          rw [← le_lastIndex]
          omega
        rw [if_pos ((limit_test hw hfits).mpr (Nat.not_lt.mp hnot))]
        exact ⟨_, rfl, hlast ▸ (isFib_pair hw hfits).2⟩
      · have hmore : Nat.fib (k + 2) < 2 ^ w := le_lastIndex.mp (by omega)
        rw [if_neg fun htest => Nat.not_le.mpr hmore ((limit_test hw hfits).mp htest),
          ← pair_succ]
        exact ih (by omega) (by omega)

/-! ## `fibonacci_numbers` -/

/-- Of two numbers of the enumeration the last is the larger one. -/
theorem fib_lt_last (hw : 2 ≤ w) (hk : k < lastIndex w) :
    Nat.fib k < Nat.fib (lastIndex w) := by
  have hfour : 2 ^ 2 ≤ 2 ^ w := Nat.pow_le_pow_right (by decide) hw
  -- three is representable, so the last index is past the two indices of `1`
  have hthree : 4 ≤ lastIndex w := le_lastIndex.mpr (Nat.lt_of_lt_of_le (by decide) hfour)
  obtain ⟨last, hlast⟩ : ∃ last, lastIndex w = last + 1 := ⟨lastIndex w - 1, by omega⟩
  rw [hlast] at hk ⊢
  exact Nat.lt_of_le_of_lt (Nat.fib_mono (Nat.le_of_lt_succ hk))
    (Nat.fib_lt_fib_succ (by omega))

section Generator

variable {limit : Number w}

theorem after_succ (limit : BitVec w) (n : Nat) :
    Generator.after limit (n + 1) = ((Generator.after limit n).resume limit).2 :=
  Function.iterate_succ_apply' _ _ _

/-- The current number of a round up to the last one. -/
theorem isFib_current (hw : 1 ≤ w) (hk : k ≤ lastIndex w) : IsFib (pair w k).current k := by
  cases k with
  | zero => exact ⟨rfl, rfl⟩
  | succ k =>
      rw [pair_succ]
      exact (isFib_pair hw (le_lastIndex.mp hk)).2

/-- Until the limit is reached the coroutine is in step with the rounds. -/
theorem after_eq (hw : 2 ≤ w) (hlimit : IsFib limit (lastIndex w)) (hk : k ≤ lastIndex w) :
    Generator.after limit.value (k + 1) = .yielding (pair w k)
      ∧ fibonacciNumbers limit.value k = some (pair w k).current := by
  induction k with
  | zero => exact ⟨rfl, rfl⟩
  | succ k ih =>
      obtain ⟨hafter, -⟩ := ih (Nat.le_of_succ_le hk)
      have hgoes : ¬ (pair w k).current.value = limit.value := by
        intro heq
        have hvalue := (isFib_current (by omega) (Nat.le_of_succ_le hk)).value
        rw [heq, hlimit.value] at hvalue
        exact absurd hvalue (Nat.ne_of_gt (fib_lt_last hw hk))
      rw [after_succ, fibonacciNumbers, hafter, Generator.resume, if_neg hgoes, ← pair_succ]
      exact ⟨rfl, rfl⟩

/-- The resumption after that ends the coroutine. -/
theorem after_last (hw : 2 ≤ w) (hlimit : IsFib limit (lastIndex w)) :
    Generator.after limit.value (lastIndex w + 2) = .done
      ∧ fibonacciNumbers limit.value (lastIndex w + 1) = none := by
  have hcurrent := isFib_current (w := w) (by omega) (Nat.le_refl _)
  have hstops : (pair w (lastIndex w)).current.value = limit.value :=
    BitVec.eq_of_toNat_eq (hcurrent.value.trans hlimit.value.symm)
  rw [after_succ, fibonacciNumbers, (after_eq hw hlimit (Nat.le_refl _)).1, Generator.resume,
    if_pos hstops]
  exact ⟨rfl, rfl⟩

end Generator

/-- `fibonacci_limit<T>()` and `fibonacci_numbers<T>()` of an unsigned type of width `w`. -/
structure Enumerates (w : Nat) (limit : Number w) : Prop where
  terminates : ∀ rounds, lastIndex w ≤ rounds → fibonacciLimit w rounds = some limit
  representable : limit.value.toNat = Nat.fib (lastIndex w)
  largest : ∀ k, Nat.fib k ≤ 2 ^ w - 1 → Nat.fib k ≤ limit.value.toNat
  exact : limit.wrapped = false
  yields : ∀ k ≤ lastIndex w, ∃ x, fibonacciNumbers limit.value k = some x
    ∧ x.value.toNat = Nat.fib k ∧ x.wrapped = false
  once : ∀ k < lastIndex w, Nat.fib k ≠ limit.value.toNat
  ends : fibonacciNumbers limit.value (lastIndex w + 1) = none
    ∧ Generator.after limit.value (lastIndex w + 2) = .done

/-- **`fibonacci_numbers` enumerates exactly the representable Fibonacci numbers**, for
    every width of at least two. -/
theorem enumerates (hw : 2 ≤ w) : ∃ limit : Number w, Enumerates w limit := by
  have hpos : 0 < lastIndex w := by
    have hfour : 2 ^ 2 ≤ 2 ^ w := Nat.pow_le_pow_right (by decide) hw
    exact le_lastIndex.mpr (Nat.lt_of_lt_of_le (by decide) hfour)
  have hloop : ∀ rounds, lastIndex w ≤ rounds →
      ∃ limit, fibonacciLimit w rounds = some limit ∧ IsFib limit (lastIndex w) :=
    fun rounds hrounds => limitLoop_pair (k := 0) (by omega) hpos (by omega)
  obtain ⟨limit, -, hlimit⟩ := hloop _ (Nat.le_refl _)
  refine ⟨limit, ?_, hlimit.value, ?_, hlimit.exact, ?_, ?_, (after_last hw hlimit).2,
    (after_last hw hlimit).1⟩
  · intro rounds hrounds
    obtain ⟨limit', hreturns, hlimit'⟩ := hloop rounds hrounds
    rw [hreturns, hlimit'.unique hlimit]
  · intro k hk
    rw [hlimit.value]
    exact Nat.fib_mono (Nat.le_greatestFib.mpr hk)
  · intro k hk
    have hcurrent := isFib_current (by omega) hk
    exact ⟨_, (after_eq hw hlimit hk).2, hcurrent.value, hcurrent.exact⟩
  · intro k hk
    rw [hlimit.value]
    exact Nat.ne_of_lt (fib_lt_last hw hk)

/-- For `uint8_t` they are the numbers up to 233. -/
theorem enumerates_uint8 : ∃ limit : Number 8, Enumerates 8 limit ∧ limit.value = 233 := by
  obtain ⟨limit, h⟩ := enumerates (w := 8) (by decide)
  have hlast : lastIndex 8 ≤ 13 :=
    Nat.le_of_not_lt fun hlt => absurd (le_lastIndex.mp hlt) (by decide)
  have hlimit : some limit = some ⟨233, false⟩ := (h.terminates 13 hlast).symm.trans (by decide)
  exact ⟨limit, h, congrArg Number.value (Option.some.inj hlimit)⟩

end Fibonacci
