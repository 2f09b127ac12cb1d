import Mathlib.Data.Nat.Fib.Basic

/-! # Greatest common divisors by repeated division

    `Unfolds k a b g` says that `k` division steps lead from the pair `(a, b)` to
    `(g, 0)`.  There is such a `k` for every pair, `g` is the greatest common divisor, and
    the arguments of many steps are large: Fibonacci numbers are the smallest
    (`Unfolds.fib_le`). -/

namespace Division

/-- `k` steps from `(a, b)` to `(b, a % b)` end in `(g, 0)`. -/
inductive Unfolds : Nat → Nat → Nat → Nat → Prop where
  | stop (a : Nat) : Unfolds 0 a 0 a
  | step {k a b g : Nat} : 0 < b → Unfolds k b (a % b) g → Unfolds (k + 1) a b g

variable {k a b g : Nat}

/-- Every pair unfolds, because the second argument decreases. -/
theorem exists_unfolds (a b : Nat) : ∃ k, Unfolds k a b (Nat.gcd a b) := by
  induction b using Nat.strong_induction_on generalizing a with
  | _ b ih =>
      rcases Nat.eq_zero_or_pos b with rfl | hb
      · rw [Nat.gcd_zero_right]
        exact ⟨0, .stop a⟩
      · obtain ⟨k, hk⟩ := ih (a % b) (Nat.mod_lt a hb) b
        rw [Nat.gcd_comm a b, Nat.gcd_rec b a, Nat.gcd_comm (a % b) b]
        exact ⟨k + 1, .step hb hk⟩

theorem Unfolds.gcd_eq (h : Unfolds k a b g) : g = Nat.gcd a b := by
  induction h with
  | stop a => exact (Nat.gcd_zero_right a).symm
  | @step k a b g _ _ ih =>
      rw [ih, Nat.gcd_comm a b, Nat.gcd_rec b a, Nat.gcd_comm]

/-- A step from the larger to the smaller number subtracts at least once. -/
theorem add_mod_le (hlt : b < a) : b + a % b ≤ a := by
  rcases Nat.eq_zero_or_pos b with rfl | hb
  · rw [Nat.zero_add, Nat.mod_zero]
  · have hquotient : 0 < a / b := Nat.div_pos (Nat.le_of_lt hlt) hb
    calc b + a % b
        ≤ b * (a / b) + a % b := Nat.add_le_add_right (Nat.le_mul_of_pos_right b hquotient) _
      _ = a := Nat.div_add_mod a b

/-- **Many steps need large numbers**, both of a pair in order. -/
theorem Unfolds.fib_le_both (h : Unfolds k a b g) (hk : 0 < k) (hlt : b < a) :
    Nat.fib (k + 1) ≤ b ∧ Nat.fib (k + 2) ≤ a := by
  induction h with
  | stop a => exact absurd hk (Nat.lt_irrefl 0)
  | @step k a b g hb hrest ih =>
      cases k with
      | zero => exact ⟨hb, Nat.lt_of_le_of_lt hb hlt⟩
      | succ k =>
          obtain ⟨hmod, hb'⟩ := ih (Nat.succ_pos k) (Nat.mod_lt a hb)
          refine ⟨hb', ?_⟩
          calc Nat.fib (k + 1 + 1 + 2) = Nat.fib (k + 1 + 1) + Nat.fib (k + 1 + 2) :=
                Nat.fib_add_two
            _ ≤ a % b + b := Nat.add_le_add hmod hb'
            _ ≤ a := (Nat.add_comm _ _).trans_le (add_mod_le hlt)

/-- **Many steps need a large second argument**, whatever the first one is. -/
theorem Unfolds.fib_le (h : Unfolds (k + 1) a b g) : Nat.fib (k + 2) ≤ b := by
  cases h with
  | step hb hrest =>
      rcases Nat.eq_zero_or_pos k with rfl | hk
      · exact hb
      · exact (hrest.fib_le_both hk (Nat.mod_lt a hb)).2

/-- Below a Fibonacci number the steps are bounded by its index. -/
theorem Unfolds.le_of_lt_fib {n : Nat} (h : Unfolds k a b g) (hb : b < Nat.fib (n + 2)) :
    k ≤ n := by
  cases k with
  | zero => exact Nat.zero_le n
  | succ k =>
      by_contra hmany
      have hmono : Nat.fib (n + 2) ≤ Nat.fib (k + 2) := Nat.fib_mono (by omega)
      exact absurd (Nat.lt_of_lt_of_le hb hmono) (Nat.not_lt.mpr h.fib_le)

end Division
