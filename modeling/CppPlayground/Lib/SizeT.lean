import Mathlib.Algebra.Group.Nat.Defs

/-! # `std::size_t` arithmetic

    Sums, products and differences of 64-bit unsigned integers, which wrap around. -/

namespace SizeT

/-- `a + b` -/
def add (a b : Nat) : Nat := (a + b) % 2 ^ 64

/-- `a * b` -/
def mul (a b : Nat) : Nat := (a * b) % 2 ^ 64

/-- `a - b` -/
def sub (a b : Nat) : Nat := (a + (2 ^ 64 - b % 2 ^ 64)) % 2 ^ 64

variable {a b : Nat}

theorem add_eq (h : a + b < 2 ^ 64) : add a b = a + b := Nat.mod_eq_of_lt h

theorem mul_eq (h : a * b < 2 ^ 64) : mul a b = a * b := Nat.mod_eq_of_lt h

theorem sub_eq (hle : b ≤ a) (h : a < 2 ^ 64) : sub a b = a - b := by
  rw [sub, Nat.mod_eq_of_lt (Nat.lt_of_le_of_lt hle h),
    show a + (2 ^ 64 - b) = a - b + 2 ^ 64 by omega, Nat.add_mod_right,
    Nat.mod_eq_of_lt (by omega)]

/-- `a + b - 1` is reduced once. -/
theorem sub_add_one (h : 0 < a + b) : sub (add a b) 1 = (a + b - 1) % 2 ^ 64 := by
  rw [sub, add, Nat.mod_add_mod,
    show a + b + (2 ^ 64 - 1 % 2 ^ 64) = a + b - 1 + 2 ^ 64 by omega, Nat.add_mod_right]

/-- A product of three factors is reduced once. -/
theorem mul_mul (a b c : Nat) : mul a (mul b c) = a * (b * c) % 2 ^ 64 := Nat.mul_mod_mod _ _ _

end SizeT
