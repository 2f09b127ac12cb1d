import Mathlib.Data.Nat.Basic
import Mathlib.Algebra.Order.Ring.Nat

/-! # Byte-addressed memory

    Memory is a map from addresses to bytes.  `loadNat m a n` reads `n` bytes as a
    little-endian number, `storeNat` writes one, and `storeBytes` overwrites some of `n`
    bytes, each with a given value or not at all.  Loads see exactly the bytes they
    cover (`loadNat_congr`, `loadNat_inj`), stores change no others (the `_frame`
    lemmas), and a load of a store is the stored number (`loadNat_storeNat`). -/

namespace Bytes

/-- Addresses to bytes. -/
abbrev Memory : Type := Nat → UInt8

/-- The `n` bytes from `a` on, least significant first. -/
def loadNat (m : Memory) : Nat → Nat → Nat
  | _, 0 => 0
  | a, n + 1 => (m a).toNat + 256 * loadNat m (a + 1) n

/-- Byte `i` of a number. -/
def byteOf (w i : Nat) : UInt8 := UInt8.ofNat (w / 256 ^ i)

/-- Write the `n` low bytes of `w` from `a` on. -/
def storeNat (m : Memory) (a n w : Nat) : Memory := fun x =>
  if a ≤ x ∧ x < a + n then byteOf w (x - a) else m x

/-- Write the given bytes among the `n` from `a` on. -/
def storeBytes (m : Memory) (a n : Nat) (bytes : Nat → Option UInt8) : Memory := fun x =>
  if a ≤ x ∧ x < a + n then (bytes (x - a)).getD (m x) else m x

variable {m m' : Memory} {a n w x : Nat}

theorem storeNat_frame (hx : x < a ∨ a + n ≤ x) : storeNat m a n w x = m x :=
  if_neg (by omega)

theorem storeBytes_frame {bytes : Nat → Option UInt8} (hx : x < a ∨ a + n ≤ x) :
    storeBytes m a n bytes x = m x := if_neg (by omega)

/-- A load sees the bytes it covers, and no others. -/
theorem loadNat_congr (h : ∀ j < n, m (a + j) = m' (a + j)) :
    loadNat m a n = loadNat m' a n := by
  induction n generalizing a with
  | zero => rfl
  | succ n ih =>
      have hrest : loadNat m (a + 1) n = loadNat m' (a + 1) n := by
        refine ih ?_
        intro j hj
        rw [Nat.add_assoc, Nat.add_comm 1 j]
        exact h (j + 1) (Nat.succ_lt_succ hj)
      rw [loadNat, loadNat, hrest, show m a = m' a from h 0 (Nat.succ_pos n)]

/-- It sees all of them. -/
theorem loadNat_inj (h : loadNat m a n = loadNat m' a n) : ∀ j < n, m (a + j) = m' (a + j) := by
  induction n generalizing a with
  | zero => exact fun j hj => absurd hj (Nat.not_lt_zero j)
  | succ n ih =>
      rw [loadNat, loadNat] at h
      have h₁ : (m a).toNat < 256 := (m a).toNat_lt
      have h₂ : (m' a).toNat < 256 := (m' a).toNat_lt
      intro j hj
      cases j with
      | zero =>
          show m a = m' a
          exact UInt8.toNat_inj.mp (by omega)
      | succ j =>
          have := ih (a := a + 1) (by omega) j (Nat.lt_of_succ_lt_succ hj)
          rwa [Nat.add_assoc, Nat.add_comm 1 j] at this

/-- What was stored is loaded again. -/
theorem loadNat_storeNat (m : Memory) (a n : Nat) (hw : w < 256 ^ n) :
    loadNat (storeNat m a n w) a n = w := by
  -- the bytes still to be read hold what is left of `w`
  have hrec : ∀ (k i : Nat), k + i = n → loadNat (storeNat m a n w) (a + i) k = w / 256 ^ i := by
    intro k
    induction k with
    | zero =>
        intro i hi
        obtain rfl : i = n := by omega
        rw [loadNat, Nat.div_eq_of_lt hw]
    | succ k ih =>
        intro i hi
        have hbyte : storeNat m a n w (a + i) = byteOf w i := by
          rw [storeNat, if_pos (by omega), Nat.add_sub_cancel_left]
        have hrest : w / 256 ^ (i + 1) = w / 256 ^ i / 256 := by
          rw [Nat.pow_succ, Nat.div_div_eq_div_mul]
        rw [loadNat, hbyte, Nat.add_assoc, ih (i + 1) (by omega), byteOf, UInt8.toNat_ofNat',
          hrest]
        exact Nat.mod_add_div _ 256
  have := hrec n 0 rfl
  rwa [Nat.pow_zero, Nat.div_one] at this

end Bytes
