import Mathlib.Algebra.BigOperators.Group.Finset.Piecewise
import Mathlib.Algebra.Order.BigOperators.Group.Finset
import Mathlib.Combinatorics.Enumerative.DoubleCounting

/-! # Counting over threads

    Finitely many threads, each at a program point.  `total f pc` adds up `f` over all of
    them and `number P pc` counts those whose program point satisfies `P`.  A step of one
    thread changes both by what it changes there (`total_update`, `number_update`), which
    is all an invariant that counts threads needs to know about the others. -/

namespace Threads

open Finset

variable {I P M : Type} [Fintype I] {pc : I → P} {t : I} {p : P}

section Total

variable [AddCommMonoid M]

/-- The sum over all threads. -/
def total (f : P → M) (pc : I → P) : M := ∑ t, f (pc t)

theorem total_eq_zero {f : P → M} (h : ∀ t, f (pc t) = 0) : total f pc = 0 :=
  Finset.sum_eq_zero fun t _ => h t

variable [DecidableEq I]

/-- A step of one thread. -/
theorem total_update (f : P → M) (pc : I → P) (t : I) (p : P) :
    total f (Function.update pc t p) + f (pc t) = total f pc + f p := by
  have hsame : ∀ u ∈ univ.erase t, f (Function.update pc t p u) = f (pc u) := fun u hu =>
    congrArg f (Function.update_of_ne (Finset.ne_of_mem_erase hu) p pc)
  rw [total, total, ← Finset.add_sum_erase univ _ (Finset.mem_univ t),
    ← Finset.add_sum_erase univ (fun u => f (pc u)) (Finset.mem_univ t),
    Finset.sum_congr rfl hsame, Function.update_self]
  simp only [add_comm, add_left_comm]

/-- A step of one thread to a point of less weight. -/
theorem total_update_lt {f : P → Nat} (h : f p < f (pc t)) :
    total f (Function.update pc t p) < total f pc := by
  have := total_update f pc t p
  omega

end Total

/-- How many threads are at a program point with `P`. -/
def number (Q : P → Bool) (pc : I → P) : Nat := total (fun p => (Q p).toNat) pc

theorem number_pos_iff {Q : P → Bool} : 0 < number Q pc ↔ ∃ t, Q (pc t) = true := by
  rw [number, total, Finset.sum_pos_iff]
  constructor
  · rintro ⟨t, -, ht⟩
    refine ⟨t, ?_⟩
    cases hq : Q (pc t) with
    | true => rfl
    | false =>
        rw [hq] at ht
        exact absurd ht (Nat.lt_irrefl 0)
  · rintro ⟨t, ht⟩
    refine ⟨t, Finset.mem_univ t, ?_⟩
    rw [ht]
    exact Nat.one_pos

theorem number_eq_zero_iff {Q : P → Bool} : number Q pc = 0 ↔ ∀ t, Q (pc t) = false := by
  constructor
  · intro h t
    by_contra hne
    have := number_pos_iff.mpr ⟨t, Bool.eq_true_of_not_eq_false hne⟩
    omega
  · intro h
    exact total_eq_zero fun t => by rw [h t]; rfl

theorem number_eq_card (Q : P → Bool) (pc : I → P) :
    number Q pc = (univ.filter fun t => Q (pc t) = true).card := by
  rw [Finset.card_filter]
  refine Finset.sum_congr rfl ?_
  intro t _
  show (Q (pc t)).toNat = _
  cases Q (pc t) <;> rfl

/-- A thread that is not counted. -/
theorem number_lt_card {Q : P → Bool} (ht : Q (pc t) = false) :
    number Q pc < Fintype.card I := by
  rw [number_eq_card]
  refine Finset.card_lt_univ_of_notMem (x := t) ?_
  intro hmem
  rw [(Finset.mem_filter.mp hmem).2] at ht
  exact absurd ht.symm Bool.false_ne_true

/-- Steps of any threads between points that agree on `Q`. -/
theorem number_congr {Q : P → Bool} {pc' : I → P} (h : ∀ t, Q (pc' t) = Q (pc t)) :
    number Q pc' = number Q pc :=
  Finset.sum_congr rfl fun t _ => congrArg Bool.toNat (h t)

/-- Two threads with `Q`, counted once, are one thread. -/
theorem eq_of_number_le_one {Q : P → Bool} (h : number Q pc ≤ 1) {t u : I}
    (ht : Q (pc t) = true) (hu : Q (pc u) = true) : t = u := by
  rw [number_eq_card] at h
  exact Finset.card_le_one.mp h t (Finset.mem_filter.mpr ⟨Finset.mem_univ t, ht⟩) u
    (Finset.mem_filter.mpr ⟨Finset.mem_univ u, hu⟩)

/-- Every thread with `Q` has a `j` with `R` of its own, and one `j₀` is nobody's: there
    are more of the second kind. -/
theorem number_lt_number {J V : Type} [Fintype J] [DecidableEq J] {Q : P → Bool} {R : V → Bool}
    {val : J → V} (has : I → J → Prop)
    (hhas : ∀ t, Q (pc t) = true → ∃ j, R (val j) = true ∧ has t j)
    (hown : ∀ t u j, has t j → has u j → t = u) {j₀ : J} (hj₀ : R (val j₀) = true)
    (hfree : ∀ t, ¬ has t j₀) : number Q pc < number R val := by
  have hle : (univ.filter fun t => Q (pc t) = true).card
      ≤ ((univ.filter fun j => R (val j) = true).erase j₀).card := by
    refine Finset.card_le_card_of_forall_subsingleton has ?_ ?_
    · intro t ht
      obtain ⟨j, hR, hj⟩ := hhas t (Finset.mem_filter.mp ht).2
      have hne : j ≠ j₀ := fun heq => hfree t (heq ▸ hj)
      exact ⟨j, Finset.mem_erase.mpr ⟨hne, Finset.mem_filter.mpr ⟨Finset.mem_univ j, hR⟩⟩, hj⟩
    · intro j _ t ht u hu
      exact hown t u j ht.2 hu.2
  rw [number_eq_card, number_eq_card]
  have hmem : j₀ ∈ univ.filter fun j => R (val j) = true :=
    Finset.mem_filter.mpr ⟨Finset.mem_univ j₀, hj₀⟩
  exact Nat.lt_of_le_of_lt hle (Finset.card_erase_lt_of_mem hmem)

variable [DecidableEq I]

/-- A step of one thread. -/
theorem number_update (Q : P → Bool) (pc : I → P) (t : I) (p : P) :
    number Q (Function.update pc t p) + (Q (pc t)).toNat = number Q pc + (Q p).toNat :=
  total_update _ pc t p

/-- A step between points that agree on `Q`. -/
theorem number_update_same {Q : P → Bool} (h : Q (pc t) = Q p) :
    number Q (Function.update pc t p) = number Q pc := by
  have := number_update Q pc t p
  rw [h] at this
  exact Nat.add_right_cancel this

/-- A step to a point with `Q`. -/
theorem number_update_enter {Q : P → Bool} (hold : Q (pc t) = false) (hnew : Q p = true) :
    number Q (Function.update pc t p) = number Q pc + 1 := by
  have := number_update Q pc t p
  rw [hold, hnew] at this
  exact this

/-- A step from a point with `Q`. -/
theorem number_update_leave {Q : P → Bool} (hold : Q (pc t) = true) (hnew : Q p = false) :
    number Q (Function.update pc t p) + 1 = number Q pc := by
  have := number_update Q pc t p
  rw [hold, hnew] at this
  exact this

end Threads
