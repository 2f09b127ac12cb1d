import CppPlayground.CompileTimeGcd.Model

/-! # `compile_time_gcd` is the greatest common divisor

    An instantiation follows the unfoldings of the repeated division, of which there are at
    most 92 for 64-bit arguments.  The signed variant negates its arguments before it
    converts them, which the smallest `int64_t` does not survive. -/

namespace CompileTimeGcd

open Division

variable {depth : Nat}

/-! ## Unsigned arguments -/

theorem toNat_eq_zero {a : UInt64} : a.toNat = 0 ↔ a = 0 := UInt64.toNat_inj (b := 0)

/-- The instantiation takes the steps of the unfolding, and no remainder is by `0`. -/
theorem compileTimeGcd_of_unfolds {k g : Nat} {a b : UInt64} (h : Unfolds k a.toNat b.toNat g)
    (hk : k ≤ depth) : ∃ value, compileTimeGcd depth a b = .ok value ∧ value.toNat = g := by
  induction depth generalizing k a b with
  | zero =>
      obtain rfl : k = 0 := Nat.le_zero.mp hk
      rw [compileTimeGcd]
      generalize hb : b.toNat = m at h
      cases h with
      | stop =>
          rw [if_pos (toNat_eq_zero.mp hb)]
          exact ⟨a, rfl, rfl⟩
  | succ depth ih =>
      rw [compileTimeGcd]
      by_cases hzero : b = 0
      · rw [if_pos hzero]
        subst hzero
        refine ⟨a, rfl, ?_⟩
        rw [h.gcd_eq]
        exact (Nat.gcd_zero_right _).symm
      · rw [if_neg hzero, remainder, if_neg hzero]
        cases k with
        | zero =>
            generalize hb : b.toNat = m at h
            cases h
            exact absurd (toNat_eq_zero.mp hb) hzero
        | succ k =>
            cases h with
            | step _ hrest =>
                rw [← UInt64.toNat_mod] at hrest
                exact ih hrest (Nat.le_of_succ_le_succ hk)

theorem word_lt_fib : 2 ^ 64 < Nat.fib 94 := by decide

/-- **Every instantiation ends** within 92 unfoldings, with the greatest common divisor. -/
theorem compileTimeGcd_eq (hdepth : 92 ≤ depth) (a b : UInt64) :
    ∃ g, compileTimeGcd depth a b = .ok g ∧ g.toNat = Nat.gcd a.toNat b.toNat := by
  obtain ⟨k, hk⟩ := exists_unfolds a.toNat b.toNat
  have hsmall : b.toNat < Nat.fib (92 + 2) := Nat.lt_trans b.toNat_lt word_lt_fib
  exact compileTimeGcd_of_unfolds hk (Nat.le_trans (hk.le_of_lt_fib hsmall) hdepth)

/-- **`compile_time_gcd` is the greatest common divisor**, for all 64-bit arguments and
    within 92 unfoldings. -/
theorem compileTimeGcd_correct (a b : UInt64) :
    ∃ g, compileTimeGcd 92 a b = .ok g ∧ g.toNat ∣ a.toNat ∧ g.toNat ∣ b.toNat
      ∧ (∀ d, d ∣ a.toNat → d ∣ b.toNat → d ∣ g.toNat) ∧ (g = 0 ↔ a = 0 ∧ b = 0) := by
  obtain ⟨g, hok, hgcd⟩ := compileTimeGcd_eq (Nat.le_refl 92) a b
  refine ⟨g, hok, ?_, ?_, ?_, ?_⟩
  · exact hgcd ▸ Nat.gcd_dvd_left _ _
  · exact hgcd ▸ Nat.gcd_dvd_right _ _
  · intro d hda hdb
    exact hgcd ▸ Nat.dvd_gcd hda hdb
  · rw [← toNat_eq_zero, ← toNat_eq_zero, ← toNat_eq_zero, hgcd, Nat.gcd_eq_zero_iff]

/-! ## Signed arguments -/

/-- `compile_time_gcd_signed<a, b>` is defined, wherever the compiler goes deep enough, and
    is the greatest common divisor of the absolute values. -/
structure SignedGcd (a b : Int64) : Prop where
  value : ∀ depth, 92 ≤ depth → ∃ g, compileTimeGcdSigned depth a b = .ok g
    ∧ g.toNat = Nat.gcd a.toInt.natAbs b.toInt.natAbs
  comm : ∀ depth, 92 ≤ depth → compileTimeGcdSigned depth b a = compileTimeGcdSigned depth a b
  signs : ∀ depth, 92 ≤ depth → ∀ a' b' : Int64, a'.toInt.natAbs = a.toInt.natAbs →
    b'.toInt.natAbs = b.toInt.natAbs →
    compileTimeGcdSigned depth a' b' = compileTimeGcdSigned depth a b

/-- The conversion of a number that is not negative. -/
theorem toNat_toUInt64 {a : Int64} (ha : 0 ≤ a.toInt) : a.toUInt64.toNat = a.toInt.natAbs := by
  have hle : 0 ≤ a := Int64.le_iff_toInt_le.mpr ha
  rw [Int64.toNat_toUInt64_of_le hle, ← Int64.toNat_toInt]
  omega

/-- Only the smallest number has no negative. -/
theorem toInt_neg {a : Int64} (ha : a ≠ Int64.minValue) : (-a).toInt = -a.toInt := by
  have hlow := a.le_toInt
  have hhigh := a.toInt_lt
  have hne : a.toInt ≠ -2 ^ 63 := fun h => ha (Int64.toInt_inj.mp h)
  rw [Int64.toInt_neg]
  exact Int.bmod_eq_of_le_mul_two (by omega) (by omega)

/-- The magnitude of an argument, as the code computes it. -/
def magnitude (a : Int64) : Except Error Int64 := if a < 0 then negate a else .ok a

theorem magnitude_ok {a : Int64} (ha : a ≠ Int64.minValue) :
    ∃ m, magnitude a = .ok m ∧ m.toUInt64.toNat = a.toInt.natAbs := by
  rw [magnitude]
  by_cases hneg : a < 0
  · have hlt : a.toInt < 0 := Int64.lt_iff_toInt_lt.mp hneg
    rw [if_pos hneg, negate, if_neg ha]
    refine ⟨-a, rfl, ?_⟩
    rw [toNat_toUInt64 (by rw [toInt_neg ha]; omega), toInt_neg ha, Int.natAbs_neg]
  · have hle : 0 ≤ a.toInt := Int.not_lt.mp fun hlt => hneg (Int64.lt_iff_toInt_lt.mpr hlt)
    rw [if_neg hneg]
    exact ⟨a, rfl, toNat_toUInt64 hle⟩

theorem instantiateAll_ok_iff (rs : List (Except Error UInt64)) :
    instantiateAll rs = .ok () ↔ ∀ r ∈ rs, ∃ g, r = .ok g := by
  induction rs with
  | nil => simp [instantiateAll]
  | cons r rest ih =>
      rw [List.forall_mem_cons, ← ih, instantiateAll]
      cases r with
      | error e => simp [bind, Except.bind]
      | ok g => simp [bind, Except.bind]

/-- A call returns exactly if every `return` statement can be instantiated, and then what
    the first of them returns. -/
theorem callFunction_ok_iff {executed : Except Error UInt64} {rest : List (Except Error UInt64)}
    {value : UInt64} : callFunction (executed :: rest) = .ok value
      ↔ executed = .ok value ∧ ∀ r ∈ rest, ∃ g, r = .ok g := by
  rw [← instantiateAll_ok_iff, callFunction]
  cases executed with
  | error e => simp [bind, Except.bind]
  | ok g =>
      cases hrest : instantiateAll rest with
      | error e => simp [bind, Except.bind]
      | ok u => simp [bind, Except.bind, pure, Except.pure]

/-- The first `return` statement is about the magnitudes, the others about numbers that
    are magnitudes or have been converted as they are. -/
theorem returns_eq (depth : Nat) (a b : Int64) :
    ∃ rest, returns depth a b = returnGcd depth (magnitude a) (magnitude b) :: rest
      ∧ ∀ r ∈ rest, ∃ x ∈ [magnitude a, .ok a], ∃ y ∈ [magnitude b, .ok b],
        r = returnGcd depth x y := by
  rw [returns, magnitude, magnitude]
  by_cases ha : a < 0 <;> by_cases hb : b < 0
  · simp only [ha, hb, if_true]
    refine ⟨_, rfl, ?_⟩
    simp
  · simp only [ha, hb, if_true, if_false]
    refine ⟨_, rfl, ?_⟩
    simp
  · simp only [ha, hb, if_true, if_false]
    refine ⟨_, rfl, ?_⟩
    simp
  · simp only [ha, hb, if_false]
    exact ⟨_, rfl, by simp⟩

theorem returnGcd_ok {depth : Nat} (hdepth : 92 ≤ depth) (a b : Int64) :
    ∃ g, returnGcd depth (.ok a) (.ok b) = .ok g
      ∧ g.toNat = Nat.gcd a.toUInt64.toNat b.toUInt64.toNat :=
  compileTimeGcd_eq hdepth a.toUInt64 b.toUInt64

/-- **Away from the smallest number** the call returns. -/
theorem signed_ok {a b : Int64} (ha : a ≠ Int64.minValue) (hb : b ≠ Int64.minValue)
    (hdepth : 92 ≤ depth) : ∃ g, compileTimeGcdSigned depth a b = .ok g
      ∧ g.toNat = Nat.gcd a.toInt.natAbs b.toInt.natAbs := by
  obtain ⟨m, hm, hmNat⟩ := magnitude_ok ha
  obtain ⟨n, hn, hnNat⟩ := magnitude_ok hb
  obtain ⟨g, hg, hgcd⟩ := returnGcd_ok hdepth m n
  obtain ⟨rest, hreturns, hrest⟩ := returns_eq depth a b
  rw [hm, hn] at hreturns hrest
  refine ⟨g, ?_, by rw [hgcd, hmNat, hnNat]⟩
  rw [compileTimeGcdSigned, handleGcdSigns, hreturns, callFunction_ok_iff]
  refine ⟨hg, ?_⟩
  intro r hr
  have hok : ∀ {c : Int64} {x : Except Error Int64} {k : Int64}, x ∈ [.ok k, .ok c] →
      ∃ d, x = .ok d := by
    intro c x k hx
    rcases List.mem_pair.mp hx with rfl | rfl <;> exact ⟨_, rfl⟩
  obtain ⟨x, hx, y, hy, rfl⟩ := hrest r hr
  obtain ⟨c, rfl⟩ := hok hx
  obtain ⟨d, rfl⟩ := hok hy
  obtain ⟨g', hg', -⟩ := returnGcd_ok hdepth c d
  exact ⟨g', hg'⟩

/-- **At the smallest number** it does not. -/
theorem signed_overflows {a b : Int64} (h : a = Int64.minValue ∨ b = Int64.minValue)
    (g : UInt64) : compileTimeGcdSigned depth a b ≠ .ok g := by
  intro hok
  obtain ⟨rest, hreturns, -⟩ := returns_eq depth a b
  rw [compileTimeGcdSigned, handleGcdSigns, hreturns, callFunction_ok_iff] at hok
  have hmin : magnitude Int64.minValue = .error .signedOverflow := by decide
  have hexecuted := hok.1
  rcases h with rfl | rfl
  · rw [hmin] at hexecuted
    cases hexecuted
  · rw [hmin, returnGcd] at hexecuted
    cases hm : magnitude a with
    | error e => rw [hm] at hexecuted; cases hexecuted
    | ok m => rw [hm] at hexecuted; cases hexecuted

/-- **`compile_time_gcd_signed` is correct** exactly if neither argument is the smallest
    `int64_t`. -/
theorem signedGcd_iff (a b : Int64) :
    SignedGcd a b ↔ a ≠ Int64.minValue ∧ b ≠ Int64.minValue := by
  constructor
  · intro h
    obtain ⟨g, hok, -⟩ := h.value 92 (Nat.le_refl 92)
    exact ⟨fun ha => signed_overflows (Or.inl ha) g hok,
      fun hb => signed_overflows (Or.inr hb) g hok⟩
  · rintro ⟨ha, hb⟩
    have hmin : ∀ {c d : Int64}, c ≠ Int64.minValue → d.toInt.natAbs = c.toInt.natAbs →
        d ≠ Int64.minValue := by
      rintro c d hc habs rfl
      have hlow := c.le_toInt
      have hhigh := c.toInt_lt
      have hne : c.toInt ≠ -2 ^ 63 := fun h => hc (Int64.toInt_inj.mp h)
      have hvalue : Int64.minValue.toInt = -2 ^ 63 := rfl
      omega
    -- the result is determined by the greatest common divisor
    have hsame : ∀ depth, 92 ≤ depth → ∀ a' b' : Int64, a' ≠ Int64.minValue →
        b' ≠ Int64.minValue →
        Nat.gcd a'.toInt.natAbs b'.toInt.natAbs = Nat.gcd a.toInt.natAbs b.toInt.natAbs →
        compileTimeGcdSigned depth a' b' = compileTimeGcdSigned depth a b := by
      intro depth hdepth a' b' ha' hb' hgcd
      obtain ⟨g, hg, hgNat⟩ := signed_ok ha hb hdepth
      obtain ⟨g', hg', hg'Nat⟩ := signed_ok ha' hb' hdepth
      rw [hg, hg', UInt64.toNat_inj.mp (hg'Nat.trans (hgcd.trans hgNat.symm))]
    refine ⟨fun depth hdepth => signed_ok ha hb hdepth, ?_, ?_⟩
    · intro depth hdepth
      exact hsame depth hdepth b a hb ha (Nat.gcd_comm _ _)
    · intro depth hdepth a' b' ha' hb'
      exact hsame depth hdepth a' b' (hmin ha ha') (hmin hb hb') (by rw [ha', hb'])

/-- `-a` overflows for the smallest `int64_t`, whose magnitude `2 ^ 63` is a `uint64_t`. -/
theorem minValue_overflows :
    compileTimeGcdSigned 92 Int64.minValue 1 = .error .signedOverflow
      ∧ compileTimeGcdSigned 92 1 Int64.minValue = .error .signedOverflow
      ∧ ¬ SignedGcd Int64.minValue 1 ∧ ¬ SignedGcd 1 Int64.minValue := by
  refine ⟨by decide, by decide, ?_, ?_⟩
  · intro h
    obtain ⟨g, hok, -⟩ := h.value 92 (Nat.le_refl 92)
    exact signed_overflows (Or.inl rfl) g hok
  · intro h
    obtain ⟨g, hok, -⟩ := h.value 92 (Nat.le_refl 92)
    exact signed_overflows (Or.inr rfl) g hok

end CompileTimeGcd
