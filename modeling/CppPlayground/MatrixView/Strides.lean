import Mathlib.Algebra.Order.Floor.Div
import CppPlayground.MatrixView.Selections

/-! # The steps of a `StridedMatrixView`

    `stride` takes every `a`-th row and every `b`-th column.  The strides of the result may
    wrap around, which changes no address: addresses are taken modulo `2 ^ 64` anyway.  The
    ceiling division may not, and `stride_samples_iff` says exactly when it does.  Where
    nothing wraps, the operations satisfy an algebra as equalities of descriptors. -/

namespace MatrixView

namespace StridedView

variable {v v' : StridedView} {a b : Nat}

/-! ## Which rows and columns are kept -/

/-- The view `v'` has every `a`-th row and every `b`-th column of `v`. -/
structure Samples (v v' : StridedView) (a b : Nat) : Prop where
  rows : v'.mRows = v.mRows ⌈/⌉ a
  cols : v'.mCols = v.mCols ⌈/⌉ b
  nonempty : 0 < v.mRows → 0 < v.mCols → 0 < v'.mRows ∧ 0 < v'.mCols
  places : ∀ i j, i < v'.mRows → j < v'.mCols →
    i * a < v.mRows ∧ j * b < v.mCols ∧ v'.element i j = v.element (i * a) (j * b)

/-- **The ceiling division** is right exactly if the sum before it does not wrap. -/
theorem ceilDiv_eq_iff {size step : Nat} (hstep : 0 < step) (hword : step < 2 ^ 64) :
    ceilDiv size step = size ⌈/⌉ step ↔ size + step ≤ 2 ^ 64 := by
  rw [ceilDiv, SizeT.sub_add_one (by omega), Nat.ceilDiv_eq_add_pred_div]
  by_cases hwrap : size + step ≤ 2 ^ 64
  · rw [Nat.mod_eq_of_lt (by omega)]
    exact iff_of_true rfl hwrap
  · refine iff_of_false (Nat.ne_of_lt ?_) hwrap
    -- what is lost by the reduction is a whole step and more
    have hlost : (size + step - 1) % 2 ^ 64 + step ≤ size + step - 1 := by
      have := Nat.mod_add_div (size + step - 1) (2 ^ 64)
      have : 0 < (size + step - 1) / 2 ^ 64 := Nat.div_pos (by omega) (by decide)
      omega
    calc (size + step - 1) % 2 ^ 64 / step
        < (size + step - 1) % 2 ^ 64 / step + 1 := Nat.lt_succ_self _
      _ = ((size + step - 1) % 2 ^ 64 + step) / step := (Nat.add_div_right _ hstep).symm
      _ ≤ (size + step - 1) / step := Nat.div_le_div_right hlost

theorem lt_ceilDiv {size step : Nat} (hstep : 0 < step) (i : Nat) :
    i < size ⌈/⌉ step ↔ i * step < size := by
  rw [← Nat.not_le, ceilDiv_le_iff_le_mul hstep, Nat.not_le, Nat.mul_comm]

/-- Strides that wrap around lead to the same addresses. -/
theorem element_stride (v : StridedView) (rows cols i j : Nat) :
    (⟨v.mData, rows, cols, SizeT.mul v.mRowStride a, SizeT.mul v.mColStride b⟩ :
      StridedView).element i j = v.element (i * a) (j * b) := by
  have hmul : ∀ k stride step, SizeT.mul k (SizeT.mul stride step)
      = SizeT.mul (k * step) stride := by
    intro k stride step
    rw [SizeT.mul_mul, SizeT.mul, Nat.mul_comm stride, Nat.mul_assoc]
  show v.mData + SizeT.add (SizeT.mul i (SizeT.mul v.mRowStride a))
      (SizeT.mul j (SizeT.mul v.mColStride b))
    = v.mData + SizeT.add (SizeT.mul (i * a) v.mRowStride) (SizeT.mul (j * b) v.mColStride)
  rw [hmul, hmul]

/-- **`stride` keeps exactly the multiples of its steps**, in every view, exactly if the
    sums of its ceiling divisions are at most `2 ^ 64`. -/
theorem stride_samples_iff (v : StridedView) (ha : 0 < a) (hb : 0 < b) (ha' : a < 2 ^ 64)
    (hb' : b < 2 ^ 64) :
    (∃ v', v.stride a b = .ok v' ∧ Samples v v' a b)
      ↔ v.mRows + a ≤ 2 ^ 64 ∧ v.mCols + b ≤ 2 ^ 64 := by
  have hok : v.stride a b = .ok ⟨v.mData, ceilDiv v.mRows a, ceilDiv v.mCols b,
      SizeT.mul v.mRowStride a, SizeT.mul v.mColStride b⟩ :=
    if_neg (not_or.mpr ⟨Nat.pos_iff_ne_zero.mp ha, Nat.pos_iff_ne_zero.mp hb⟩)
  rw [← ceilDiv_eq_iff ha ha', ← ceilDiv_eq_iff hb hb']
  constructor
  · rintro ⟨v', hv', hsamples⟩
    obtain rfl := Except.ok.inj (hok.symm.trans hv')
    exact ⟨hsamples.rows, hsamples.cols⟩
  · rintro ⟨hrows, hcols⟩
    refine ⟨_, hok, hrows, hcols, ?_, ?_⟩
    · intro hrow hcol
      show 0 < ceilDiv v.mRows a ∧ 0 < ceilDiv v.mCols b
      rw [hrows, hcols, lt_ceilDiv ha, lt_ceilDiv hb, Nat.zero_mul, Nat.zero_mul]
      exact ⟨hrow, hcol⟩
    · intro i j hi hj
      have hi : i < ceilDiv v.mRows a := hi
      have hj : j < ceilDiv v.mCols b := hj
      rw [hrows, lt_ceilDiv ha] at hi
      rw [hcols, lt_ceilDiv hb] at hj
      exact ⟨hi, hj, element_stride v _ _ i j⟩

/-- Every other row and every third column of a matrix. -/
theorem everyThird_samples : ∃ v',
    (ofMatrix (Matrix.construct 'x' 3 4)).stride 2 3 = .ok v'
      ∧ Samples (ofMatrix (Matrix.construct 'x' 3 4)) v' 2 3 :=
  (stride_samples_iff _ (by decide) (by decide) (by decide) (by decide)).mpr
    ⟨by decide, by decide⟩

/-- A step of `2 ^ 64 - 1` leaves no row of three, where it should leave the first. -/
theorem largeStep_samples_nothing :
    (ofMatrix (Matrix.construct 'x' 3 3)).stride (2 ^ 64 - 1) 1
        = .ok ⟨0, 0, 3, 2 ^ 64 - 3, 1⟩
      ∧ ¬ ∃ v', (ofMatrix (Matrix.construct 'x' 3 3)).stride (2 ^ 64 - 1) 1 = .ok v'
        ∧ Samples (ofMatrix (Matrix.construct 'x' 3 3)) v' (2 ^ 64 - 1) 1 := by
  have hok : (ofMatrix (Matrix.construct 'x' 3 3)).stride (2 ^ 64 - 1) 1
      = .ok ⟨0, 0, 3, 2 ^ 64 - 3, 1⟩ := by decide
  refine ⟨hok, ?_⟩
  rintro ⟨v', hv', hsamples⟩
  obtain rfl := Except.ok.inj (hok.symm.trans hv')
  exact absurd (hsamples.nonempty (by decide) (by decide)).1 (Nat.lt_irrefl 0)

/-! ## The algebra of descriptors -/

/-- What the operations on a view make of each other.  The last law needs no condition on
    its right side: what it computes is computed on the left as well. -/
structure DescriptorAlgebra (v : StridedView) : Prop where
  stride_stride : ∀ a b c d v₁ v₂, v.stride a b = .ok v₁ → v₁.stride c d = .ok v₂ →
    NoWrapStrided v (.stride a b) → NoWrapStrided v₁ (.stride c d) →
    NoWrapStrided v (.stride (a * c) (b * d)) → v.stride (a * c) (b * d) = .ok v₂
  transpose_transpose : v.transpose.transpose = v
  stride_transpose : ∀ a b v', v.stride a b = .ok v' →
    v.transpose.stride b a = .ok v'.transpose
  subview_transpose : ∀ r s h w v', v.subview r s h w = .ok v' →
    v.transpose.subview s r w h = .ok v'.transpose
  subview_subview : ∀ r s h w r₂ s₂ h₂ w₂ v₁ v₂, v.subview r s h w = .ok v₁ →
    v₁.subview r₂ s₂ h₂ w₂ = .ok v₂ → NoWrapStrided v (.subview r s h w) →
    NoWrapStrided v₁ (.subview r₂ s₂ h₂ w₂) →
    NoWrapStrided v (.subview (r + r₂) (s + s₂) h₂ w₂) →
    v.subview (r + r₂) (s + s₂) h₂ w₂ = .ok v₂
  stride_subview : ∀ a b r s h w v₁ v₂, 0 < h → 0 < w → v.stride a b = .ok v₁ →
    v₁.subview r s h w = .ok v₂ → NoWrapStrided v (.stride a b) →
    NoWrapStrided v₁ (.subview r s h w) →
    ∃ v₃, v.subview (a * r) (b * s) ((h - 1) * a + 1) ((w - 1) * b + 1) = .ok v₃
      ∧ v₃.stride a b = .ok v₂

theorem subview_of_fits {r₀ c₀ h w : Nat} (hwrap : NoWrapStrided v (.subview r₀ c₀ h w))
    (hrows : r₀ + h ≤ v.mRows) (hcols : c₀ + w ≤ v.mCols) :
    v.subview r₀ c₀ h w = .ok ⟨v.mData + (r₀ * v.mRowStride + c₀ * v.mColStride), h, w,
      v.mRowStride, v.mColStride⟩ := by
  obtain ⟨hrow, hcol, hindex⟩ := hwrap
  rw [subview, SizeT.add_eq hrow, SizeT.add_eq hcol, index_eq hindex,
    if_neg (not_or.mpr ⟨Nat.not_lt.mpr hrows, Nat.not_lt.mpr hcols⟩)]

theorem stride_of_pos (hwrap : NoWrapStrided v (.stride a b)) (ha : 0 < a) (hb : 0 < b) :
    v.stride a b = .ok ⟨v.mData, v.mRows ⌈/⌉ a, v.mCols ⌈/⌉ b, v.mRowStride * a,
      v.mColStride * b⟩ := by
  obtain ⟨hrow, hcol, hrowStride, hcolStride⟩ := hwrap
  rw [stride, if_neg (not_or.mpr ⟨Nat.pos_iff_ne_zero.mp ha, Nat.pos_iff_ne_zero.mp hb⟩),
    SizeT.mul_eq hrowStride, SizeT.mul_eq hcolStride,
    (ceilDiv_eq_iff ha (by omega)).mpr (Nat.le_of_lt hrow),
    (ceilDiv_eq_iff hb (by omega)).mpr (Nat.le_of_lt hcol)]

/-- What a successful `stride` returns. -/
theorem eq_of_stride (hwrap : NoWrapStrided v (.stride a b)) (hok : v.stride a b = .ok v') :
    0 < a ∧ 0 < b ∧ v' = ⟨v.mData, v.mRows ⌈/⌉ a, v.mCols ⌈/⌉ b, v.mRowStride * a,
      v.mColStride * b⟩ := by
  obtain ⟨ha, hb, -⟩ := stride_ok hwrap hok
  exact ⟨ha, hb, Except.ok.inj (hok.symm.trans (stride_of_pos hwrap ha hb))⟩

/-- Every `c`-th of every `a`-th is every `a * c`-th. -/
theorem ceilDiv_ceilDiv {size c : Nat} (ha : 0 < a) (hc : 0 < c) :
    size ⌈/⌉ a ⌈/⌉ c = size ⌈/⌉ (a * c) := by
  refine eq_of_forall_lt_iff fun i => ?_
  rw [lt_ceilDiv hc, lt_ceilDiv ha, lt_ceilDiv (Nat.mul_pos ha hc), Nat.mul_assoc,
    Nat.mul_comm c a]

/-- The smallest part that has `count` multiples of `step`. -/
theorem ceilDiv_span {count step : Nat} (hcount : 0 < count) (hstep : 0 < step) :
    ((count - 1) * step + 1) ⌈/⌉ step = count := by
  refine eq_of_forall_lt_iff fun i => ?_
  rw [lt_ceilDiv hstep, Nat.lt_succ_iff, Nat.mul_le_mul_right_iff hstep]
  omega

/-- It fits where the multiples do. -/
theorem span_le {start count step size : Nat} (hcount : 0 < count) (hstep : 0 < step)
    (hfits : start + count ≤ size ⌈/⌉ step) :
    step * start + ((count - 1) * step + 1) ≤ size := by
  have hlast : start + (count - 1) < size ⌈/⌉ step := by omega
  rw [lt_ceilDiv hstep, Nat.add_mul, Nat.mul_comm start] at hlast
  omega

/-- **The algebra of `StridedMatrixView`**, for every view and all arguments. -/
theorem descriptor_algebra (v : StridedView) : DescriptorAlgebra v where
  stride_stride a b c d v₁ v₂ hok₁ hok₂ hwrap₁ hwrap₂ hwrap := by
    obtain ⟨ha, hb, rfl⟩ := eq_of_stride hwrap₁ hok₁
    obtain ⟨hc, hd, rfl⟩ := eq_of_stride hwrap₂ hok₂
    rw [stride_of_pos hwrap (Nat.mul_pos ha hc) (Nat.mul_pos hb hd), ceilDiv_ceilDiv ha hc,
      ceilDiv_ceilDiv hb hd, Nat.mul_assoc, Nat.mul_assoc]
  transpose_transpose := rfl
  stride_transpose a b v' hok := by
    rw [stride] at hok ⊢
    split at hok
    · cases hok
    · rename_i hpos
      obtain rfl := Except.ok.inj hok
      rw [if_neg (fun hzero => hpos hzero.symm)]
      rfl
  subview_transpose r s h w v' hok := by
    rw [subview] at hok ⊢
    split at hok
    · cases hok
    · rename_i hfits
      obtain rfl := Except.ok.inj hok
      have hindex : v.transpose.index s r = v.index r s := by
        show SizeT.add _ _ = SizeT.add _ _
        rw [SizeT.add, SizeT.add, Nat.add_comm]
        rfl
      rw [if_neg (fun houtside => hfits houtside.symm), hindex]
      rfl
  subview_subview r s h w r₂ s₂ h₂ w₂ v₁ v₂ hok₁ hok₂ hwrap₁ hwrap₂ hwrap := by
    obtain ⟨hrows, hcols, rfl⟩ := subview_ok hwrap₁ hok₁
    obtain ⟨hrows₂, hcols₂, rfl⟩ := subview_ok hwrap₂ hok₂
    have hrows₂ : r₂ + h₂ ≤ h := hrows₂
    have hcols₂ : s₂ + w₂ ≤ w := hcols₂
    rw [subview_of_fits hwrap (by omega) (by omega), Nat.add_mul, Nat.add_mul]
    congr 2
    show _ = v.mData + (r * v.mRowStride + s * v.mColStride)
      + (r₂ * v.mRowStride + s₂ * v.mColStride)
    omega
  stride_subview a b r s h w v₁ v₂ hh hw hok₁ hok₂ hwrap₁ hwrap₂ := by
    obtain ⟨ha, hb, rfl⟩ := eq_of_stride hwrap₁ hok₁
    obtain ⟨hrows, hcols, rfl⟩ := subview_ok hwrap₂ hok₂
    obtain ⟨hrow, hcol, hrowStride, hcolStride⟩ := hwrap₁
    have hrows := span_le hh ha hrows
    have hcols := span_le hw hb hcols
    have hindex : a * r * v.mRowStride + b * s * v.mColStride
        = r * (v.mRowStride * a) + s * (v.mColStride * b) := by
      rw [Nat.mul_comm v.mRowStride, Nat.mul_comm v.mColStride, ← Nat.mul_assoc,
        ← Nat.mul_assoc, Nat.mul_comm r, Nat.mul_comm s]
    have hfits : NoWrapStrided v
        (.subview (a * r) (b * s) ((h - 1) * a + 1) ((w - 1) * b + 1)) :=
      ⟨by omega, by omega, hindex ▸ hwrap₂.2.2⟩
    refine ⟨_, subview_of_fits hfits hrows hcols, ?_⟩
    rw [hindex]
    have hsteps : NoWrapStrided ⟨v.mData + (r * (v.mRowStride * a) + s * (v.mColStride * b)),
        (h - 1) * a + 1, (w - 1) * b + 1, v.mRowStride, v.mColStride⟩ (.stride a b) := by
      refine ⟨?_, ?_, hrowStride, hcolStride⟩
      · show (h - 1) * a + 1 + a < 2 ^ 64
        omega
      · show (w - 1) * b + 1 + b < 2 ^ 64
        omega
    refine (stride_of_pos hsteps ha hb).trans ?_
    show Except.ok (StridedView.mk _ (((h - 1) * a + 1) ⌈/⌉ a) (((w - 1) * b + 1) ⌈/⌉ b) _ _)
      = _
    rw [ceilDiv_span hh ha, ceilDiv_span hw hb]

end StridedView

end MatrixView
