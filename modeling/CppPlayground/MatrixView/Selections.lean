import CppPlayground.Lib.Grid
import CppPlayground.MatrixView.Model

/-! # Every `StridedMatrixView` denotes a selection of elements

    After a transpose or a step neither stride bounds the other, so the places of a view
    cannot be told apart by its fields alone.  They can by its history: each operation
    takes its positions from those of the view before, each once, which is what `Grid`
    asks for. -/

namespace MatrixView

open Transition

namespace StridedView

variable {n : Nat} {v v' : StridedView} {row col : Nat}

/-- The places of a view, without wrapping. -/
def grid (v : StridedView) : Grid :=
  ⟨v.mRows, v.mCols, fun i j => v.mData + (i * v.mRowStride + j * v.mColStride)⟩

theorem index_eq (h : row * v.mRowStride + col * v.mColStride < 2 ^ 64) :
    v.index row col = row * v.mRowStride + col * v.mColStride := by
  have hrow : row * v.mRowStride < 2 ^ 64 := Nat.lt_of_le_of_lt (Nat.le_add_right _ _) h
  have hcol : col * v.mColStride < 2 ^ 64 := Nat.lt_of_le_of_lt (Nat.le_add_left _ _) h
  rw [index, SizeT.mul_eq hrow, SizeT.mul_eq hcol, SizeT.add_eq h]

/-- An element access does not wrap: its index is a place in the storage. -/
theorem element_eq (h : v.grid.Valid n) (hn : n < 2 ^ 64) (hrow : row < v.mRows)
    (hcol : col < v.mCols) : v.element row col = v.grid.place row col := by
  have hinside : v.mData + (row * v.mRowStride + col * v.mColStride) < n :=
    h.inside row col hrow hcol
  rw [element, index_eq (by omega)]
  rfl

/-- The view of a whole matrix. -/
theorem valid_ofMatrix {T : Type} (zero : T) {rows cols : Nat} (hsize : rows * cols < 2 ^ 64) :
    (ofMatrix (Matrix.construct zero rows cols)).grid.Valid
      (Matrix.construct zero rows cols).mData.length := by
  rw [Matrix.construct, List.length_replicate, SizeT.mul_eq hsize]
  refine (Grid.valid_rowMajor rows cols).corner (Nat.le_refl _) (Nat.le_refl _) ?_
  intro i j _ _
  show 0 + (i * cols + j * 1) = i * cols + j
  rw [Nat.zero_add, Nat.mul_one]

/-! ## The operations -/

theorem subview_ok {r₀ c₀ h w : Nat} (hwrap : NoWrapStrided v (.subview r₀ c₀ h w))
    (hok : v.subview r₀ c₀ h w = .ok v') :
    r₀ + h ≤ v.mRows ∧ c₀ + w ≤ v.mCols ∧ v' = ⟨v.mData
      + (r₀ * v.mRowStride + c₀ * v.mColStride), h, w, v.mRowStride, v.mColStride⟩ := by
  obtain ⟨hrows, hcols, hindex⟩ := hwrap
  rw [subview, SizeT.add_eq hrows, SizeT.add_eq hcols, index_eq hindex] at hok
  split at hok
  · exact nomatch hok
  · rename_i hfits
    rw [not_or, Nat.not_lt, Nat.not_lt] at hfits
    exact ⟨hfits.1, hfits.2, (Except.ok.inj hok).symm⟩

/-- The ceiling division has a quotient for every multiple below the size. -/
theorem lt_ceilDiv_iff {size step : Nat} (hstep : 0 < step) (hwrap : size + step < 2 ^ 64)
    (i : Nat) : i < ceilDiv size step ↔ i * step < size := by
  rw [ceilDiv, SizeT.add_eq hwrap, SizeT.sub_eq (by omega) hwrap, Nat.lt_iff_add_one_le,
    Nat.le_div_iff_mul_le hstep, Nat.succ_mul]
  omega

theorem stride_ok {a b : Nat} (hwrap : NoWrapStrided v (.stride a b))
    (hok : v.stride a b = .ok v') :
    0 < a ∧ 0 < b ∧ v' = ⟨v.mData, ceilDiv v.mRows a, ceilDiv v.mCols b,
      v.mRowStride * a, v.mColStride * b⟩ := by
  obtain ⟨-, -, hrow, hcol⟩ := hwrap
  rw [stride, SizeT.mul_eq hrow, SizeT.mul_eq hcol] at hok
  split at hok
  · exact nomatch hok
  · rename_i hpos
    rw [not_or] at hpos
    exact ⟨Nat.pos_of_ne_zero hpos.1, Nat.pos_of_ne_zero hpos.2, (Except.ok.inj hok).symm⟩

/-- The places after a `subview`. -/
theorem subview_place {r₀ c₀ h w : Nat} (i j : Nat) :
    (⟨v.mData + (r₀ * v.mRowStride + c₀ * v.mColStride), h, w, v.mRowStride,
      v.mColStride⟩ : StridedView).grid.place i j = v.grid.place (r₀ + i) (c₀ + j) := by
  show v.mData + (r₀ * v.mRowStride + c₀ * v.mColStride)
      + (i * v.mRowStride + j * v.mColStride)
    = v.mData + ((r₀ + i) * v.mRowStride + (c₀ + j) * v.mColStride)
  rw [Nat.add_mul, Nat.add_mul]
  omega

/-- The places after a `transpose`. -/
theorem transpose_place (v : StridedView) (i j : Nat) :
    v.transpose.grid.place i j = v.grid.place j i :=
  congrArg (v.mData + ·) (Nat.add_comm _ _)

/-- The places after a `stride`. -/
theorem stride_place {a b rows cols : Nat} (i j : Nat) :
    (⟨v.mData, rows, cols, v.mRowStride * a, v.mColStride * b⟩ : StridedView).grid.place i j
      = v.grid.place (i * a) (j * b) := by
  show v.mData + (i * (v.mRowStride * a) + j * (v.mColStride * b))
    = v.mData + (i * a * v.mRowStride + j * b * v.mColStride)
  rw [Nat.mul_comm v.mRowStride, Nat.mul_comm v.mColStride, Nat.mul_assoc, Nat.mul_assoc]

theorem valid_subview {r₀ c₀ h w : Nat} (hv : v.grid.Valid n)
    (hwrap : NoWrapStrided v (.subview r₀ c₀ h w)) (hok : v.subview r₀ c₀ h w = .ok v') :
    v'.grid.Valid n := by
  obtain ⟨hrows, hcols, rfl⟩ := subview_ok hwrap hok
  exact hv.part hrows hcols fun i j _ _ => subview_place i j

theorem valid_transpose (hv : v.grid.Valid n) : v.transpose.grid.Valid n :=
  hv.transpose rfl rfl (transpose_place v)

theorem valid_stride {a b : Nat} (hv : v.grid.Valid n) (hwrap : NoWrapStrided v (.stride a b))
    (hok : v.stride a b = .ok v') : v'.grid.Valid n := by
  obtain ⟨ha, hb, rfl⟩ := stride_ok hwrap hok
  exact hv.every ha hb (fun i => (lt_ceilDiv_iff ha hwrap.1 i).mp)
    (fun j => (lt_ceilDiv_iff hb hwrap.2.1 j).mp) stride_place

/-- **One operation.** -/
theorem valid_step {op : StridedOp} (hv : v.grid.Valid n) (hwrap : NoWrapStrided v op)
    (hok : v.exec op = .ok v') : v'.grid.Valid n := by
  cases op with
  | subview r₀ c₀ h w => exact valid_subview hv hwrap hok
  | transpose => exact Except.ok.inj hok ▸ valid_transpose hv
  | stride a b => exact valid_stride hv hwrap hok

/-- Every chain of operations. -/
theorem run_valid {T : Type} {zero : T} {rows cols : Nat} (hsize : rows * cols < 2 ^ 64)
    {ops : List StridedOp}
    (h : Run ((stridedViews (Matrix.construct zero rows cols)).restrict NoWrapStrided) ops v) :
    v.grid.Valid (Matrix.construct zero rows cols).mData.length := by
  refine Run.invariant
    (S := (stridedViews (Matrix.construct zero rows cols)).restrict NoWrapStrided)
    (I := fun _ v => v.grid.Valid (Matrix.construct zero rows cols).mData.length) ?_ ?_ h
  · rintro v rfl
    exact valid_ofMatrix zero hsize
  · rintro ops v op v' _ hv ⟨hok, hwrap⟩
    exact valid_step hv hwrap hok

/-! ## What a view denotes -/

/-- A view into a storage of size `n` denotes a selection of its elements, and the
    operations denote what they are called. -/
structure Denotes (n : Nat) (v : StridedView) : Prop where
  inside : ∀ row col, row < v.mRows → col < v.mCols → v.element row col < n
  distinct : ∀ row col row' col', row < v.mRows → col < v.mCols → row' < v.mRows →
    col' < v.mCols → v.element row col = v.element row' col' → row = row' ∧ col = col'
  subview : ∀ r₀ c₀ h w v', NoWrapStrided v (.subview r₀ c₀ h w) →
    v.subview r₀ c₀ h w = .ok v' → v'.mRows = h ∧ v'.mCols = w
      ∧ ∀ i j, i < h → j < w → v'.element i j = v.element (r₀ + i) (c₀ + j)
  transpose : v.transpose.mRows = v.mCols ∧ v.transpose.mCols = v.mRows
    ∧ ∀ i j, i < v.mCols → j < v.mRows → v.transpose.element i j = v.element j i
  stride : ∀ a b v', NoWrapStrided v (.stride a b) → v.stride a b = .ok v' →
    (∀ i, i < v'.mRows ↔ i * a < v.mRows) ∧ (∀ j, j < v'.mCols ↔ j * b < v.mCols)
      ∧ ∀ i j, i < v'.mRows → j < v'.mCols → v'.element i j = v.element (i * a) (j * b)

theorem denotes_of_valid (hv : v.grid.Valid n) (hn : n < 2 ^ 64) : Denotes n v where
  inside row col hrow hcol := by
    rw [element_eq hv hn hrow hcol]
    exact hv.inside row col hrow hcol
  distinct row col row' col' hrow hcol hrow' hcol' heq := by
    rw [element_eq hv hn hrow hcol, element_eq hv hn hrow' hcol'] at heq
    exact hv.distinct row col row' col' hrow hcol hrow' hcol' heq
  subview r₀ c₀ h w v' hwrap hok := by
    have hv' := valid_subview hv hwrap hok
    obtain ⟨hrows, hcols, rfl⟩ := subview_ok hwrap hok
    refine ⟨rfl, rfl, ?_⟩
    intro i j hi hj
    rw [element_eq hv' hn hi hj, element_eq hv hn (by omega) (by omega)]
    exact subview_place i j
  transpose := by
    refine ⟨rfl, rfl, ?_⟩
    intro i j hi hj
    rw [element_eq (valid_transpose hv) hn hi hj, element_eq hv hn hj hi]
    exact transpose_place v i j
  stride a b v' hwrap hok := by
    have hv' := valid_stride hv hwrap hok
    obtain ⟨ha, hb, rfl⟩ := stride_ok hwrap hok
    have hrow := lt_ceilDiv_iff ha hwrap.1
    have hcol := lt_ceilDiv_iff hb hwrap.2.1
    refine ⟨hrow, hcol, ?_⟩
    intro i j hi hj
    rw [element_eq hv' hn hi hj, element_eq hv hn ((hrow i).mp hi) ((hcol j).mp hj)]
    exact stride_place i j

/-- **Every `StridedMatrixView` denotes the right selection of elements**: of every matrix,
    after every chain of successful operations in which nothing wraps. -/
theorem runs_denote_selections {T : Type} {zero : T} {rows cols : Nat}
    (hsize : rows * cols < 2 ^ 64) {ops : List StridedOp}
    (h : Run ((stridedViews (Matrix.construct zero rows cols)).restrict NoWrapStrided) ops v) :
    Denotes (Matrix.construct zero rows cols).mData.length v := by
  refine denotes_of_valid (run_valid hsize h) ?_
  rw [Matrix.construct, List.length_replicate, SizeT.mul_eq hsize]
  exact hsize

/-- Every other row and every third column, transposed, without the first row. -/
def everyOther : List StridedOp := [.stride 2 3, .transpose, .subview 1 0 1 2]

theorem everyOther_denotes : ∃ v,
    Run ((stridedViews (Matrix.construct 'x' 3 4)).restrict NoWrapStrided) everyOther v
      ∧ v = ⟨3, 1, 2, 3, 8⟩ ∧ Denotes (Matrix.construct 'x' 3 4).mData.length v := by
  have hstart : Run ((stridedViews (Matrix.construct 'x' 3 4)).restrict NoWrapStrided) []
      (ofMatrix (Matrix.construct 'x' 3 4)) := .start rfl
  have hstride := hstart.snoc (a := StridedOp.stride 2 3) ⟨rfl, by decide⟩
  have htranspose := hstride.snoc (a := StridedOp.transpose) ⟨rfl, trivial⟩
  have hrun := htranspose.snoc (a := StridedOp.subview 1 0 1 2) ⟨rfl, by decide⟩
  exact ⟨_, hrun, rfl, runs_denote_selections (by decide) hrun⟩

end StridedView

end MatrixView
