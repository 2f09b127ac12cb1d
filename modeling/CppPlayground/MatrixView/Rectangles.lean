import CppPlayground.Lib.Grid
import CppPlayground.MatrixView.Model

/-! # Every `MatrixView` denotes a sub-rectangle

    Where nothing wraps a view is a `Grid`: row `i` and column `j` stand for the place
    `m_data + i * m_stride + j`.  `Sound` is the invariant of the chains of operations, and
    each operation is one of the operations on grids. -/

namespace MatrixView

open Transition

variable {n : Nat} {v v' : View} {row col : Nat}

/-- The places of a view, without wrapping. -/
def View.grid (v : View) : Grid := ⟨v.mRows, v.mCols, fun i j => v.mData + (i * v.mStride + j)⟩

/-- A view into a storage of size `n`: rows do not overlap, and every position has a place
    of its own. -/
structure Sound (n : Nat) (v : View) : Prop where
  stride : v.mCols ≤ v.mStride
  valid : v.grid.Valid n

theorem index_eq (h : row * v.mStride + col < 2 ^ 64) :
    v.index row col = row * v.mStride + col := by
  have hmul : row * v.mStride < 2 ^ 64 := Nat.lt_of_le_of_lt (Nat.le_add_right _ _) h
  rw [View.index, SizeT.mul_eq hmul, SizeT.add_eq h]

/-- An element access does not wrap: its index is a place in the storage. -/
theorem Sound.element_eq (h : Sound n v) (hn : n < 2 ^ 64) (hrow : row < v.mRows)
    (hcol : col < v.mCols) : v.element row col = v.mData + (row * v.mStride + col) := by
  have hinside : v.mData + (row * v.mStride + col) < n := h.valid.inside row col hrow hcol
  rw [View.element, index_eq (by omega)]

/-- The view of a whole matrix. -/
theorem sound_ofMatrix {T : Type} (zero : T) {rows cols : Nat} (hsize : rows * cols < 2 ^ 64) :
    Sound (Matrix.construct zero rows cols).mData.length
      (View.ofMatrix (Matrix.construct zero rows cols)) where
  stride := Nat.le_refl _
  valid := by
    rw [Matrix.construct, List.length_replicate, SizeT.mul_eq hsize]
    refine (Grid.valid_rowMajor rows cols).corner (Nat.le_refl _) (Nat.le_refl _) ?_
    intro i j _ _
    exact Nat.zero_add _

/-! ## The operations -/

/-- What a successful `subview` returns. -/
theorem subview_ok {r₀ c₀ h w : Nat} (hwrap : NoWrap v (.subview r₀ c₀ h w))
    (hok : v.subview r₀ c₀ h w = .ok v') :
    r₀ + h ≤ v.mRows ∧ c₀ + w ≤ v.mCols
      ∧ v' = ⟨h, w, v.mStride, v.mData + (r₀ * v.mStride + c₀)⟩ := by
  obtain ⟨hrows, hcols, hindex⟩ := hwrap
  rw [View.subview, SizeT.add_eq hrows, SizeT.add_eq hcols, index_eq hindex] at hok
  split at hok
  · exact nomatch hok
  · rename_i hfits
    rw [not_or, Nat.not_lt, Nat.not_lt] at hfits
    exact ⟨hfits.1, hfits.2, (Except.ok.inj hok).symm⟩

theorem crop_ok {h w : Nat} (hok : v.crop h w = .ok v') :
    h ≤ v.mRows ∧ w ≤ v.mCols ∧ v' = { v with mRows := h, mCols := w } := by
  rw [View.crop] at hok
  split at hok
  · exact nomatch hok
  · rename_i hfits
    rw [not_or, Nat.not_lt, Nat.not_lt] at hfits
    exact ⟨hfits.1, hfits.2, (Except.ok.inj hok).symm⟩

theorem reshape_ok {h w : Nat} (hwrap : NoWrap v (.reshape h w))
    (hok : v.reshape h w = .ok v') :
    v.mStride = v.mCols ∧ h * w = v.mRows * v.mCols
      ∧ v' = { v with mRows := h, mCols := w, mStride := w } := by
  obtain ⟨hnew, hold⟩ := hwrap
  rw [View.reshape, SizeT.mul_eq hnew, SizeT.mul_eq hold] at hok
  split at hok
  · exact nomatch hok
  · rename_i hcontiguous
    split at hok
    · exact nomatch hok
    · rename_i hcount
      exact ⟨of_decide_eq_true (eq_true_of_ne_false hcontiguous), not_not.mp hcount,
        (Except.ok.inj hok).symm⟩

/-- The places after a `subview`. -/
theorem subview_place {r₀ c₀ h w : Nat} (i j : Nat) :
    (⟨h, w, v.mStride, v.mData + (r₀ * v.mStride + c₀)⟩ : View).grid.place i j
      = v.grid.place (r₀ + i) (c₀ + j) := by
  show v.mData + (r₀ * v.mStride + c₀) + (i * v.mStride + j)
    = v.mData + ((r₀ + i) * v.mStride + (c₀ + j))
  rw [Nat.add_mul]
  omega

/-- The `k`-th place of a contiguous view, and the places after a `reshape`. -/
theorem contiguous_place (h : v.mStride = v.mCols) (k : Nat) :
    v.grid.place (k / v.mCols) (k % v.mCols) = v.mData + k := by
  show v.mData + (k / v.mCols * v.mStride + k % v.mCols) = v.mData + k
  rw [h, Nat.mul_comm, Nat.div_add_mod]

theorem Sound.subview {r₀ c₀ h w : Nat} (hs : Sound n v)
    (hwrap : NoWrap v (.subview r₀ c₀ h w)) (hok : v.subview r₀ c₀ h w = .ok v') :
    Sound n v' := by
  obtain ⟨hrows, hcols, rfl⟩ := subview_ok hwrap hok
  refine ⟨?_, hs.valid.part hrows hcols fun i j _ _ => subview_place i j⟩
  exact Nat.le_trans (Nat.le_trans (Nat.le_add_left _ _) hcols) hs.stride

theorem Sound.crop {h w : Nat} (hs : Sound n v) (hok : v.crop h w = .ok v') : Sound n v' := by
  obtain ⟨hrows, hcols, rfl⟩ := crop_ok hok
  exact ⟨Nat.le_trans hcols hs.stride, hs.valid.corner hrows hcols fun _ _ _ _ => rfl⟩

theorem Sound.reshape {h w : Nat} (hs : Sound n v) (hwrap : NoWrap v (.reshape h w))
    (hok : v.reshape h w = .ok v') : Sound n v' := by
  obtain ⟨hcontiguous, hcount, rfl⟩ := reshape_ok hwrap hok
  refine ⟨Nat.le_refl _, hs.valid.reshape hcount ?_⟩
  intro k _
  exact (contiguous_place (v := { v with mRows := h, mCols := w, mStride := w }) rfl k).trans
    (contiguous_place hcontiguous k).symm

/-- **One operation.** -/
theorem sound_step {op : Op} (hs : Sound n v) (hwrap : NoWrap v op)
    (hok : v.exec op = .ok v') : Sound n v' := by
  cases op with
  | subview r₀ c₀ h w => exact hs.subview hwrap hok
  | crop h w => exact hs.crop hok
  | reshape h w => exact hs.reshape hwrap hok

/-- Every chain of operations. -/
theorem run_sound {T : Type} {zero : T} {rows cols : Nat} (hsize : rows * cols < 2 ^ 64)
    {ops : List Op}
    (h : Run ((views (Matrix.construct zero rows cols)).restrict NoWrap) ops v) :
    Sound (Matrix.construct zero rows cols).mData.length v := by
  refine Run.invariant (S := (views (Matrix.construct zero rows cols)).restrict NoWrap)
    (I := fun _ v => Sound (Matrix.construct zero rows cols).mData.length v) ?_ ?_ h
  · rintro v rfl
    exact sound_ofMatrix zero hsize
  · rintro ops v op v' _ hs ⟨hok, hwrap⟩
    exact sound_step hs hwrap hok

/-! ## What a view denotes -/

/-- The rows of a view, the elements of a row from `row_begin` to `row_end`. -/
def View.rowElements (v : View) (row : Nat) : List Nat :=
  List.range' (v.rowBegin row) (v.rowEnd row - v.rowBegin row)

/-- A view into a storage of size `n` denotes a rectangle of its elements, and the
    operations denote what they are called. -/
structure Denotes (n : Nat) (v : View) : Prop where
  stride : v.mCols ≤ v.mStride
  inside : ∀ row col, row < v.mRows → col < v.mCols → v.element row col < n
  distinct : ∀ row col row' col', row < v.mRows → col < v.mCols → row' < v.mRows →
    col' < v.mCols → v.element row col = v.element row' col' → row = row' ∧ col = col'
  subview : ∀ r₀ c₀ h w v', NoWrap v (.subview r₀ c₀ h w) → v.subview r₀ c₀ h w = .ok v' →
    v'.mRows = h ∧ v'.mCols = w
      ∧ ∀ i j, i < h → j < w → v'.element i j = v.element (r₀ + i) (c₀ + j)
  crop : ∀ h w v', v.crop h w = .ok v' → v'.mRows = h ∧ v'.mCols = w
    ∧ ∀ i j, i < h → j < w → v'.element i j = v.element i j
  reshape : ∀ h w v', NoWrap v (.reshape h w) → v.reshape h w = .ok v' →
    v.isContiguous = true ∧ v'.mRows = h ∧ v'.mCols = w ∧ h * w = v.mRows * v.mCols
      ∧ ∀ k, k < h * w → v'.element (k / w) (k % w) = v.element (k / v.mCols) (k % v.mCols)
  rows : ∀ row, row < v.mRows →
    v.rowElements row = (List.range v.mCols).map (v.element row)

theorem Sound.rowElements_eq (hs : Sound n v) (hn : n < 2 ^ 64) (hrow : row < v.mRows) :
    v.rowElements row = (List.range v.mCols).map (v.element row) := by
  rw [View.rowElements, View.rowEnd, Nat.add_sub_cancel_left, List.range'_eq_map_range]
  refine List.map_congr_left ?_
  intro col hmem
  have hcol : col < v.mCols := List.mem_range.mp hmem
  have hinside : v.mData + (row * v.mStride + col) < n := hs.valid.inside row col hrow hcol
  rw [hs.element_eq hn hrow hcol, View.rowBegin, index_eq (by omega)]
  omega

theorem Sound.denotes (hs : Sound n v) (hn : n < 2 ^ 64) : Denotes n v where
  stride := hs.stride
  inside row col hrow hcol := by
    rw [hs.element_eq hn hrow hcol]
    exact hs.valid.inside row col hrow hcol
  distinct row col row' col' hrow hcol hrow' hcol' heq := by
    rw [hs.element_eq hn hrow hcol, hs.element_eq hn hrow' hcol'] at heq
    exact hs.valid.distinct row col row' col' hrow hcol hrow' hcol' heq
  subview r₀ c₀ h w v' hwrap hok := by
    have hs' := hs.subview hwrap hok
    obtain ⟨hrows, hcols, rfl⟩ := subview_ok hwrap hok
    refine ⟨rfl, rfl, ?_⟩
    intro i j hi hj
    rw [hs'.element_eq hn hi hj, hs.element_eq hn (by omega) (by omega)]
    exact subview_place i j
  crop h w v' hok := by
    have hs' := hs.crop hok
    obtain ⟨hrows, hcols, rfl⟩ := crop_ok hok
    refine ⟨rfl, rfl, ?_⟩
    intro i j hi hj
    rw [hs'.element_eq hn hi hj, hs.element_eq hn (by omega) (by omega)]
  reshape h w v' hwrap hok := by
    have hs' := hs.reshape hwrap hok
    obtain ⟨hcontiguous, hcount, rfl⟩ := reshape_ok hwrap hok
    refine ⟨decide_eq_true hcontiguous, rfl, rfl, hcount, ?_⟩
    intro k hk
    obtain ⟨hrow', hcol'⟩ := Grid.rowMajor_position hk
    rw [hcount] at hk
    obtain ⟨hrow, hcol⟩ := Grid.rowMajor_position hk
    rw [hs'.element_eq hn hrow' hcol', hs.element_eq hn hrow hcol]
    exact (contiguous_place (v := { v with mRows := h, mCols := w, mStride := w }) rfl k).trans
      (contiguous_place hcontiguous k).symm
  rows _ hrow := hs.rowElements_eq hn hrow

/-- **Every `MatrixView` denotes the right sub-rectangle**: of every matrix, after every
    chain of successful operations in which nothing wraps. -/
theorem runs_denote_rectangles {T : Type} {zero : T} {rows cols : Nat}
    (hsize : rows * cols < 2 ^ 64) {ops : List Op}
    (h : Run ((views (Matrix.construct zero rows cols)).restrict NoWrap) ops v) :
    Denotes (Matrix.construct zero rows cols).mData.length v := by
  refine (run_sound hsize h).denotes ?_
  rw [Matrix.construct, List.length_replicate, SizeT.mul_eq hsize]
  exact hsize

/-- The first two rows of a matrix of three, as four rows of half the length, without the
    first and the last. -/
def halfRows : List Op := [.crop 2 4, .reshape 4 2, .subview 1 0 2 2]

theorem halfRows_denote : ∃ v,
    Run ((views (Matrix.construct 'x' 3 4)).restrict NoWrap) halfRows v
      ∧ v = ⟨2, 2, 2, 2⟩ ∧ Denotes (Matrix.construct 'x' 3 4).mData.length v := by
  have hstart : Run ((views (Matrix.construct 'x' 3 4)).restrict NoWrap) []
      (View.ofMatrix (Matrix.construct 'x' 3 4)) := .start rfl
  have hcrop := hstart.snoc (a := Op.crop 2 4) ⟨rfl, trivial⟩
  have hreshape := hcrop.snoc (a := Op.reshape 4 2) ⟨rfl, by decide⟩
  have hrun := hreshape.snoc (a := Op.subview 1 0 2 2) ⟨rfl, by decide⟩
  exact ⟨_, hrun, rfl, runs_denote_rectangles (by decide) hrun⟩

end MatrixView
