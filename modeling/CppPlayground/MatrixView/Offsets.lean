import CppPlayground.MatrixView.Rectangles

/-! # Where the pointer of a `MatrixView` can be

    The check of `subview` goes dimension by dimension, so an empty rectangle may start on
    the right or on the bottom edge of the view.  The offset of a start in some row of the
    view is bounded by the end of that row (`EndsInside`); the bottom edge has no row, and
    there the offset has to be compared with what is left of the storage. -/

namespace MatrixView

open Transition

variable {n : Nat} {v v' : View}

/-- The view starts in a storage of size `n` or at its end, and each row ends there. -/
structure EndsInside (n : Nat) (v : View) : Prop where
  start : v.mData ≤ n
  rows : ∀ i < v.mRows, v.mData + (i * v.mStride + v.mCols) ≤ n

/-- A `subview` on the bottom edge passes over no more elements than the storage has from
    the first element of the view on. -/
def LeavesRoom (n : Nat) (v : View) : Op → Prop
  | .subview startRow startColumn _ _ =>
      startRow = v.mRows → startRow * v.mStride + startColumn ≤ n - v.mData
  | _ => True

theorem endsInside_ofMatrix {T : Type} (zero : T) {rows cols : Nat}
    (hsize : rows * cols < 2 ^ 64) :
    EndsInside (Matrix.construct zero rows cols).mData.length
      (View.ofMatrix (Matrix.construct zero rows cols)) where
  start := Nat.zero_le _
  rows i hi := by
    rw [Matrix.construct, List.length_replicate, SizeT.mul_eq hsize]
    show 0 + (i * cols + cols) ≤ rows * cols
    rw [Nat.zero_add, ← Nat.succ_mul]
    exact Nat.mul_le_mul_right cols hi

/-! ## The operations -/

/-- Where a `subview` starts, in a row of the view or below the last one. -/
theorem EndsInside.subview_start {r₀ c₀ h w : Nat} (hv : EndsInside n v)
    (hrows : r₀ + h ≤ v.mRows) (hcols : c₀ + w ≤ v.mCols) :
    v.mData + (r₀ * v.mStride + c₀) ≤ n ↔ LeavesRoom n v (.subview r₀ c₀ h w) := by
  have hstart := hv.start
  constructor
  · intro hle _
    omega
  · intro hroom
    rcases Nat.eq_or_lt_of_le (Nat.le_trans (Nat.le_add_right r₀ h) hrows) with hedge | hlt
    · have := hroom hedge
      omega
    · have := hv.rows r₀ hlt
      omega

theorem EndsInside.subview {r₀ c₀ h w : Nat} (hv : EndsInside n v)
    (hroom : LeavesRoom n v (.subview r₀ c₀ h w)) (hrows : r₀ + h ≤ v.mRows)
    (hcols : c₀ + w ≤ v.mCols) :
    EndsInside n ⟨h, w, v.mStride, v.mData + (r₀ * v.mStride + c₀)⟩ where
  start := (hv.subview_start hrows hcols).mpr hroom
  rows i hi := by
    have hi : i < h := hi
    have hend := hv.rows (r₀ + i) (by omega)
    show v.mData + (r₀ * v.mStride + c₀) + (i * v.mStride + w) ≤ n
    rw [Nat.add_mul] at hend
    omega

theorem EndsInside.crop {h w : Nat} (hv : EndsInside n v) (hrows : h ≤ v.mRows)
    (hcols : w ≤ v.mCols) : EndsInside n { v with mRows := h, mCols := w } where
  start := hv.start
  rows i hi := by
    have hend := hv.rows i (Nat.lt_of_lt_of_le hi hrows)
    show v.mData + (i * v.mStride + w) ≤ n
    omega

/-- A contiguous view has all its elements in one piece. -/
theorem EndsInside.contiguous (hv : EndsInside n v) (hcontiguous : v.mStride = v.mCols) :
    v.mData + v.mRows * v.mCols ≤ n := by
  cases hrows : v.mRows with
  | zero =>
      rw [Nat.zero_mul]
      exact hv.start
  | succ last =>
      have hend := hv.rows last (hrows ▸ Nat.lt_succ_self last)
      rwa [hcontiguous, ← Nat.succ_mul] at hend

theorem EndsInside.reshape {h w : Nat} (hv : EndsInside n v)
    (hcontiguous : v.mStride = v.mCols) (hcount : h * w = v.mRows * v.mCols) :
    EndsInside n { v with mRows := h, mCols := w, mStride := w } where
  start := hv.start
  rows i hi := by
    have hall := hv.contiguous hcontiguous
    have hend : i * w + w ≤ h * w := by
      rw [← Nat.succ_mul]
      exact Nat.mul_le_mul_right w hi
    show v.mData + (i * w + w) ≤ n
    omega

/-- **One operation**: it starts inside exactly if it leaves room, and then its rows end
    inside as well. -/
theorem EndsInside.step {op : Op} (hv : EndsInside n v) (hwrap : NoWrap v op)
    (hok : v.exec op = .ok v') :
    (v'.mData ≤ n ↔ LeavesRoom n v op) ∧ (LeavesRoom n v op → EndsInside n v') := by
  cases op with
  | subview r₀ c₀ h w =>
      obtain ⟨hrows, hcols, rfl⟩ := subview_ok hwrap hok
      exact ⟨hv.subview_start hrows hcols, fun hroom => hv.subview hroom hrows hcols⟩
  | crop h w =>
      obtain ⟨hrows, hcols, rfl⟩ := crop_ok hok
      exact ⟨iff_of_true hv.start trivial, fun _ => hv.crop hrows hcols⟩
  | reshape h w =>
      obtain ⟨hcontiguous, hcount, rfl⟩ := reshape_ok hwrap hok
      exact ⟨iff_of_true hv.start trivial, fun _ => hv.reshape hcontiguous hcount⟩

/-! ## Whole runs -/

/-- Nothing wraps, and a `subview` on the bottom edge leaves room. -/
def StaysInside (n : Nat) (v : View) (op : Op) : Prop := NoWrap v op ∧ LeavesRoom n v op

/-- **No view points outside its matrix** while every `subview` on the bottom edge leaves
    room; and the first one that does not leads to a pointer outside. -/
theorem runs_point_inside {T : Type} {zero : T} {rows cols : Nat}
    (hsize : rows * cols < 2 ^ 64) {ops : List Op}
    (h : Run ((views (Matrix.construct zero rows cols)).restrict
      (StaysInside (Matrix.construct zero rows cols).mData.length)) ops v) :
    v.mData ≤ (Matrix.construct zero rows cols).mData.length
      ∧ ∀ op v', NoWrap v op → v.exec op = .ok v' →
        (v'.mData ≤ (Matrix.construct zero rows cols).mData.length
          ↔ LeavesRoom (Matrix.construct zero rows cols).mData.length v op) := by
  have hv : EndsInside (Matrix.construct zero rows cols).mData.length v := by
    refine Run.invariant
      (I := fun _ v => EndsInside (Matrix.construct zero rows cols).mData.length v) ?_ ?_ h
    · rintro v rfl
      exact endsInside_ofMatrix zero hsize
    · rintro ops v op v' - hv ⟨hok, hwrap, hroom⟩
      exact (hv.step hwrap hok).2 hroom
  exact ⟨hv.start, fun op v' hwrap hok => (hv.step hwrap hok).1⟩

/-- Two columns of a square, and what is below and to the right of them: nothing, at the
    end of the storage. -/
def belowColumns : List Op := [.subview 0 0 3 2, .subview 3 0 0 2]

theorem belowColumns_point_inside : ∃ v,
    Run ((views (Matrix.construct 'x' 3 3)).restrict
      (StaysInside (Matrix.construct 'x' 3 3).mData.length)) belowColumns v
      ∧ v = ⟨0, 2, 3, 9⟩ ∧ v.mData ≤ (Matrix.construct 'x' 3 3).mData.length := by
  have hstart : Run ((views (Matrix.construct 'x' 3 3)).restrict
      (StaysInside (Matrix.construct 'x' 3 3).mData.length)) []
      (View.ofMatrix (Matrix.construct 'x' 3 3)) := .start rfl
  have hcolumns := hstart.snoc (a := Op.subview 0 0 3 2)
    ⟨rfl, by decide, fun hedge => absurd hedge (by decide)⟩
  have hrun := hcolumns.snoc (a := Op.subview 3 0 0 2) ⟨rfl, by decide, fun _ => by decide⟩
  exact ⟨_, hrun, rfl, (runs_point_inside (by decide) hrun).1⟩

/-- The empty rectangle in the lower right corner of a square starts three elements past
    the end. -/
theorem corner_points_outside : ∃ v,
    Run ((views (Matrix.construct 'x' 3 3)).restrict NoWrap) [.subview 3 3 0 0] v
      ∧ ¬ v.mData ≤ (Matrix.construct 'x' 3 3).mData.length := by
  have hstart : Run ((views (Matrix.construct 'x' 3 3)).restrict NoWrap) []
      (View.ofMatrix (Matrix.construct 'x' 3 3)) := .start rfl
  have hrun := hstart.snoc (a := Op.subview 3 3 0 0) ⟨rfl, by decide⟩
  exact ⟨_, hrun, by decide⟩

end MatrixView
