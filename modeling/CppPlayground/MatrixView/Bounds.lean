import CppPlayground.MatrixView.Rectangles
import CppPlayground.MatrixView.Selections

/-! # What the checks of the views let through

    `subview` checks the sum of a start and a count, `Matrix` allocates the product of two
    sizes and `reshape` compares two such products, all modulo `2 ^ 64`.  What a check
    promises is a law about the mathematical numbers; for each of them this file says for
    exactly which arguments the law holds. -/

namespace MatrixView

open Transition

/-! ## Sums: `subview` -/

/-- The positions of a view with the places that `operator()` computes for them. -/
def View.addresses (v : View) : Grid := ⟨v.mRows, v.mCols, v.element⟩

/-- The positions of a view with the places that `operator()` computes for them. -/
def StridedView.addresses (v : StridedView) : Grid := ⟨v.mRows, v.mCols, v.element⟩

/-- A view over a storage of size `n`, by the places of its positions without wrapping. -/
structure Over (n : Nat) (g : Grid) : Prop where
  rows : g.rows < 2 ^ 64
  cols : g.cols < 2 ^ 64
  inside : ∀ i j, i < g.rows → j < g.cols → g.place i j < n

/-- A `subview(r₀, c₀, h, w)` with the given result accepts exactly the rectangles inside
    the view; `addresses` is that of the class of the view. -/
structure AcceptsInside {V : Type} (addresses : V → Grid) (v : V) (r₀ c₀ h w : Nat)
    (result : Except Error V) : Prop where
  accepts : (∃ v', result = .ok v')
    ↔ r₀ + h ≤ (addresses v).rows ∧ c₀ + w ≤ (addresses v).cols
  rejects : ¬ (r₀ + h ≤ (addresses v).rows ∧ c₀ + w ≤ (addresses v).cols) →
    result = .error (.outOfRange "Subview out-of-bounds")
  within : ∀ v', result = .ok v' → (addresses v').Within (addresses v)

/-- A sum that wraps around to a number up to `size`. -/
def WrapsInto (start count size : Nat) : Prop :=
  2 ^ 64 ≤ start + count ∧ start + count ≤ 2 ^ 64 + size

/-- A sum wraps around, and in neither dimension can the check tell. -/
def Deceives (rows cols r₀ c₀ h w : Nat) : Prop :=
  (r₀ + h ≤ rows ∨ WrapsInto r₀ h rows) ∧ (c₀ + w ≤ cols ∨ WrapsInto c₀ w cols)
    ∧ (WrapsInto r₀ h rows ∨ WrapsInto c₀ w cols)

variable {n : Nat} {r₀ c₀ h w : Nat}

/-- What one comparison of the check says about the numbers. -/
theorem add_le_iff {start count : Nat} (hstart : start < 2 ^ 64) (hcount : count < 2 ^ 64)
    (size : Nat) :
    SizeT.add start count ≤ size ↔ start + count ≤ size ∨ WrapsInto start count size := by
  rw [SizeT.add, WrapsInto]
  by_cases hwrap : start + count < 2 ^ 64
  · rw [Nat.mod_eq_of_lt hwrap]
    omega
  · rw [Nat.mod_eq_sub_mod (Nat.not_lt.mp hwrap), Nat.mod_eq_of_lt (by omega)]
    omega

/-- **The check.**  Whatever the class of the view does with a rectangle that passes. -/
theorem acceptsInside_iff {V : Type} (addresses : V → Grid) {v v' : V}
    (hrows : (addresses v).rows < 2 ^ 64) (hcols : (addresses v).cols < 2 ^ 64)
    (hr₀ : r₀ < 2 ^ 64) (hc₀ : c₀ < 2 ^ 64) (hh : h < 2 ^ 64) (hw : w < 2 ^ 64)
    (hwithin : r₀ + h ≤ (addresses v).rows → c₀ + w ≤ (addresses v).cols →
      (addresses v').Within (addresses v)) :
    AcceptsInside addresses v r₀ c₀ h w
        (if (addresses v).rows < SizeT.add r₀ h ∨ (addresses v).cols < SizeT.add c₀ w then
          .error (.outOfRange "Subview out-of-bounds") else .ok v')
      ↔ ¬ Deceives (addresses v).rows (addresses v).cols r₀ c₀ h w := by
  have hrow := add_le_iff hr₀ hh (addresses v).rows
  have hcol := add_le_iff hc₀ hw (addresses v).cols
  have hpast : ∀ {start count size : Nat}, size < 2 ^ 64 → WrapsInto start count size →
      ¬ start + count ≤ size := by
    intro start count size hsize hwraps hle
    have := hwraps.1
    omega
  constructor
  · rintro hlaw ⟨hrowPasses, hcolPasses, hwraps⟩
    rw [if_neg (not_or.mpr ⟨Nat.not_lt.mpr (hrow.mpr hrowPasses),
      Nat.not_lt.mpr (hcol.mpr hcolPasses)⟩)] at hlaw
    obtain ⟨hrowFits, hcolFits⟩ := hlaw.accepts.mp ⟨v', rfl⟩
    rcases hwraps with hwraps | hwraps
    · exact hpast hrows hwraps hrowFits
    · exact hpast hcols hwraps hcolFits
  · intro htells
    by_cases hfits : r₀ + h ≤ (addresses v).rows ∧ c₀ + w ≤ (addresses v).cols
    · rw [if_neg (not_or.mpr ⟨Nat.not_lt.mpr (hrow.mpr (Or.inl hfits.1)),
        Nat.not_lt.mpr (hcol.mpr (Or.inl hfits.2))⟩)]
      refine ⟨iff_of_true ⟨v', rfl⟩ hfits, fun hnot => absurd hfits hnot, ?_⟩
      intro v'' hok
      obtain rfl : v' = v'' := Except.ok.inj hok
      exact hwithin hfits.1 hfits.2
    · -- outside, and the check can tell: otherwise a sum would wrap around unnoticed
      have hfails : (addresses v).rows < SizeT.add r₀ h ∨ (addresses v).cols < SizeT.add c₀ w := by
        by_contra hpasses
        rw [not_or, Nat.not_lt, Nat.not_lt, hrow, hcol] at hpasses
        refine htells ⟨hpasses.1, hpasses.2, ?_⟩
        rcases hpasses.1 with hin | hwraps
        · exact Or.inr (hpasses.2.resolve_left fun hin' => hfits ⟨hin, hin'⟩)
        · exact Or.inl hwraps
      rw [if_pos hfails]
      refine ⟨iff_of_false ?_ hfits, fun _ => rfl, ?_⟩
      · rintro ⟨v'', hok⟩
        cases hok
      · intro v'' hok
        cases hok

theorem View.subview_within {v : View} (hv : Over n v.grid) (hn : n < 2 ^ 64)
    (hrows : r₀ + h ≤ v.mRows) (hcols : c₀ + w ≤ v.mCols) :
    (⟨h, w, v.mStride, v.mData + v.index r₀ c₀⟩ : View).addresses.Within v.addresses := by
  refine Grid.within_part hrows hcols ?_
  intro i j _ _ hrow hcol
  have hinside : v.mData + ((r₀ + i) * v.mStride + (c₀ + j)) < n := hv.inside _ _ hrow hcol
  have hindex : v.index (r₀ + i) (c₀ + j) = (r₀ + i) * v.mStride + (c₀ + j) :=
    index_eq (by omega)
  show v.mData + v.index r₀ c₀ + View.index ⟨h, w, v.mStride, _⟩ i j
    = v.mData + v.index (r₀ + i) (c₀ + j)
  rw [hindex]
  rw [Nat.add_mul] at hinside ⊢
  rw [index_eq (by omega), index_eq (by show i * v.mStride + j < 2 ^ 64; omega)]
  show v.mData + (r₀ * v.mStride + c₀) + (i * v.mStride + j) = _
  omega

theorem StridedView.subview_within {v : StridedView} (hv : Over n v.grid) (hn : n < 2 ^ 64)
    (hrows : r₀ + h ≤ v.mRows) (hcols : c₀ + w ≤ v.mCols) :
    (⟨v.mData + v.index r₀ c₀, h, w, v.mRowStride, v.mColStride⟩ :
      StridedView).addresses.Within v.addresses := by
  refine Grid.within_part hrows hcols ?_
  intro i j _ _ hrow hcol
  have hinside : v.mData + ((r₀ + i) * v.mRowStride + (c₀ + j) * v.mColStride) < n :=
    hv.inside _ _ hrow hcol
  have hindex : v.index (r₀ + i) (c₀ + j)
      = (r₀ + i) * v.mRowStride + (c₀ + j) * v.mColStride := StridedView.index_eq (by omega)
  show v.mData + v.index r₀ c₀ + StridedView.index ⟨_, h, w, v.mRowStride, v.mColStride⟩ i j
    = v.mData + v.index (r₀ + i) (c₀ + j)
  rw [hindex]
  rw [Nat.add_mul, Nat.add_mul] at hinside ⊢
  rw [StridedView.index_eq (by omega), StridedView.index_eq
    (by show i * v.mRowStride + j * v.mColStride < 2 ^ 64; omega)]
  show v.mData + (r₀ * v.mRowStride + c₀ * v.mColStride)
    + (i * v.mRowStride + j * v.mColStride) = _
  omega

/-- **`subview` accepts exactly the rectangles inside**, in both classes and for all
    arguments, unless a sum wraps around and deceives the check. -/
theorem subview_acceptsInside_iff (hn : n < 2 ^ 64) (hr₀ : r₀ < 2 ^ 64) (hc₀ : c₀ < 2 ^ 64)
    (hh : h < 2 ^ 64) (hw : w < 2 ^ 64) :
    (∀ v : View, Over n v.grid →
      (AcceptsInside View.addresses v r₀ c₀ h w (v.subview r₀ c₀ h w)
        ↔ ¬ Deceives v.mRows v.mCols r₀ c₀ h w))
      ∧ ∀ v : StridedView, Over n v.grid →
        (AcceptsInside StridedView.addresses v r₀ c₀ h w (v.subview r₀ c₀ h w)
          ↔ ¬ Deceives v.mRows v.mCols r₀ c₀ h w) := by
  constructor
  · intro v hv
    exact acceptsInside_iff View.addresses hv.rows hv.cols hr₀ hc₀ hh hw
      (View.subview_within hv hn)
  · intro v hv
    exact acceptsInside_iff StridedView.addresses hv.rows hv.cols hr₀ hc₀ hh hw
      (StridedView.subview_within hv hn)

theorem Sound.over {v : View} (hs : Sound n v) (hrows : v.mRows < 2 ^ 64)
    (hcols : v.mCols < 2 ^ 64) : Over n v.grid := ⟨hrows, hcols, hs.valid.inside⟩

theorem StridedView.over_of_valid {v : StridedView} (hv : v.grid.Valid n)
    (hrows : v.mRows < 2 ^ 64) (hcols : v.mCols < 2 ^ 64) : Over n v.grid :=
  ⟨hrows, hcols, hv.inside⟩

/-- A square of nine elements, and the views of the whole of it. -/
def square : Matrix Char := Matrix.construct 'x' 3 3

theorem over_square :
    Over 9 (View.ofMatrix square).grid ∧ Over 9 (StridedView.ofMatrix square).grid :=
  have hsize : 3 * 3 < 2 ^ 64 := by decide
  ⟨(sound_ofMatrix 'x' hsize).over (by decide) (by decide),
    StridedView.over_of_valid (StridedView.valid_ofMatrix 'x' hsize) (by decide) (by decide)⟩

/-- The lower right corner of the square is accepted for what it is. -/
theorem square_acceptsInside :
    AcceptsInside View.addresses (View.ofMatrix square) 1 1 2 2
        ((View.ofMatrix square).subview 1 1 2 2)
      ∧ AcceptsInside StridedView.addresses (StridedView.ofMatrix square) 1 1 2 2
        ((StridedView.ofMatrix square).subview 1 1 2 2) := by
  have hone : 1 < 2 ^ 64 := by decide
  have htwo : 2 < 2 ^ 64 := by decide
  have hlaw := subview_acceptsInside_iff (show 9 < 2 ^ 64 by decide) hone hone htwo htwo
  have htells : ¬ Deceives 3 3 1 1 2 2 := by simp [Deceives, WrapsInto]
  exact ⟨(hlaw.1 _ over_square.1).mpr htells, (hlaw.2 _ over_square.2).mpr htells⟩

/-- A row that starts at `2 ^ 64 - 1` is accepted as well: one position, far outside the
    nine elements. -/
theorem subview_accepts_outside :
    Over 9 (View.ofMatrix square).grid ∧ Over 9 (StridedView.ofMatrix square).grid
      ∧ (View.ofMatrix square).subview (2 ^ 64 - 1) 0 1 1 = .ok ⟨1, 1, 3, 2 ^ 64 - 3⟩
      ∧ (StridedView.ofMatrix square).subview (2 ^ 64 - 1) 0 1 1
        = .ok ⟨2 ^ 64 - 3, 1, 1, 3, 1⟩
      ∧ ¬ AcceptsInside View.addresses (View.ofMatrix square) (2 ^ 64 - 1) 0 1 1
        ((View.ofMatrix square).subview (2 ^ 64 - 1) 0 1 1)
      ∧ ¬ AcceptsInside StridedView.addresses (StridedView.ofMatrix square) (2 ^ 64 - 1) 0 1 1
        ((StridedView.ofMatrix square).subview (2 ^ 64 - 1) 0 1 1) := by
  have hview : (View.ofMatrix square).subview (2 ^ 64 - 1) 0 1 1 = .ok ⟨1, 1, 3, 2 ^ 64 - 3⟩ := by
    decide
  have hstrided : (StridedView.ofMatrix square).subview (2 ^ 64 - 1) 0 1 1
      = .ok ⟨2 ^ 64 - 3, 1, 1, 3, 1⟩ := by decide
  refine ⟨over_square.1, over_square.2, hview, hstrided, ?_, ?_⟩
  · intro hlaw
    exact absurd (hlaw.accepts.mp ⟨_, hview⟩).1 (by decide)
  · intro hlaw
    exact absurd (hlaw.accepts.mp ⟨_, hstrided⟩).1 (by decide)

/-! ## Products: `Matrix` and `reshape` -/

/-- `Matrix(rows, cols)`; `holds` says which sizes a `std::vector<T>` can have, it throws at
    any other. -/
def Matrix.tryConstruct {T : Type} (holds : Nat → Bool) (zero : T) (rows cols : Nat) :
    Option (Matrix T) :=
  if holds (SizeT.mul rows cols) then some (Matrix.construct zero rows cols) else none

/-- The positions of a matrix with the indices that `operator()` computes for them. -/
def Matrix.addresses {T : Type} (m : Matrix T) : Grid :=
  ⟨m.mRows, m.mCols, fun row col => SizeT.add (SizeT.mul row m.mCols) col⟩

/-- If `Matrix(rows, cols)` returns, `m_data` has an element for every position. -/
def HoldsAll {T : Type} (holds : Nat → Bool) (zero : T) (rows cols : Nat) : Prop :=
  ∀ m, Matrix.tryConstruct holds zero rows cols = some m →
    ∀ row col, row < rows → col < cols → m.addresses.place row col < m.mData.length

/-- If `reshape(h, w)` returns, every position has an element that the view had before. -/
def KeepsElements (v : View) (h w : Nat) : Prop :=
  ∀ v', v.reshape h w = .ok v' → v'.addresses.Within v.addresses

/-- The index of a position is reduced once, as a whole. -/
theorem index_mod (row col stride : Nat) :
    SizeT.add (SizeT.mul row stride) col = (row * stride + col) % 2 ^ 64 :=
  Nat.mod_add_mod _ _ _

theorem holdsAll_iff {T : Type} (holds : Nat → Bool) (zero : T) (rows cols : Nat) :
    HoldsAll holds zero rows cols
      ↔ rows * cols < 2 ^ 64 ∨ holds (SizeT.mul rows cols) = false := by
  have hlength : (Matrix.construct zero rows cols).mData.length = rows * cols % 2 ^ 64 :=
    List.length_replicate
  constructor
  · intro hall
    by_contra hcond
    rw [not_or, Nat.not_lt, Bool.not_eq_false] at hcond
    -- as many positions as there are elements lie before this one
    have hlt : rows * cols % 2 ^ 64 < rows * cols :=
      Nat.lt_of_lt_of_le (Nat.mod_lt _ (by decide)) hcond.1
    obtain ⟨row, col, hrow, hcol, hindex⟩ := Grid.rowMajor_index hlt
    have hplace := hall _ (if_pos hcond.2) row col hrow hcol
    rw [hlength] at hplace
    have hsame : SizeT.add (SizeT.mul row cols) col = rows * cols % 2 ^ 64 := by
      rw [index_mod, hindex, Nat.mod_mod]
    exact absurd hplace (by rw [← hsame]; exact Nat.lt_irrefl _)
  · rintro hcond m hm row col hrow hcol
    rw [Matrix.tryConstruct] at hm
    split at hm
    · rename_i hholds
      obtain rfl := Option.some.inj hm
      have hsize : rows * cols < 2 ^ 64 := hcond.resolve_right (by simp [hholds])
      have hlt := Grid.rowMajor_lt hrow hcol
      show SizeT.add (SizeT.mul row cols) col < _
      rw [hlength, index_mod, Nat.mod_eq_of_lt hsize, Nat.mod_eq_of_lt (by omega)]
      exact hlt
    · cases hm

theorem View.place_eq (v : View) (i j : Nat) :
    v.addresses.place i j = v.mData + (i * v.mStride + j) % 2 ^ 64 :=
  congrArg (v.mData + ·) (index_mod i j v.mStride)

/-- `reshape` is deceived: the products agree modulo `2 ^ 64`, but one is too large. -/
def FakesCount (v : View) (h w : Nat) : Prop :=
  v.mStride = v.mCols ∧ v.mRows * v.mCols < 2 ^ 64 ∧ 2 ^ 64 ≤ h * w
    ∧ h * w % 2 ^ 64 = v.mRows * v.mCols

theorem keepsElements_iff (v : View) (h w : Nat) : KeepsElements v h w ↔ ¬ FakesCount v h w := by
  constructor
  · rintro hkeeps ⟨hcontiguous, hold, hnew, hsame⟩
    have hok : v.reshape h w = .ok { v with mRows := h, mCols := w, mStride := w } := by
      have hcount : SizeT.mul h w = SizeT.mul v.mRows v.mCols := by
        rw [SizeT.mul_eq hold]
        exact hsame
      simp [View.reshape, View.isContiguous, hcontiguous, hcount]
    -- the first position that the view did not have
    obtain ⟨i, j, hi, hj, hindex⟩ := Grid.rowMajor_index (Nat.lt_of_lt_of_le hold hnew)
    obtain ⟨i', j', hi', hj', hplace⟩ := hkeeps _ hok i j hi hj
    rw [View.place_eq, View.place_eq, hcontiguous] at hplace
    have hlt := Grid.rowMajor_lt hi' hj'
    have hplace : (i * w + j) % 2 ^ 64 = (i' * v.mCols + j') % 2 ^ 64 :=
      Nat.add_left_cancel hplace
    have hlt : i' * v.mCols + j' < v.mRows * v.mCols := hlt
    rw [hindex, Nat.mod_eq_of_lt hold, Nat.mod_eq_of_lt (by omega)] at hplace
    omega
  · intro hhonest v' hok i j hi hj
    rw [View.reshape] at hok
    split at hok
    · cases hok
    rename_i hcontiguous
    split at hok
    · cases hok
    rename_i hcount
    obtain rfl := Except.ok.inj hok
    have hcontiguous : v.mStride = v.mCols :=
      of_decide_eq_true (eq_true_of_ne_false hcontiguous)
    have hcount : h * w % 2 ^ 64 = v.mRows * v.mCols % 2 ^ 64 := not_not.mp hcount
    have hlt : i * w + j < h * w := Grid.rowMajor_lt hi hj
    -- the same index, whichever of the products wraps
    have hindex : (i * w + j) % 2 ^ 64 < v.mRows * v.mCols := by
      by_cases hold : v.mRows * v.mCols < 2 ^ 64
      · rw [Nat.mod_eq_of_lt hold] at hcount
        have hnew : h * w < 2 ^ 64 := by
          by_contra hwraps
          exact hhonest ⟨hcontiguous, hold, Nat.not_lt.mp hwraps, hcount⟩
        rw [Nat.mod_eq_of_lt hnew] at hcount
        rw [Nat.mod_eq_of_lt (by omega)]
        omega
      · exact Nat.lt_of_lt_of_le (Nat.mod_lt _ (by decide)) (Nat.not_lt.mp hold)
    obtain ⟨i', j', hi', hj', hsame⟩ := Grid.rowMajor_index hindex
    refine ⟨i', j', hi', hj', ?_⟩
    rw [View.place_eq, View.place_eq, hcontiguous, hsame, Nat.mod_mod]

/-- **Element counts**: a `Matrix` has an element for each of its positions, and a `reshape`
    keeps to the elements of the view, exactly if no wrapped product passes for the count. -/
theorem counts_hold_iff {T : Type} (holds : Nat → Bool) (zero : T) :
    (∀ rows cols, HoldsAll holds zero rows cols
        ↔ rows * cols < 2 ^ 64 ∨ holds (SizeT.mul rows cols) = false)
      ∧ ∀ v h w, KeepsElements v h w ↔ ¬ FakesCount v h w :=
  ⟨holdsAll_iff holds zero, keepsElements_iff⟩

/-- `Matrix(2 ^ 32, 2 ^ 32)` returns without an element, and a view without an element can
    be reshaped to as many rows and columns. -/
theorem counts_faked :
    ¬ HoldsAll (fun count => count < 2 ^ 63) 'x' (2 ^ 32) (2 ^ 32)
      ∧ (View.ofMatrix (Matrix.construct 'x' 0 0)).reshape (2 ^ 32) (2 ^ 32)
        = .ok ⟨2 ^ 32, 2 ^ 32, 2 ^ 32, 0⟩
      ∧ ¬ KeepsElements (View.ofMatrix (Matrix.construct 'x' 0 0)) (2 ^ 32) (2 ^ 32) := by
  have hreshape : (View.ofMatrix (Matrix.construct 'x' 0 0)).reshape (2 ^ 32) (2 ^ 32)
      = .ok ⟨2 ^ 32, 2 ^ 32, 2 ^ 32, 0⟩ := by decide
  refine ⟨?_, hreshape, ?_⟩
  · intro hall
    exact absurd (hall _ rfl 0 0 (by decide) (by decide)) (by decide)
  · intro hkeeps
    obtain ⟨i', -, hi', -⟩ := hkeeps _ hreshape 0 0 (by decide) (by decide)
    exact absurd hi' (Nat.not_lt_zero i')

end MatrixView
