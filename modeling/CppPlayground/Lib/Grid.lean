import Mathlib.Data.Nat.Basic

/-! # Rectangular arrangements of places

    A `Grid` gives each position of a rectangle a place in a linear storage.  `Valid` says
    that the places are inside the storage and differ from each other.  Whatever takes the
    positions of one grid from those of another, each once, keeps it (`Valid.reindex`): a
    part of the rectangle, the transposed rectangle, every `a`-th row and `b`-th column,
    or another rectangle of as many positions, in row-major order. -/

/-- The places of the positions of a rectangle. -/
structure Grid where
  rows : Nat
  cols : Nat
  place : Nat → Nat → Nat

namespace Grid

/-- All positions have places of their own inside a storage of size `n`. -/
structure Valid (n : Nat) (g : Grid) : Prop where
  inside : ∀ i j, i < g.rows → j < g.cols → g.place i j < n
  distinct : ∀ i j i' j', i < g.rows → j < g.cols → i' < g.rows → j' < g.cols →
    g.place i j = g.place i' j' → i = i' ∧ j = j'

/-- Every position of `g'` has the place of a position of `g`. -/
def Within (g' g : Grid) : Prop := ∀ i j, i < g'.rows → j < g'.cols →
  ∃ i' j', i' < g.rows ∧ j' < g.cols ∧ g'.place i j = g.place i' j'

variable {n : Nat} {g g' : Grid}

/-- **Reindexing.**  The positions of `g'` are some of those of `g`, each at most once. -/
theorem Valid.reindex (h : Valid n g) (row col : Nat → Nat → Nat)
    (hrange : ∀ i j, i < g'.rows → j < g'.cols → row i j < g.rows ∧ col i j < g.cols)
    (hinj : ∀ i j i' j', i < g'.rows → j < g'.cols → i' < g'.rows → j' < g'.cols →
      row i j = row i' j' → col i j = col i' j' → i = i' ∧ j = j')
    (hplace : ∀ i j, i < g'.rows → j < g'.cols →
      g'.place i j = g.place (row i j) (col i j)) : Valid n g' where
  inside i j hi hj := by
    obtain ⟨hrow, hcol⟩ := hrange i j hi hj
    rw [hplace i j hi hj]
    exact h.inside _ _ hrow hcol
  distinct i j i' j' hi hj hi' hj' heq := by
    obtain ⟨hrow, hcol⟩ := hrange i j hi hj
    obtain ⟨hrow', hcol'⟩ := hrange i' j' hi' hj'
    rw [hplace i j hi hj, hplace i' j' hi' hj'] at heq
    obtain ⟨hrows, hcols⟩ := h.distinct _ _ _ _ hrow hcol hrow' hcol' heq
    exact hinj i j i' j' hi hj hi' hj' hrows hcols

/-! ## Row-major order -/

theorem rowMajor_lt {rows cols i j : Nat} (hi : i < rows) (hj : j < cols) :
    i * cols + j < rows * cols := by
  have hnext : i * cols + cols ≤ rows * cols := by
    rw [← Nat.succ_mul]
    exact Nat.mul_le_mul_right _ hi
  omega

/-- Rows do not overlap as long as they are not longer than the stride. -/
theorem rowMajor_inj {stride i j i' j' : Nat} (hj : j < stride) (hj' : j' < stride)
    (h : i * stride + j = i' * stride + j') : i = i' ∧ j = j' := by
  have hdiv : ∀ i j, j < stride → (i * stride + j) / stride = i := by
    intro i j hlt
    rw [Nat.add_comm, Nat.add_mul_div_right _ _ (Nat.zero_lt_of_lt hlt),
      Nat.div_eq_of_lt hlt, Nat.zero_add]
  have hrow : i = i' := by rw [← hdiv i j hj, h, hdiv i' j' hj']
  subst hrow
  exact ⟨rfl, Nat.add_left_cancel h⟩

/-- The whole of a storage, row by row. -/
theorem valid_rowMajor (rows cols : Nat) :
    Valid (rows * cols) ⟨rows, cols, fun i j => i * cols + j⟩ where
  inside _ _ hi hj := rowMajor_lt hi hj
  distinct _ _ _ _ _ hj _ hj' heq := rowMajor_inj hj hj' heq

/-- The `k`-th position in row-major order. -/
theorem rowMajor_position {rows cols k : Nat} (hk : k < rows * cols) :
    k / cols < rows ∧ k % cols < cols := by
  have hcols : 0 < cols := by
    rcases Nat.eq_zero_or_pos cols with hzero | hpos
    · rw [hzero, Nat.mul_zero] at hk
      exact absurd hk (Nat.not_lt_zero k)
    · exact hpos
  exact ⟨Nat.div_lt_of_lt_mul (Nat.mul_comm rows cols ▸ hk), Nat.mod_lt k hcols⟩

/-- And back: position `(k / cols, k % cols)` is the `k`-th. -/
theorem rowMajor_index {rows cols k : Nat} (hk : k < rows * cols) :
    ∃ i j, i < rows ∧ j < cols ∧ i * cols + j = k := by
  obtain ⟨hi, hj⟩ := rowMajor_position hk
  exact ⟨k / cols, k % cols, hi, hj, by rw [Nat.mul_comm, Nat.div_add_mod]⟩

/-! ## Operations -/

/-- A part of the rectangle. -/
theorem Valid.part (h : Valid n g) {row₀ col₀ : Nat} (hrows : row₀ + g'.rows ≤ g.rows)
    (hcols : col₀ + g'.cols ≤ g.cols)
    (hplace : ∀ i j, i < g'.rows → j < g'.cols →
      g'.place i j = g.place (row₀ + i) (col₀ + j)) : Valid n g' := by
  refine h.reindex (fun i _ => row₀ + i) (fun _ j => col₀ + j) ?_ ?_ hplace
  · intro i j hi hj
    exact ⟨by omega, by omega⟩
  · intro i j i' j' _ _ _ _ hrow hcol
    exact ⟨Nat.add_left_cancel hrow, Nat.add_left_cancel hcol⟩

theorem within_part {row₀ col₀ : Nat} (hrows : row₀ + g'.rows ≤ g.rows)
    (hcols : col₀ + g'.cols ≤ g.cols)
    (hplace : ∀ i j, i < g'.rows → j < g'.cols → row₀ + i < g.rows → col₀ + j < g.cols →
      g'.place i j = g.place (row₀ + i) (col₀ + j)) : Within g' g := by
  intro i j hi hj
  have hrow : row₀ + i < g.rows := Nat.lt_of_lt_of_le (Nat.add_lt_add_left hi _) hrows
  have hcol : col₀ + j < g.cols := Nat.lt_of_lt_of_le (Nat.add_lt_add_left hj _) hcols
  exact ⟨row₀ + i, col₀ + j, hrow, hcol, hplace i j hi hj hrow hcol⟩

/-- The upper left part of a rectangle. -/
theorem Valid.corner (h : Valid n g) (hrows : g'.rows ≤ g.rows) (hcols : g'.cols ≤ g.cols)
    (hplace : ∀ i j, i < g'.rows → j < g'.cols → g'.place i j = g.place i j) : Valid n g' := by
  refine h.reindex (fun i _ => i) (fun _ j => j) ?_ ?_ hplace
  · intro i j hi hj
    exact ⟨Nat.lt_of_lt_of_le hi hrows, Nat.lt_of_lt_of_le hj hcols⟩
  · intro i j i' j' _ _ _ _ hrow hcol
    exact ⟨hrow, hcol⟩

/-- The transposed rectangle. -/
theorem Valid.transpose (h : Valid n g) (hrows : g'.rows = g.cols) (hcols : g'.cols = g.rows)
    (hplace : ∀ i j, g'.place i j = g.place j i) : Valid n g' := by
  refine h.reindex (fun _ j => j) (fun i _ => i) ?_ ?_ (fun i j _ _ => hplace i j)
  · intro i j hi hj
    exact ⟨hcols ▸ hj, hrows ▸ hi⟩
  · exact fun _ _ _ _ _ _ _ _ hj hi => ⟨hi, hj⟩

/-- Every `a`-th row and every `b`-th column. -/
theorem Valid.every (h : Valid n g) {a b : Nat} (ha : 0 < a) (hb : 0 < b)
    (hrows : ∀ i, i < g'.rows → i * a < g.rows) (hcols : ∀ j, j < g'.cols → j * b < g.cols)
    (hplace : ∀ i j, g'.place i j = g.place (i * a) (j * b)) : Valid n g' := by
  refine h.reindex (fun i _ => i * a) (fun _ j => j * b) ?_ ?_ (fun i j _ _ => hplace i j)
  · intro i j hi hj
    exact ⟨hrows i hi, hcols j hj⟩
  · intro i j i' j' _ _ _ _ hrow hcol
    exact ⟨Nat.eq_of_mul_eq_mul_right ha hrow, Nat.eq_of_mul_eq_mul_right hb hcol⟩

/-- Another rectangle with as many positions, in the same row-major order. -/
theorem Valid.reshape (h : Valid n g) (hcount : g'.rows * g'.cols = g.rows * g.cols)
    (hplace : ∀ k, k < g.rows * g.cols →
      g'.place (k / g'.cols) (k % g'.cols) = g.place (k / g.cols) (k % g.cols)) :
    Valid n g' := by
  have hposition : ∀ i j, i < g'.rows → j < g'.cols → i * g'.cols + j < g.rows * g.cols := by
    intro i j hi hj
    rw [← hcount]
    exact rowMajor_lt hi hj
  have hback : ∀ i j, j < g'.cols →
      (i * g'.cols + j) / g'.cols = i ∧ (i * g'.cols + j) % g'.cols = j := by
    intro i j hj
    have hpos : 0 < g'.cols := Nat.zero_lt_of_lt hj
    refine rowMajor_inj (Nat.mod_lt _ hpos) hj ?_
    rw [Nat.mul_comm, Nat.div_add_mod]
  refine h.reindex (fun i j => (i * g'.cols + j) / g.cols)
    (fun i j => (i * g'.cols + j) % g.cols) ?_ ?_ ?_
  · intro i j hi hj
    exact rowMajor_position (hposition i j hi hj)
  · intro i j i' j' hi hj hi' hj' hrow hcol
    refine rowMajor_inj hj hj' ?_
    rw [← Nat.div_add_mod (i * g'.cols + j) g.cols, hrow, hcol, Nat.div_add_mod]
  · intro i j hi hj
    have hk := hplace _ (hposition i j hi hj)
    rwa [(hback i j hj).1, (hback i j hj).2] at hk

end Grid
