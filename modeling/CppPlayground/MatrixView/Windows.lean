import Mathlib.Logic.Function.Basic
import CppPlayground.MatrixView.Program
import CppPlayground.MatrixView.Rectangles
import CppPlayground.MatrixView.Selections

/-! # Views are windows onto one sheet

    What programs on a matrix and its views mean, without places: a sheet of cells, and
    windows whose positions show cells.  An assignment through a window changes
    the cell it shows, for the matrix and for all windows that show it; printing shows the
    cells row by row.  `runs_are_windows`: that is what every program does in which
    nothing wraps. -/

namespace MatrixView

open Transition Program

variable {T : Type} {R C : Nat}

/-- A window, the cell that each of its positions shows, and the number of positions from
    a row to the next: the rows adjoin if it is the number of columns. -/
structure Window where
  rows : Nat
  cols : Nat
  pitch : Nat
  cell : Nat → Nat → Nat × Nat

namespace Window

/-- The whole sheet. -/
def whole (R C : Nat) : Window := ⟨R, C, C, fun i j => (i, j)⟩

/-- A rectangle of the window. -/
def part (w : Window) (r₀ c₀ h k : Nat) : Window :=
  ⟨h, k, w.pitch, fun i j => w.cell (r₀ + i) (c₀ + j)⟩

/-- The same cells in the same order, in rows of another length. -/
def relist (w : Window) (h k : Nat) : Window :=
  ⟨h, k, k, fun i j => w.cell ((i * k + j) / w.cols) ((i * k + j) % w.cols)⟩

/-- Rows become columns.  A strided window is never reshaped, and its pitch never asked. -/
def flip (w : Window) : Window := ⟨w.cols, w.rows, w.pitch, fun i j => w.cell j i⟩

/-- Every `a`-th row and `b`-th column. -/
def every (w : Window) (a b : Nat) : Window :=
  ⟨(w.rows + a - 1) / a, (w.cols + b - 1) / b, w.pitch, fun i j => w.cell (i * a) (j * b)⟩

/-- What the operations of a `MatrixView` return. -/
inductive Derives (w : Window) : Op → Window → Prop where
  | subview {r₀ c₀ h k : Nat} : r₀ + h ≤ w.rows → c₀ + k ≤ w.cols →
      Derives w (.subview r₀ c₀ h k) (w.part r₀ c₀ h k)
  | crop {h k : Nat} : h ≤ w.rows → k ≤ w.cols → Derives w (.crop h k) (w.part 0 0 h k)
  | reshape {h k : Nat} : w.pitch = w.cols → h * k = w.rows * w.cols →
      Derives w (.reshape h k) (w.relist h k)

/-- What they throw. -/
inductive Refuses (w : Window) : Op → Error → Prop where
  | subview {r₀ c₀ h k : Nat} : ¬ (r₀ + h ≤ w.rows ∧ c₀ + k ≤ w.cols) →
      Refuses w (.subview r₀ c₀ h k) (.outOfRange "Subview out-of-bounds")
  | crop {h k : Nat} : ¬ (h ≤ w.rows ∧ k ≤ w.cols) →
      Refuses w (.crop h k) (.lengthError "Cannot grow a matrix view")
  | rows {h k : Nat} : w.pitch ≠ w.cols →
      Refuses w (.reshape h k) (.logicError "Can only reshape a continuous MatrixView")
  | count {h k : Nat} : w.pitch = w.cols → h * k ≠ w.rows * w.cols →
      Refuses w (.reshape h k)
        (.lengthError "MatrixView reshape must preserve number of elements")

/-- What the operations of a `StridedMatrixView` return. -/
inductive DerivesStrided (w : Window) : StridedOp → Window → Prop where
  | subview {r₀ c₀ h k : Nat} : r₀ + h ≤ w.rows → c₀ + k ≤ w.cols →
      DerivesStrided w (.subview r₀ c₀ h k) (w.part r₀ c₀ h k)
  | transpose : DerivesStrided w .transpose w.flip
  | stride {a b : Nat} : 0 < a → 0 < b → DerivesStrided w (.stride a b) (w.every a b)

/-- What they throw. -/
inductive RefusesStrided (w : Window) : StridedOp → Error → Prop where
  | subview {r₀ c₀ h k : Nat} : ¬ (r₀ + h ≤ w.rows ∧ c₀ + k ≤ w.cols) →
      RefusesStrided w (.subview r₀ c₀ h k) (.outOfRange "Subview out-of-bounds")
  | stride {a b : Nat} : ¬ (0 < a ∧ 0 < b) →
      RefusesStrided w (.stride a b) (.invalidArgument "Row & col step must be positive")

variable {w w₁ w₂ : Window} {op : Op} {sop : StridedOp} {e e₁ e₂ : Error}

theorem Derives.unique (h₁ : w.Derives op w₁) (h₂ : w.Derives op w₂) : w₁ = w₂ := by
  cases h₁ <;> cases h₂ <;> rfl

theorem Derives.not_refuses (h : w.Derives op w₁) : ¬ w.Refuses op e := by
  intro hrefuses
  cases h with
  | subview hr hc => cases hrefuses with | subview hout => exact hout ⟨hr, hc⟩
  | crop hr hc => cases hrefuses with | crop hout => exact hout ⟨hr, hc⟩
  | reshape hadjoin hcount =>
      cases hrefuses with
      | rows hapart => exact hapart hadjoin
      | count _ hother => exact hother hcount

theorem Refuses.unique (h₁ : w.Refuses op e₁) (h₂ : w.Refuses op e₂) : e₁ = e₂ := by
  cases h₁ with
  | subview _ => cases h₂; rfl
  | crop _ => cases h₂; rfl
  | rows hapart =>
      cases h₂ with
      | rows _ => rfl
      | count hadjoin _ => exact absurd hadjoin hapart
  | count hadjoin _ =>
      cases h₂ with
      | rows hapart => exact absurd hadjoin hapart
      | count _ _ => rfl

theorem DerivesStrided.unique (h₁ : w.DerivesStrided sop w₁) (h₂ : w.DerivesStrided sop w₂) :
    w₁ = w₂ := by
  cases h₁ <;> cases h₂ <;> rfl

theorem DerivesStrided.not_refuses (h : w.DerivesStrided sop w₁) : ¬ w.RefusesStrided sop e := by
  intro hrefuses
  cases h with
  | subview hr hc => cases hrefuses with | subview hout => exact hout ⟨hr, hc⟩
  | transpose => cases hrefuses
  | stride ha hb => cases hrefuses with | stride hout => exact hout ⟨ha, hb⟩

theorem RefusesStrided.unique (h₁ : w.RefusesStrided sop e₁) (h₂ : w.RefusesStrided sop e₂) :
    e₁ = e₂ := by
  cases h₁ <;> cases h₂ <;> rfl

end Window

/-- The cells, the windows and the output. -/
structure Sheet (T : Type) where
  cell : Nat × Nat → T
  windows : List Window
  output : List (Piece T)

/-- A row of values, each with a blank. -/
def rowPieces (value : Nat → T) : Nat → List (Piece T)
  | 0 => []
  | cols + 1 => rowPieces value cols ++ [.value (value cols), .char ' ']

/-- Rows of values, each with a newline. -/
def gridPieces (value : Nat → Nat → T) (cols : Nat) : Nat → List (Piece T)
  | 0 => []
  | rows + 1 => gridPieces value cols rows ++ rowPieces (value rows) cols ++ [.char '\n']

/-- What a window shows. -/
def Sheet.shown (σ : Sheet T) (w : Window) : List (Piece T) :=
  gridPieces (fun i j => σ.cell (w.cell i j)) w.cols w.rows

/-- A program on a sheet of `R` rows and `C` columns. -/
inductive SheetStep (R C : Nat) (σ : Sheet T) : Line T → Sheet T → Prop where
  | view : SheetStep R C σ (.view, .ok ())
      { σ with windows := σ.windows ++ [Window.whole R C] }
  | stridedView : SheetStep R C σ (.stridedView, .ok ())
      { σ with windows := σ.windows ++ [Window.whole R C] }
  | derive {k : Nat} {op : Op} {w w' : Window} : σ.windows[k]? = some w → w.Derives op w' →
      SheetStep R C σ (.derive k op, .ok ()) { σ with windows := op.store k w' σ.windows }
  | refuse {k : Nat} {op : Op} {w : Window} {e : Error} : σ.windows[k]? = some w →
      w.Refuses op e → SheetStep R C σ (.derive k op, .threw e) σ
  | deriveStrided {k : Nat} {op : StridedOp} {w w' : Window} : σ.windows[k]? = some w →
      w.DerivesStrided op w' → SheetStep R C σ (.deriveStrided k op, .ok ())
        { σ with windows := σ.windows ++ [w'] }
  | refuseStrided {k : Nat} {op : StridedOp} {w : Window} {e : Error} :
      σ.windows[k]? = some w → w.RefusesStrided op e →
      SheetStep R C σ (.deriveStrided k op, .threw e) σ
  | setElement {row col : Nat} {x : T} : row < R → col < C →
      SheetStep R C σ (.setElement row col x, .ok ())
        { σ with cell := Function.update σ.cell (row, col) x }
  | setView {k row col : Nat} {x : T} {w : Window} : σ.windows[k]? = some w →
      row < w.rows → col < w.cols → SheetStep R C σ (.setView k row col x, .ok ())
        { σ with cell := Function.update σ.cell (w.cell row col) x }
  | printMatrix : SheetStep R C σ (.printMatrix, .ok ())
      { σ with output := σ.output ++ σ.shown (Window.whole R C) }
  | printView {k : Nat} {w : Window} : σ.windows[k]? = some w →
      SheetStep R C σ (.printView k, .ok ()) { σ with output := σ.output ++ σ.shown w }
  | newline : SheetStep R C σ (.newline, .ok ())
      { σ with output := σ.output ++ [.char '\n'] }

/-- A statement has one outcome on a sheet, and one effect. -/
theorem SheetStep.unique {σ σ₁ σ₂ : Sheet T} {stmt : Stmt T} {o₁ o₂ : Outcome Error Unit}
    (h₁ : SheetStep R C σ (stmt, o₁) σ₁) (h₂ : SheetStep R C σ (stmt, o₂) σ₂) :
    o₁ = o₂ ∧ σ₁ = σ₂ := by
  cases h₁ with
  | view | stridedView | setElement | printMatrix | newline => cases h₂; exact ⟨rfl, rfl⟩
  | setView hw _ _ =>
      cases h₂ with | setView hw' _ _ =>
      obtain rfl := Option.some.inj (hw.symm.trans hw')
      exact ⟨rfl, rfl⟩
  | printView hw =>
      cases h₂ with | printView hw' =>
      obtain rfl := Option.some.inj (hw.symm.trans hw')
      exact ⟨rfl, rfl⟩
  | derive hw hderives =>
      cases h₂ with
      | derive hw' hderives' =>
          obtain rfl := Option.some.inj (hw.symm.trans hw')
          obtain rfl := hderives.unique hderives'
          exact ⟨rfl, rfl⟩
      | refuse hw' hrefuses =>
          obtain rfl := Option.some.inj (hw.symm.trans hw')
          exact absurd hrefuses hderives.not_refuses
  | refuse hw hrefuses =>
      cases h₂ with
      | derive hw' hderives =>
          obtain rfl := Option.some.inj (hw.symm.trans hw')
          exact absurd hrefuses hderives.not_refuses
      | refuse hw' hrefuses' =>
          obtain rfl := Option.some.inj (hw.symm.trans hw')
          obtain rfl := hrefuses.unique hrefuses'
          exact ⟨rfl, rfl⟩
  | deriveStrided hw hderives =>
      cases h₂ with
      | deriveStrided hw' hderives' =>
          obtain rfl := Option.some.inj (hw.symm.trans hw')
          obtain rfl := hderives.unique hderives'
          exact ⟨rfl, rfl⟩
      | refuseStrided hw' hrefuses =>
          obtain rfl := Option.some.inj (hw.symm.trans hw')
          exact absurd hrefuses hderives.not_refuses
  | refuseStrided hw hrefuses =>
      cases h₂ with
      | deriveStrided hw' hderives =>
          obtain rfl := Option.some.inj (hw.symm.trans hw')
          exact absurd hrefuses hderives.not_refuses
      | refuseStrided hw' hrefuses' =>
          obtain rfl := Option.some.inj (hw.symm.trans hw')
          obtain rfl := hrefuses.unique hrefuses'
          exact ⟨rfl, rfl⟩

/-- The programs on a sheet full of `zero`. -/
def sheets (zero : T) (R C : Nat) : System (Sheet T) (Line T) where
  init σ := σ = ⟨fun _ => zero, [], []⟩
  step σ a σ' := SheetStep R C σ a σ'

/-! ## Which window a view is -/

/-- The places of a view, without wrapping. -/
def AnyView.grid : AnyView → Grid
  | .plain v => v.grid
  | .strided v => v.grid

/-- The distance of the rows of a `MatrixView`. -/
def AnyView.Pitched (n : Nat) : AnyView → Prop
  | .plain v => v.mStride = n
  | .strided _ => True

/-- The view and the window have the same shape and, in a `MatrixView`, rows at the same
    distance, and the place of a position is that of the cell it shows. -/
structure Shows (R C : Nat) (v : AnyView) (w : Window) : Prop where
  rows : v.rows = w.rows
  cols : v.cols = w.cols
  pitch : v.Pitched w.pitch
  inside : ∀ i j, i < w.rows → j < w.cols → (w.cell i j).1 < R ∧ (w.cell i j).2 < C
  place : ∀ i j, i < w.rows → j < w.cols →
    v.grid.place i j = (w.cell i j).1 * C + (w.cell i j).2

/-- The place of an element access. -/
theorem Shows.element_eq {v : AnyView} {w : Window} (h : Shows R C v w)
    (hsize : R * C < 2 ^ 64) {i j : Nat} (hi : i < w.rows) (hj : j < w.cols) :
    v.element i j = (w.cell i j).1 * C + (w.cell i j).2 := by
  have hplace := h.place i j hi hj
  have hlt : (w.cell i j).1 * C + (w.cell i j).2 < R * C :=
    Grid.rowMajor_lt (h.inside i j hi hj).1 (h.inside i j hi hj).2
  cases v with
  | plain v =>
      have hsum : v.mData + (i * v.mStride + j) = _ := hplace
      rw [← hplace]
      show v.mData + v.index i j = v.mData + (i * v.mStride + j)
      rw [index_eq (by omega)]
  | strided v =>
      have hsum : v.mData + (i * v.mRowStride + j * v.mColStride) = _ := hplace
      rw [← hplace]
      show v.mData + v.index i j = v.mData + (i * v.mRowStride + j * v.mColStride)
      rw [StridedView.index_eq (by omega)]

/-- The positions of one window among those of another. -/
theorem Shows.reindex {v v' : AnyView} {w w' : Window} (h : Shows R C v w)
    (hrows : v'.rows = w'.rows) (hcols : v'.cols = w'.cols) (hpitch : v'.Pitched w'.pitch)
    (row col : Nat → Nat → Nat)
    (hrange : ∀ i j, i < w'.rows → j < w'.cols → row i j < w.rows ∧ col i j < w.cols)
    (hcell : ∀ i j, w'.cell i j = w.cell (row i j) (col i j))
    (hplace : ∀ i j, i < w'.rows → j < w'.cols →
      v'.grid.place i j = v.grid.place (row i j) (col i j)) : Shows R C v' w' where
  rows := hrows
  cols := hcols
  pitch := hpitch
  inside i j hi hj := by
    rw [hcell]
    exact h.inside _ _ (hrange i j hi hj).1 (hrange i j hi hj).2
  place i j hi hj := by
    rw [hplace i j hi hj, hcell]
    exact h.place _ _ (hrange i j hi hj).1 (hrange i j hi hj).2

theorem shows_plain (m : Matrix T) :
    Shows m.mRows m.mCols (.plain (View.ofMatrix m)) (Window.whole m.mRows m.mCols) where
  rows := rfl
  cols := rfl
  pitch := rfl
  inside _ _ hi hj := ⟨hi, hj⟩
  place _ _ _ _ := Nat.zero_add _

theorem shows_strided (m : Matrix T) :
    Shows m.mRows m.mCols (.strided (StridedView.ofMatrix m)) (Window.whole m.mRows m.mCols) where
  rows := rfl
  cols := rfl
  pitch := trivial
  inside _ _ hi hj := ⟨hi, hj⟩
  place i j _ _ := by
    show 0 + (i * m.mCols + j * 1) = i * m.mCols + j
    rw [Nat.zero_add, Nat.mul_one]

/-- The part of a window. -/
theorem Shows.part {v v' : AnyView} {w : Window} (h : Shows R C v w) {r₀ c₀ m k : Nat}
    (hrows : r₀ + m ≤ w.rows) (hcols : c₀ + k ≤ w.cols) (hrows' : v'.rows = m)
    (hcols' : v'.cols = k) (hpitch : v'.Pitched w.pitch)
    (hplace : ∀ i j, v'.grid.place i j = v.grid.place (r₀ + i) (c₀ + j)) :
    Shows R C v' (w.part r₀ c₀ m k) := by
  refine h.reindex hrows' hcols' hpitch (fun i _ => r₀ + i) (fun _ j => c₀ + j) ?_
    (fun _ _ => rfl) (fun i j _ _ => hplace i j)
  intro i j hi hj
  exact ⟨Nat.lt_of_lt_of_le (Nat.add_lt_add_left hi _) hrows,
    Nat.lt_of_lt_of_le (Nat.add_lt_add_left hj _) hcols⟩

/-- What a successful operation of a `MatrixView` returns. -/
theorem Shows.derives {v v' : View} {w : Window} (h : Shows R C (.plain v) w) {op : Op}
    (hwrap : NoWrap v op) (hok : v.exec op = .ok v') :
    ∃ w', w.Derives op w' ∧ Shows R C (.plain v') w' := by
  have hrows : v.mRows = w.rows := h.rows
  have hcols : v.mCols = w.cols := h.cols
  have hpitch : v.mStride = w.pitch := h.pitch
  cases op with
  | subview r₀ c₀ m k =>
      obtain ⟨hfitRows, hfitCols, rfl⟩ := subview_ok hwrap hok
      rw [hrows] at hfitRows
      rw [hcols] at hfitCols
      exact ⟨_, .subview hfitRows hfitCols,
        h.part hfitRows hfitCols rfl rfl hpitch fun i j => subview_place i j⟩
  | crop m k =>
      obtain ⟨hfitRows, hfitCols, rfl⟩ := crop_ok hok
      rw [hrows] at hfitRows
      rw [hcols] at hfitCols
      refine ⟨_, .crop hfitRows hfitCols, h.part ?_ ?_ rfl rfl hpitch ?_⟩
      · rwa [Nat.zero_add]
      · rwa [Nat.zero_add]
      · intro i j
        rw [Nat.zero_add, Nat.zero_add]
        rfl
  | reshape m k =>
      obtain ⟨hcontiguous, hcount, rfl⟩ := reshape_ok hwrap hok
      rw [hrows, hcols] at hcount
      have hadjoin : w.pitch = w.cols := hpitch ▸ hcols ▸ hcontiguous
      refine ⟨_, .reshape hadjoin hcount, h.reindex rfl rfl rfl (fun i j => (i * k + j) / w.cols)
        (fun i j => (i * k + j) % w.cols) ?_ (fun _ _ => rfl) ?_⟩
      · intro i j hi hj
        exact Grid.rowMajor_position (hcount ▸ Grid.rowMajor_lt hi hj)
      · intro i j _ _
        show v.mData + (i * k + j) = v.grid.place ((i * k + j) / w.cols) ((i * k + j) % w.cols)
        rw [← hcols, contiguous_place hcontiguous]

/-- What a failed one throws. -/
theorem Shows.refuses {v : View} {w : Window} (h : Shows R C (.plain v) w) {op : Op}
    (hwrap : NoWrap v op) {e : Error} (herror : v.exec op = .error e) : w.Refuses op e := by
  have hrows : v.mRows = w.rows := h.rows
  have hcols : v.mCols = w.cols := h.cols
  have hpitch : v.mStride = w.pitch := h.pitch
  cases op with
  | subview r₀ c₀ m k =>
      obtain ⟨hr, hc, -⟩ := hwrap
      simp only [View.exec, View.subview, SizeT.add_eq hr, SizeT.add_eq hc, hrows, hcols]
        at herror
      split at herror
      · rename_i hout
        obtain rfl := Except.error.inj herror
        exact .subview (by omega)
      · cases herror
  | crop m k =>
      simp only [View.exec, View.crop, hrows, hcols] at herror
      split at herror
      · rename_i hout
        obtain rfl := Except.error.inj herror
        exact .crop (by omega)
      · cases herror
  | reshape m k =>
      obtain ⟨hnew, hold⟩ := hwrap
      rw [hrows, hcols] at hold
      simp only [View.exec, View.reshape, View.isContiguous, hrows, hcols, hpitch,
        SizeT.mul_eq hnew, SizeT.mul_eq hold, decide_eq_false_iff_not] at herror
      split at herror
      · rename_i hapart
        obtain rfl := Except.error.inj herror
        exact .rows hapart
      · rename_i hadjoin
        split at herror
        · rename_i hcount
          obtain rfl := Except.error.inj herror
          exact .count (not_not.mp hadjoin) hcount
        · cases herror

theorem ceilDiv_eq {size step : Nat} (hstep : 0 < step) (hwrap : size + step < 2 ^ 64) :
    ceilDiv size step = (size + step - 1) / step := by
  rw [ceilDiv, SizeT.add_eq hwrap, SizeT.sub_eq (by omega) hwrap]

theorem lt_ceil_iff {size step : Nat} (hstep : 0 < step) (i : Nat) :
    i < (size + step - 1) / step ↔ i * step < size := by
  rw [Nat.lt_iff_add_one_le, Nat.le_div_iff_mul_le hstep, Nat.succ_mul]
  omega

/-- What a successful operation of a `StridedMatrixView` returns. -/
theorem Shows.derivesStrided {v v' : StridedView} {w : Window} (h : Shows R C (.strided v) w)
    {op : StridedOp} (hwrap : NoWrapStrided v op) (hok : v.exec op = .ok v') :
    ∃ w', w.DerivesStrided op w' ∧ Shows R C (.strided v') w' := by
  have hrows : v.mRows = w.rows := h.rows
  have hcols : v.mCols = w.cols := h.cols
  cases op with
  | subview r₀ c₀ m k =>
      obtain ⟨hfitRows, hfitCols, rfl⟩ := StridedView.subview_ok hwrap hok
      rw [hrows] at hfitRows
      rw [hcols] at hfitCols
      exact ⟨_, .subview hfitRows hfitCols,
        h.part hfitRows hfitCols rfl rfl trivial fun i j => StridedView.subview_place i j⟩
  | transpose =>
      obtain rfl := Except.ok.inj hok
      refine ⟨_, .transpose, h.reindex h.cols h.rows trivial (fun _ j => j) (fun i _ => i) ?_
        (fun _ _ => rfl) fun i j _ _ => StridedView.transpose_place v i j⟩
      exact fun _ _ hi hj => ⟨hj, hi⟩
  | stride a b =>
      obtain ⟨ha, hb, rfl⟩ := StridedView.stride_ok hwrap hok
      obtain ⟨hwrapRows, hwrapCols, -, -⟩ := hwrap
      refine ⟨_, .stride ha hb, h.reindex ?_ ?_ trivial (fun i _ => i * a) (fun _ j => j * b) ?_
        (fun _ _ => rfl) fun i j _ _ => StridedView.stride_place i j⟩
      · show ceilDiv v.mRows a = (w.rows + a - 1) / a
        rw [ceilDiv_eq ha hwrapRows, hrows]
      · show ceilDiv v.mCols b = (w.cols + b - 1) / b
        rw [ceilDiv_eq hb hwrapCols, hcols]
      · intro i j hi hj
        exact ⟨(lt_ceil_iff ha i).mp hi, (lt_ceil_iff hb j).mp hj⟩

/-- What a failed one throws. -/
theorem Shows.refusesStrided {v : StridedView} {w : Window} (h : Shows R C (.strided v) w)
    {op : StridedOp} (hwrap : NoWrapStrided v op) {e : Error}
    (herror : v.exec op = .error e) : w.RefusesStrided op e := by
  have hrows : v.mRows = w.rows := h.rows
  have hcols : v.mCols = w.cols := h.cols
  cases op with
  | subview r₀ c₀ m k =>
      obtain ⟨hr, hc, -⟩ := hwrap
      simp only [StridedView.exec, StridedView.subview, SizeT.add_eq hr, SizeT.add_eq hc, hrows,
        hcols] at herror
      split at herror
      · rename_i hout
        obtain rfl := Except.error.inj herror
        exact .subview (by omega)
      · cases herror
  | transpose => cases herror
  | stride a b =>
      simp only [StridedView.exec, StridedView.stride] at herror
      split at herror
      · rename_i hzero
        obtain rfl := Except.error.inj herror
        exact .stride (by omega)
      · cases herror

/-! ## The simulation -/

/-- The views are the windows, one by one. -/
structure ShowAll (R C : Nat) (vs : List AnyView) (ws : List Window) : Prop where
  length : vs.length = ws.length
  shows : ∀ (k : Nat) (v : AnyView) (w : Window),
    vs[k]? = some v → ws[k]? = some w → Shows R C v w

variable {vs : List AnyView} {ws : List Window} {v : AnyView} {w : Window}

theorem ShowAll.lookup (h : ShowAll R C vs ws) {k : Nat} (hv : vs[k]? = some v) :
    ∃ w, ws[k]? = some w ∧ Shows R C v w := by
  have hk : k < ws.length := h.length ▸ (List.getElem?_eq_some_iff.mp hv).1
  exact ⟨ws[k], List.getElem?_eq_getElem hk, h.shows k v _ hv (List.getElem?_eq_getElem hk)⟩

/-- A new view. -/
theorem ShowAll.push (h : ShowAll R C vs ws) (hshows : Shows R C v w) :
    ShowAll R C (vs ++ [v]) (ws ++ [w]) where
  length := by rw [List.length_append, List.length_append, h.length]; rfl
  shows k v' w' hv' hw' := by
    by_cases hk : k < vs.length
    · rw [List.getElem?_append_left hk] at hv'
      rw [List.getElem?_append_left (h.length ▸ hk)] at hw'
      exact h.shows k v' w' hv' hw'
    · rw [List.getElem?_append_right (Nat.le_of_not_lt hk)] at hv'
      rw [List.getElem?_append_right (h.length ▸ Nat.le_of_not_lt hk), ← h.length] at hw'
      obtain rfl := List.mem_singleton.mp (List.mem_of_getElem? hv')
      obtain rfl := List.mem_singleton.mp (List.mem_of_getElem? hw')
      exact hshows

/-- A view is changed. -/
theorem ShowAll.set (h : ShowAll R C vs ws) (hshows : Shows R C v w) (k : Nat) :
    ShowAll R C (vs.set k v) (ws.set k w) where
  length := by rw [List.length_set, List.length_set, h.length]
  shows i v' w' hv' hw' := by
    by_cases hki : k = i
    · subst hki
      have hk : k < vs.length := by
        have := (List.getElem?_eq_some_iff.mp hv').1
        rwa [List.length_set] at this
      rw [List.getElem?_set_self hk] at hv'
      rw [List.getElem?_set_self (h.length ▸ hk)] at hw'
      obtain rfl := Option.some.inj hv'
      obtain rfl := Option.some.inj hw'
      exact hshows
    · rw [List.getElem?_set_ne hki] at hv' hw'
      exact h.shows i v' w' hv' hw'

theorem ShowAll.store (h : ShowAll R C vs ws) (hshows : Shows R C v w) (op : Op) (k : Nat) :
    ShowAll R C (op.store k v vs) (op.store k w ws) := by
  cases op with
  | subview r₀ c₀ m n => exact h.push hshows
  | crop m n | reshape m n => exact h.set hshows k

/-- The store shows the sheet: the elements are the cells, the views the windows, and the
    same has been printed. -/
structure Rep (R C : Nat) (s : Store T) (σ : Sheet T) : Prop where
  mRows : s.matrix.mRows = R
  mCols : s.matrix.mCols = C
  length : s.matrix.mData.length = R * C
  cells : ∀ i j, i < R → j < C → s.matrix.mData[i * C + j]? = some (σ.cell (i, j))
  views : ShowAll R C s.views σ.windows
  output : s.output = σ.output

variable {s s' : Store T} {σ : Sheet T}

theorem rep_construct (zero : T) (hsize : R * C < 2 ^ 64) :
    Rep R C ⟨Matrix.construct zero R C, [], []⟩ ⟨fun _ => zero, [], []⟩ where
  mRows := rfl
  mCols := rfl
  length := by rw [Matrix.construct, List.length_replicate, SizeT.mul_eq hsize]
  cells i j hi hj := by
    rw [Matrix.construct, SizeT.mul_eq hsize]
    exact List.getElem?_replicate_of_lt (Grid.rowMajor_lt hi hj)
  views := ⟨rfl, fun _ _ _ hv => nomatch hv⟩
  output := rfl

/-- The place of `matrix(row, col)`. -/
theorem Rep.element_eq (h : Rep R C s σ) (hsize : R * C < 2 ^ 64) {row col : Nat}
    (hrow : row < R) (hcol : col < C) : s.matrix.element row col = row * C + col := by
  have hlt : row * C + col < R * C := Grid.rowMajor_lt hrow hcol
  have hsum : row * C + col < 2 ^ 64 := Nat.lt_trans hlt hsize
  rw [Matrix.element, h.mCols, SizeT.mul_eq (Nat.lt_of_le_of_lt (Nat.le_add_right _ _) hsum),
    SizeT.add_eq hsum]

/-- The place of `view(row, col)`. -/
theorem Shows.placeIn_eq (hshows : Shows R C v w) (hsize : R * C < 2 ^ 64) {k row col : Nat}
    (hv : s.views[k]? = some v) (hrow : row < w.rows) (hcol : col < w.cols) :
    s.placeIn k row col = some ((w.cell row col).1 * C + (w.cell row col).2) := by
  have hinside : row < v.rows ∧ col < v.cols := ⟨hshows.rows ▸ hrow, hshows.cols ▸ hcol⟩
  simp only [Store.placeIn, hv, Option.bind_eq_bind, Option.bind_some]
  rw [if_pos hinside, hshows.element_eq hsize hrow hcol]

/-- An assignment to the place of a cell. -/
theorem Rep.assign (h : Rep R C s σ) (place : Store T → Option Nat) {r c : Nat} (hr : r < R)
    (hc : c < C) (hplace : place s = some (r * C + c)) (x : T) :
    ∃ s', MatrixView.assign place x s = (.ok (), s')
      ∧ Rep R C s' { σ with cell := Function.update σ.cell (r, c) x } := by
  have hlt : r * C + c < s.matrix.mData.length := h.length ▸ Grid.rowMajor_lt hr hc
  refine ⟨_, change_of_some (by rw [hplace, Option.bind_some, if_pos hlt]), ?_⟩
  refine ⟨h.mRows, h.mCols, (List.length_set ..).trans h.length, ?_, h.views, h.output⟩
  intro i j hi hj
  show (s.matrix.mData.set (r * C + c) x)[i * C + j]?
    = some (Function.update σ.cell (r, c) x (i, j))
  by_cases hcell : (i, j) = (r, c)
  · obtain ⟨rfl, rfl⟩ := Prod.mk.inj hcell
    rw [List.getElem?_set_self hlt, Function.update_self]
  · have hne : r * C + c ≠ i * C + j := by
      intro heq
      obtain ⟨rfl, rfl⟩ := Grid.rowMajor_inj hc hj heq
      exact hcell rfl
    rw [List.getElem?_set_ne hne, Function.update_of_ne hcell]
    exact h.cells i j hi hj

/-- More output. -/
theorem Rep.put (h : Rep R C s σ) (pieces : List (Piece T)) :
    Rep R C { s with output := s.output ++ pieces } { σ with output := σ.output ++ pieces } :=
  ⟨h.mRows, h.mCols, h.length, h.cells, h.views, congrArg (· ++ pieces) h.output⟩

theorem wp_put {Q : Unit → Store T → Prop} {E : Error → Store T → Prop} (piece : Piece T) :
    wp (MatrixView.put piece) Q E s ↔ Q () { s with output := s.output ++ [piece] } := Iff.rfl

/-- Printing, given what the accesses yield. -/
theorem wp_printRows {rows cols : Nat} {place : Nat → Nat → Store T → Option Nat}
    (value : Nat → Nat → T) (s : Store T)
    (hload : ∀ out i j, i < rows → j < cols →
      ((place i j { s with output := out }).bind fun p => s.matrix.mData[p]?)
        = some (value i j)) :
    wp (printRows rows cols place)
      (fun _ s' => s' = { s with output := s.output ++ gridPieces value cols rows })
      (fun _ _ => False) s := by
  refine wp_forRange
    (fun i s' => s' = { s with output := s.output ++ gridPieces value cols i }) ?_ ?_
  · rintro i s' hi rfl
    rw [wp_bind]
    refine wp_mono (wp_forRange (fun j s' => s' = { s with
      output := s.output ++ gridPieces value cols i ++ rowPieces (value i) j }) ?_ ?_) ?_
      (fun _ _ h => h)
    · rintro j s' hj rfl
      rw [wp_bind, load, wp_access]
      refine ⟨value i j, hload _ i j hi hj, ?_⟩
      rw [wp_bind, wp_put, wp_put]
      simp only [rowPieces, List.append_assoc, List.cons_append, List.nil_append]
    · rw [rowPieces, List.append_nil]
    · rintro _ s' rfl
      rw [wp_put]
      simp only [gridPieces, List.append_assoc]
  · rw [gridPieces, List.append_nil]

/-- Printing the cells of a window, given the places of its elements. -/
theorem Rep.printRows (h : Rep R C s σ) {place : Nat → Nat → Store T → Option Nat}
    (hinside : ∀ i j, i < w.rows → j < w.cols → (w.cell i j).1 < R ∧ (w.cell i j).2 < C)
    (hplace : ∀ out i j, i < w.rows → j < w.cols →
      place i j { s with output := out } = some ((w.cell i j).1 * C + (w.cell i j).2)) :
    MatrixView.printRows w.rows w.cols place s
      = (.ok (), { s with output := s.output ++ σ.shown w }) := by
  have hload : ∀ out i j, i < w.rows → j < w.cols →
      ((place i j { s with output := out }).bind fun p => s.matrix.mData[p]?)
        = some (σ.cell (w.cell i j)) := by
    intro out i j hi hj
    rw [hplace out i j hi hj, Option.bind_some]
    exact h.cells _ _ (hinside i j hi hj).1 (hinside i j hi hj).2
  obtain ⟨_, _, hrun, rfl⟩ := wp_returns (wp_printRows (fun i j => σ.cell (w.cell i j)) s hload)
    fun _ _ hfalse => hfalse
  exact hrun

theorem Rep.printMatrix (h : Rep R C s σ) (hsize : R * C < 2 ^ 64) :
    exec .printMatrix s
      = (.ok (), { s with output := s.output ++ σ.shown (Window.whole R C) }) := by
  show MatrixView.printRows s.matrix.mRows s.matrix.mCols _ s = _
  rw [h.mRows, h.mCols]
  refine h.printRows (w := Window.whole R C) (fun _ _ hi hj => ⟨hi, hj⟩) ?_
  intro out i j hi hj
  exact congrArg some (h.element_eq hsize hi hj)

theorem access_view {k : Nat} (hv : s.views[k]? = some v) :
    (access fun s : Store T => s.views[k]? : Prog (Store T) Error AnyView) s = (.ok v, s) :=
  access_ok_iff.mpr ⟨hv, rfl⟩

theorem Rep.printView (h : Rep R C s σ) (hsize : R * C < 2 ^ 64) {k : Nat} {v : View}
    (hv : s.views[k]? = some (.plain v)) (hshows : Shows R C (.plain v) w) :
    exec (.printView k) s = (.ok (), { s with output := s.output ++ σ.shown w }) := by
  refine (bind_of_ok (access_view hv)).trans ?_
  show MatrixView.printRows (AnyView.plain v).rows (AnyView.plain v).cols _ s = _
  rw [hshows.rows, hshows.cols]
  exact h.printRows hshows.inside fun _ i j hi hj => hshows.placeIn_eq hsize hv hi hj

/-- An operation of a `MatrixView`. -/
theorem Rep.derive (h : Rep R C s σ) {k : Nat} {op : Op} {v : View}
    (hv : s.views[k]? = some (.plain v)) (hwrap : NoWrap v op) {out : Outcome Error Unit}
    (hexec : exec (.derive k op) s = (out, s')) :
    ∃ σ', SheetStep R C σ (.derive k op, out) σ' ∧ Rep R C s' σ' := by
  obtain ⟨w, hw, hshows⟩ := h.views.lookup hv
  replace hexec := (bind_of_ok (access_view hv)).symm.trans hexec
  cases hop : v.exec op with
  | ok v' =>
      simp only [hop] at hexec
      obtain ⟨rfl, rfl⟩ := Prod.mk.inj hexec
      obtain ⟨w', hderives, hshows'⟩ := hshows.derives hwrap hop
      exact ⟨_, .derive hw hderives,
        h.mRows, h.mCols, h.length, h.cells, h.views.store hshows' op k, h.output⟩
  | error e =>
      simp only [hop] at hexec
      obtain ⟨rfl, rfl⟩ := Prod.mk.inj hexec
      exact ⟨σ, .refuse hw (hshows.refuses hwrap hop), h⟩

/-- An operation of a `StridedMatrixView`. -/
theorem Rep.deriveStrided (h : Rep R C s σ) {k : Nat} {op : StridedOp} {v : StridedView}
    (hv : s.views[k]? = some (.strided v)) (hwrap : NoWrapStrided v op)
    {out : Outcome Error Unit} (hexec : exec (.deriveStrided k op) s = (out, s')) :
    ∃ σ', SheetStep R C σ (.deriveStrided k op, out) σ' ∧ Rep R C s' σ' := by
  obtain ⟨w, hw, hshows⟩ := h.views.lookup hv
  replace hexec := (bind_of_ok (access_view hv)).symm.trans hexec
  cases hop : v.exec op with
  | ok v' =>
      simp only [hop] at hexec
      obtain ⟨rfl, rfl⟩ := Prod.mk.inj hexec
      obtain ⟨w', hderives, hshows'⟩ := hshows.derivesStrided hwrap hop
      exact ⟨_, .deriveStrided hw hderives,
        h.mRows, h.mCols, h.length, h.cells, h.views.push hshows', h.output⟩
  | error e =>
      simp only [hop] at hexec
      obtain ⟨rfl, rfl⟩ := Prod.mk.inj hexec
      exact ⟨σ, .refuseStrided hw (hshows.refusesStrided hwrap hop), h⟩

/-- Every statement does to the sheet what it says. -/
theorem Rep.step (h : Rep R C s σ) (hsize : R * C < 2 ^ 64) {a : Line T} (hproper : Proper s a)
    (hexec : exec a.1 s = (a.2, s')) : ∃ σ', SheetStep R C σ a σ' ∧ Rep R C s' σ' := by
  obtain ⟨stmt, out⟩ := a
  cases stmt with
  | view =>
      obtain ⟨rfl, rfl⟩ := Prod.mk.inj hexec
      have hshows := shows_plain s.matrix
      rw [h.mRows, h.mCols] at hshows
      exact ⟨_, .view, h.mRows, h.mCols, h.length, h.cells, h.views.push hshows, h.output⟩
  | stridedView =>
      obtain ⟨rfl, rfl⟩ := Prod.mk.inj hexec
      have hshows := shows_strided s.matrix
      rw [h.mRows, h.mCols] at hshows
      exact ⟨_, .stridedView, h.mRows, h.mCols, h.length, h.cells, h.views.push hshows, h.output⟩
  | derive k op =>
      obtain ⟨v, hv, hwrap⟩ := hproper
      exact h.derive hv hwrap hexec
  | deriveStrided k op =>
      obtain ⟨v, hv, hwrap⟩ := hproper
      exact h.deriveStrided hv hwrap hexec
  | setElement row col x =>
      obtain ⟨hrow, hcol⟩ := hproper
      rw [h.mRows] at hrow
      rw [h.mCols] at hcol
      obtain ⟨_, hassign, hrep⟩ := h.assign (fun s => some (s.matrix.element row col)) hrow hcol
        (congrArg some (h.element_eq hsize hrow hcol)) x
      obtain ⟨rfl, rfl⟩ := Prod.mk.inj (hassign.symm.trans hexec)
      exact ⟨_, .setElement hrow hcol, hrep⟩
  | setView k row col x =>
      obtain ⟨v, hv, hrow, hcol⟩ := hproper
      obtain ⟨w, hw, hshows⟩ := h.views.lookup hv
      rw [hshows.rows] at hrow
      rw [hshows.cols] at hcol
      obtain ⟨hr, hc⟩ := hshows.inside row col hrow hcol
      obtain ⟨_, hassign, hrep⟩ := h.assign (fun s => s.placeIn k row col) hr hc
        (hshows.placeIn_eq hsize hv hrow hcol) x
      obtain ⟨rfl, rfl⟩ := Prod.mk.inj (hassign.symm.trans hexec)
      exact ⟨_, .setView hw hrow hcol, hrep⟩
  | printMatrix =>
      obtain ⟨rfl, rfl⟩ := Prod.mk.inj ((h.printMatrix hsize).symm.trans hexec)
      exact ⟨_, .printMatrix, h.put _⟩
  | printView k =>
      obtain ⟨v, hv⟩ := hproper
      obtain ⟨w, hw, hshows⟩ := h.views.lookup hv
      obtain ⟨rfl, rfl⟩ := Prod.mk.inj ((h.printView hsize hv hshows).symm.trans hexec)
      exact ⟨_, .printView hw, h.put _⟩
  | newline =>
      obtain ⟨rfl, rfl⟩ := Prod.mk.inj hexec
      exact ⟨_, .newline, h.put _⟩

/-- **Views are windows.**  A program on a matrix whose size does not wrap, of whose
    statements each uses a view inside its shape and does not wrap either, does what the
    same program on a sheet does: it ends the same way statement by statement, prints the
    same, and leaves elements and views that show the cells and windows. -/
theorem runs_are_windows {zero : T} (hsize : R * C < 2 ^ 64) {as : List (Line T)}
    (h : Run ((programs zero R C).restrict Proper) as s) :
    ∃ σ, Run (sheets zero R C) as σ ∧ Rep R C s σ := by
  refine Simulation.run (R := Rep R C) ⟨?_, ?_⟩ h
  · rintro _ rfl
    exact ⟨_, rfl, rep_construct zero hsize⟩
  · rintro s σ a s' hrep ⟨hexec, hproper⟩
    exact hrep.step hsize hproper hexec

/-- `main()`: the nine assignments, the matrix, the view of its last two rows and columns. -/
def mainProgram : List (Stmt Nat) :=
  (List.range 9).map (fun i => .setElement (i / 3) (i % 3) (i + 1))
    ++ [.printMatrix, .newline, .view, .derive 0 (.subview 1 1 2 2), .printView 1, .newline]

/-- What it leaves. -/
def mainStore : Store Nat where
  matrix := ⟨[1, 2, 3, 4, 5, 6, 7, 8, 9], 3, 3⟩
  views := [.plain ⟨3, 3, 3, 0⟩, .plain ⟨2, 2, 3, 4⟩]
  output := gridPieces (fun i j => 3 * i + j + 1) 3 3 ++ [.char '\n']
    ++ gridPieces (fun i j => 3 * i + j + 5) 2 2 ++ [.char '\n']

theorem main_runs_are_windows :
    ∃ σ, Run (sheets 0 3 3) (mainProgram.map fun stmt => (stmt, .ok ())) σ
      ∧ Rep 3 3 mainStore σ := by
  let next (s : Store Nat) (a : Line Nat) : Option (Store Nat) :=
    if (exec a.1 s).1 = a.2 ∧ Proper s a then some (exec a.1 s).2 else none
  have hnext : ∀ s a s', next s a = some s' →
      ((programs 0 3 3).restrict Proper).step s a s' := by
    intro s a s' h
    obtain ⟨⟨hends, hproper⟩, hstate⟩ := Option.ite_none_right_eq_some.mp h
    exact ⟨Prod.ext hends (Option.some.inj hstate), hproper⟩
  have hfollow : follow next ⟨Matrix.construct 0 3 3, [], []⟩
      (mainProgram.map fun stmt => (stmt, .ok ())) = some mainStore := by
    rfl
  exact runs_are_windows (by decide) (run_of_follow hnext rfl hfollow)

end MatrixView
