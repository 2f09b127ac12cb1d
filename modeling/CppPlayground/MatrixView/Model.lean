import CppPlayground.Lib.SizeT
import CppPlayground.Lib.System

/-! # `Matrix`, `MatrixView` and `StridedMatrixView`

    `matrix_view.cpp`.  A pointer into the storage of a matrix is its distance from the
    start of the storage, so the reference an element access returns is the place of the
    element.  Shapes, strides and indices are of type `std::size_t`, and all arithmetic on
    them wraps around. -/

namespace MatrixView

open Transition

/-- The exceptions, with their texts. -/
inductive Error where
  | outOfRange (what : String)
  | lengthError (what : String)
  | logicError (what : String)
  | invalidArgument (what : String)
  deriving DecidableEq, Repr

/-- `Matrix<T>` -/
structure Matrix (T : Type) where
  mData : List T
  mRows : Nat
  mCols : Nat

/-- `Matrix(rows, cols)`; `zero` is `T()`. -/
def Matrix.construct {T : Type} (zero : T) (rows cols : Nat) : Matrix T :=
  ⟨List.replicate (SizeT.mul rows cols) zero, rows, cols⟩

/-! ## `MatrixView` -/

/-- `MatrixView<T>` -/
structure View where
  mRows : Nat
  mCols : Nat
  mStride : Nat
  mData : Nat
  deriving DecidableEq, Repr

/-- `MatrixView(matrix)` -/
def View.ofMatrix {T : Type} (m : Matrix T) : View := ⟨m.mRows, m.mCols, m.mCols, 0⟩

/-- `index(row, col)` -/
def View.index (v : View) (row col : Nat) : Nat := SizeT.add (SizeT.mul row v.mStride) col

/-- `operator()(row, col)`: the place of the element. -/
def View.element (v : View) (row col : Nat) : Nat := v.mData + v.index row col

/-- `is_contiguous()` -/
def View.isContiguous (v : View) : Bool := v.mStride = v.mCols

/-- `subview(start_row, start_column, num_rows, num_cols)` -/
def View.subview (v : View) (startRow startColumn numRows numCols : Nat) : Except Error View :=
  if v.mRows < SizeT.add startRow numRows ∨ v.mCols < SizeT.add startColumn numCols then
    .error (.outOfRange "Subview out-of-bounds")
  else .ok ⟨numRows, numCols, v.mStride, v.mData + v.index startRow startColumn⟩

/-- `crop(num_rows, num_cols)` -/
def View.crop (v : View) (numRows numCols : Nat) : Except Error View :=
  if v.mRows < numRows ∨ v.mCols < numCols then
    .error (.lengthError "Cannot grow a matrix view")
  else .ok { v with mRows := numRows, mCols := numCols }

/-- `reshape(num_rows, num_cols)` -/
def View.reshape (v : View) (numRows numCols : Nat) : Except Error View :=
  if v.isContiguous = false then
    .error (.logicError "Can only reshape a continuous MatrixView")
  else if SizeT.mul numRows numCols ≠ SizeT.mul v.mRows v.mCols then
    .error (.lengthError "MatrixView reshape must preserve number of elements")
  else .ok { v with mRows := numRows, mCols := numCols, mStride := numCols }

/-- `row_begin(row)` -/
def View.rowBegin (v : View) (row : Nat) : Nat := v.mData + v.index row 0

/-- `row_end(row)` -/
def View.rowEnd (v : View) (row : Nat) : Nat := v.rowBegin row + v.mCols

/-- The operations that make a view from a view; `crop` and `reshape` do it in place. -/
inductive Op where
  | subview (startRow startColumn numRows numCols : Nat)
  | crop (numRows numCols : Nat)
  | reshape (numRows numCols : Nat)
  deriving DecidableEq, Repr

def View.exec (v : View) : Op → Except Error View
  | .subview startRow startColumn numRows numCols =>
      v.subview startRow startColumn numRows numCols
  | .crop numRows numCols => v.crop numRows numCols
  | .reshape numRows numCols => v.reshape numRows numCols

/-- The chains of successful operations, from the view of a whole matrix. -/
def views {T : Type} (m : Matrix T) : System View Op where
  init v := v = View.ofMatrix m
  step v op v' := v.exec op = .ok v'

/-- No sum and no product of the operation wraps. -/
def NoWrap (v : View) : Op → Prop
  | .subview startRow startColumn numRows numCols =>
      startRow + numRows < 2 ^ 64 ∧ startColumn + numCols < 2 ^ 64
        ∧ startRow * v.mStride + startColumn < 2 ^ 64
  | .crop _ _ => True
  | .reshape numRows numCols => numRows * numCols < 2 ^ 64 ∧ v.mRows * v.mCols < 2 ^ 64

instance (v : View) : (op : Op) → Decidable (NoWrap v op)
  | .subview _ _ _ _ => inferInstanceAs (Decidable (_ ∧ _ ∧ _))
  | .crop _ _ => inferInstanceAs (Decidable True)
  | .reshape _ _ => inferInstanceAs (Decidable (_ ∧ _))

/-! ## `StridedMatrixView` -/

/-- `StridedMatrixView<T>` -/
structure StridedView where
  mData : Nat
  mRows : Nat
  mCols : Nat
  mRowStride : Nat
  mColStride : Nat
  deriving DecidableEq, Repr

/-- `StridedMatrixView(matrix)` -/
def StridedView.ofMatrix {T : Type} (m : Matrix T) : StridedView :=
  ⟨0, m.mRows, m.mCols, m.mCols, 1⟩

/-- `index(row, col)` -/
def StridedView.index (v : StridedView) (row col : Nat) : Nat :=
  SizeT.add (SizeT.mul row v.mRowStride) (SizeT.mul col v.mColStride)

/-- `operator()(row, col)`: the place of the element. -/
def StridedView.element (v : StridedView) (row col : Nat) : Nat := v.mData + v.index row col

/-- `subview(start_row, start_col, num_rows, num_cols)` -/
def StridedView.subview (v : StridedView) (startRow startCol numRows numCols : Nat) :
    Except Error StridedView :=
  if v.mRows < SizeT.add startRow numRows ∨ v.mCols < SizeT.add startCol numCols then
    .error (.outOfRange "Subview out-of-bounds")
  else
    .ok ⟨v.mData + v.index startRow startCol, numRows, numCols, v.mRowStride, v.mColStride⟩

/-- `transpose()` -/
def StridedView.transpose (v : StridedView) : StridedView :=
  ⟨v.mData, v.mCols, v.mRows, v.mColStride, v.mRowStride⟩

/-- `(size + step - 1) / step` -/
def ceilDiv (size step : Nat) : Nat := SizeT.sub (SizeT.add size step) 1 / step

/-- `stride(row_step, col_step)` -/
def StridedView.stride (v : StridedView) (rowStep colStep : Nat) : Except Error StridedView :=
  if rowStep = 0 ∨ colStep = 0 then
    .error (.invalidArgument "Row & col step must be positive")
  else
    .ok ⟨v.mData, ceilDiv v.mRows rowStep, ceilDiv v.mCols colStep,
      SizeT.mul v.mRowStride rowStep, SizeT.mul v.mColStride colStep⟩

/-- The operations that make a view from a view. -/
inductive StridedOp where
  | subview (startRow startCol numRows numCols : Nat)
  | transpose
  | stride (rowStep colStep : Nat)
  deriving DecidableEq, Repr

def StridedView.exec (v : StridedView) : StridedOp → Except Error StridedView
  | .subview startRow startCol numRows numCols => v.subview startRow startCol numRows numCols
  | .transpose => .ok v.transpose
  | .stride rowStep colStep => v.stride rowStep colStep

/-- The chains of successful operations, from the view of a whole matrix. -/
def stridedViews {T : Type} (m : Matrix T) : System StridedView StridedOp where
  init v := v = StridedView.ofMatrix m
  step v op v' := v.exec op = .ok v'

/-- No sum and no product of the operation wraps. -/
def NoWrapStrided (v : StridedView) : StridedOp → Prop
  | .subview startRow startCol numRows numCols =>
      startRow + numRows < 2 ^ 64 ∧ startCol + numCols < 2 ^ 64
        ∧ startRow * v.mRowStride + startCol * v.mColStride < 2 ^ 64
  | .transpose => True
  | .stride rowStep colStep =>
      v.mRows + rowStep < 2 ^ 64 ∧ v.mCols + colStep < 2 ^ 64
        ∧ v.mRowStride * rowStep < 2 ^ 64 ∧ v.mColStride * colStep < 2 ^ 64

instance (v : StridedView) : (op : StridedOp) → Decidable (NoWrapStrided v op)
  | .subview _ _ _ _ => inferInstanceAs (Decidable (_ ∧ _ ∧ _))
  | .transpose => inferInstanceAs (Decidable True)
  | .stride _ _ => inferInstanceAs (Decidable (_ ∧ _ ∧ _ ∧ _))

end MatrixView
