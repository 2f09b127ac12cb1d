import CppPlayground.Lib.Program
import CppPlayground.MatrixView.Model

/-! # Programs on a matrix and its views

    `matrix_view.cpp`, the element accesses and the output.  A program has one matrix, any
    number of views of it of both kinds, and a stream.  It makes views from views, assigns
    elements through the matrix or through a view, and prints.  An access with an index
    outside the shape fails an assertion, or is undefined without assertions. -/

namespace MatrixView

open Transition Program

variable {T : Type}

/-- A view of either kind. -/
inductive AnyView where
  | plain (v : View)
  | strided (v : StridedView)
  deriving DecidableEq, Repr

/-- `rows()` -/
def AnyView.rows : AnyView → Nat
  | .plain v => v.mRows
  | .strided v => v.mRows

/-- `cols()` -/
def AnyView.cols : AnyView → Nat
  | .plain v => v.mCols
  | .strided v => v.mCols

/-- `operator()(row, col)`, without the assertions. -/
def AnyView.element (v : AnyView) (row col : Nat) : Nat :=
  match v with
  | .plain v => v.element row col
  | .strided v => v.element row col

/-- What has been inserted into a stream. -/
inductive Piece (T : Type) where
  | value (x : T)
  | char (c : Char)
  deriving DecidableEq, Repr

/-- The matrix, the views of it, and the output. -/
structure Store (T : Type) where
  matrix : Matrix T
  views : List AnyView
  output : List (Piece T)

/-- `strm << piece` -/
def put (piece : Piece T) : Prog (Store T) Error Unit :=
  modify fun s => { s with output := s.output ++ [piece] }

/-- The place of `matrix(row, col)`. -/
def Matrix.element (m : Matrix T) (row col : Nat) : Nat :=
  SizeT.add (SizeT.mul row m.mCols) col

/-- The place of `view(row, col)`, with the assertions. -/
def Store.placeIn (s : Store T) (k row col : Nat) : Option Nat := do
  let v ← s.views[k]?
  if row < v.rows ∧ col < v.cols then some (v.element row col) else none

/-- A reference is dereferenced. -/
def load (place : Store T → Option Nat) : Prog (Store T) Error T :=
  access fun s => (place s).bind fun p => s.matrix.mData[p]?

/-- An element is assigned to. -/
def assign (place : Store T → Option Nat) (x : T) : Prog (Store T) Error Unit :=
  change fun s => (place s).bind fun p =>
    if p < s.matrix.mData.length then
      some { s with matrix := { s.matrix with mData := s.matrix.mData.set p x } }
    else none

/-- The two `operator<<`: every element with a blank, every row with a newline. -/
def printRows (rows cols : Nat) (place : Nat → Nat → Store T → Option Nat) :
    Prog (Store T) Error Unit :=
  forRange rows fun row => do
    forRange cols fun col => do
      let x ← load (place row col)
      put (.value x)
      put (.char ' ')
    put (.char '\n')

/-- `strm << matrix` -/
def printMatrix : Prog (Store T) Error Unit := do
  let m ← gets Store.matrix
  printRows m.mRows m.mCols fun row col s => some (s.matrix.element row col)

/-- `strm << view` -/
def printView (k : Nat) : Prog (Store T) Error Unit := do
  match (← access fun s => s.views[k]?) with
  | .plain v => printRows v.mRows v.mCols fun row col s => s.placeIn k row col
  | .strided _ => undefinedBehaviour

/-- `subview` returns a new view, `crop` and `reshape` change the view. -/
def Op.store {V : Type} (op : Op) (k : Nat) (v : V) (views : List V) : List V :=
  match op with
  | .subview _ _ _ _ => views ++ [v]
  | .crop _ _ | .reshape _ _ => views.set k v

/-- The operations of a `MatrixView`. -/
def derive (k : Nat) (op : Op) : Prog (Store T) Error Unit := do
  match (← access fun s => s.views[k]?) with
  | .plain v =>
      match v.exec op with
      | .ok v' => modify fun s => { s with views := op.store k (.plain v') s.views }
      | .error e => throwing e
  | .strided _ => undefinedBehaviour

/-- The operations of a `StridedMatrixView` return a new view. -/
def deriveStrided (k : Nat) (op : StridedOp) : Prog (Store T) Error Unit := do
  match (← access fun s => s.views[k]?) with
  | .plain _ => undefinedBehaviour
  | .strided v =>
      match v.exec op with
      | .ok v' => modify fun s => { s with views := s.views ++ [.strided v'] }
      | .error e => throwing e

/-- The statements of a program. -/
inductive Stmt (T : Type) where
  | view
  | stridedView
  | derive (k : Nat) (op : Op)
  | deriveStrided (k : Nat) (op : StridedOp)
  | setElement (row col : Nat) (x : T)
  | setView (k row col : Nat) (x : T)
  | printMatrix
  | printView (k : Nat)
  | newline
  deriving DecidableEq, Repr

def exec : Stmt T → Prog (Store T) Error Unit
  | .view => modify fun s => { s with views := s.views ++ [.plain (View.ofMatrix s.matrix)] }
  | .stridedView =>
      modify fun s => { s with views := s.views ++ [.strided (StridedView.ofMatrix s.matrix)] }
  | .derive k op => MatrixView.derive k op
  | .deriveStrided k op => MatrixView.deriveStrided k op
  | .setElement row col x => assign (fun s => some (s.matrix.element row col)) x
  | .setView k row col x => assign (fun s => s.placeIn k row col) x
  | .printMatrix => MatrixView.printMatrix
  | .printView k => MatrixView.printView k
  | .newline => put (.char '\n')

/-- A statement and how it ends. -/
abbrev Line (T : Type) : Type := Stmt T × Outcome Error Unit

/-- The programs on `Matrix(rows, cols)`. -/
def programs (zero : T) (rows cols : Nat) : System (Store T) (Line T) where
  init s := s = ⟨Matrix.construct zero rows cols, [], []⟩
  step s a s' := exec a.1 s = (a.2, s')

/-- The statement uses a view of the right kind inside its shape, and nothing wraps. -/
def Proper (s : Store T) (a : Line T) : Prop :=
  match a.1 with
  | .derive k op => ∃ v, s.views[k]? = some (.plain v) ∧ NoWrap v op
  | .deriveStrided k op => ∃ v, s.views[k]? = some (.strided v) ∧ NoWrapStrided v op
  | .setElement row col _ => row < s.matrix.mRows ∧ col < s.matrix.mCols
  | .setView k row col _ => ∃ v, s.views[k]? = some v ∧ row < v.rows ∧ col < v.cols
  | .printView k => ∃ v, s.views[k]? = some (.plain v)
  | _ => True

instance (s : Store T) : (a : Line T) → Decidable (Proper s a)
  | (.derive k op, _) =>
      match hk : s.views[k]? with
      | some (.plain v) => decidable_of_iff (NoWrap v op)
          ⟨fun h => ⟨v, hk, h⟩, fun ⟨_, hv, h⟩ => by cases hk.symm.trans hv; exact h⟩
      | some (.strided _) => isFalse fun ⟨_, hv, _⟩ => nomatch hk.symm.trans hv
      | none => isFalse fun ⟨_, hv, _⟩ => nomatch hk.symm.trans hv
  | (.deriveStrided k op, _) =>
      match hk : s.views[k]? with
      | some (.strided v) => decidable_of_iff (NoWrapStrided v op)
          ⟨fun h => ⟨v, hk, h⟩, fun ⟨_, hv, h⟩ => by cases hk.symm.trans hv; exact h⟩
      | some (.plain _) => isFalse fun ⟨_, hv, _⟩ => nomatch hk.symm.trans hv
      | none => isFalse fun ⟨_, hv, _⟩ => nomatch hk.symm.trans hv
  | (.setView k row col _, _) =>
      match hk : s.views[k]? with
      | some v => decidable_of_iff (row < v.rows ∧ col < v.cols)
          ⟨fun h => ⟨v, hk, h⟩, fun ⟨_, hv, h⟩ => by cases hk.symm.trans hv; exact h⟩
      | none => isFalse fun ⟨_, hv, _⟩ => nomatch hk.symm.trans hv
  | (.printView k, _) =>
      match hk : s.views[k]? with
      | some (.plain v) => isTrue ⟨v, hk⟩
      | some (.strided _) => isFalse fun ⟨_, hv⟩ => nomatch hk.symm.trans hv
      | none => isFalse fun ⟨_, hv⟩ => nomatch hk.symm.trans hv
  | (.setElement row col _, _) =>
      inferInstanceAs (Decidable (row < s.matrix.mRows ∧ col < s.matrix.mCols))
  | (.view, _) | (.stridedView, _) | (.printMatrix, _) | (.newline, _) =>
      inferInstanceAs (Decidable True)

end MatrixView
