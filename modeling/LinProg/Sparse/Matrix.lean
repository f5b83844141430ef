/-
# Sparse matrices

A matrix is a list of entries that lie in one direction. A dense matrix is stored by
leaving its zeros out. Along the columns, a row that is too short for a column
contributes no place to it, so that the values below it move up.
-/
import LinProg.Sparse.Entry

namespace LinProg

/-- Entries that lie in one direction. -/
structure SparseMatrix (α : Type) where
  orientation : Orientation
  entries : List (Entry α)
  deriving DecidableEq

namespace SparseMatrix

variable {α : Type}

/-- A matrix without entries. -/
def empty (orientation : Orientation) : SparseMatrix α :=
  ⟨orientation, []⟩

/-- The entries are the rows. -/
def ofRows (rows : List (Entry α)) : SparseMatrix α :=
  ⟨.row, rows⟩

/-- The entries are the columns. -/
def ofColumns (columns : List (Entry α)) : SparseMatrix α :=
  ⟨.column, columns⟩

/-- The values that differ from zero, with their positions. -/
def compress [BEq α] [OfNat α 0] (values : List α) : Entry α :=
  ⟨values.zipIdx.filterMap fun (value, position) =>
    if value == 0 then none else some (position, value)⟩

/-- Length of the longest row. -/
def width (dense : List (List α)) : Nat :=
  dense.foldl (fun widest row => max widest row.length) 0

/-- The values of the rows that reach a column. -/
def denseColumn (dense : List (List α)) (column : Nat) : List α :=
  dense.filterMap fun row => row[column]?

/-- Store a dense matrix, given by its rows, in a direction. -/
def ofDense [BEq α] [OfNat α 0] (dense : List (List α)) :
    Orientation → SparseMatrix α
  | .row => ofRows (dense.map compress)
  | .column => ofColumns ((List.range (width dense)).map fun column =>
      compress (denseColumn dense column))

/-- Append entries of the matrix's own direction. -/
def add? (matrix : SparseMatrix α) (orientation : Orientation) (entries : List (Entry α)) :
    Except InputError (SparseMatrix α) :=
  if orientation = matrix.orientation then
    .ok { matrix with entries := matrix.entries ++ entries }
  else
    .error (.wrongOrientation matrix.orientation orientation)

/-- The element in a row and a column, provided that the matrix has the entry for it. -/
def get? [OfNat α 0] (matrix : SparseMatrix α) (row column : Nat) : Option α :=
  match matrix.orientation with
  | .row => matrix.entries[row]?.map fun entry => entry.get column
  | .column => matrix.entries[column]?.map fun entry => entry.get row

/-- Number of stored terms of all entries. -/
def size (matrix : SparseMatrix α) : Nat :=
  matrix.entries.foldl (fun total entry => total + entry.size) 0

/-- The same direction, and equal entries in the same order. -/
def isSame [BEq α] (left right : SparseMatrix α) : Bool :=
  left.orientation = right.orientation && left.entries == right.entries

instance [BEq α] : BEq (SparseMatrix α) where
  beq := isSame

/-- A heading and one numbered line for each entry. -/
def textWith (valueText : α → String) (matrix : SparseMatrix α) : String :=
  lines (s!"{matrix.orientation.text} major:" ::
    matrix.entries.zipIdx.map fun (entry, position) =>
      s!"{naturalText position}: {entry.textWith valueText}")

end SparseMatrix

end LinProg
