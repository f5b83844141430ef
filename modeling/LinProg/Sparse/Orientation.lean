/-
# Direction of sparse entries

A matrix stores its entries along one direction, which it never changes.
-/

namespace LinProg

/-- Along the rows or along the columns. -/
inductive Orientation where
  | row
  | column
  deriving DecidableEq

/-- Name in messages. -/
def Orientation.text : Orientation → String
  | .row => "row"
  | .column => "column"

end LinProg
