/-
# Faults in offered data

A value is refused when the data for it breaks a rule of its type. Each
constructor is one rule and carries the data that broke it.
-/
import LinProg.Binary64.Text
import LinProg.Sparse.Orientation

namespace LinProg

/-- Why a value could not be built or changed. -/
inductive InputError where
  /-- An index occurs twice in one entry. -/
  | repeatedIndex (index : Nat)
  /-- Two lists that belong together differ in length. -/
  | lengthMismatch (expected actual : Nat)
  /-- Entries of the other direction were offered to a matrix. -/
  | wrongOrientation (expected actual : Orientation)
  /-- The lower bound is not at most the upper bound. -/
  | emptyInterval (lower upper : Binary64)
  /-- A segment offset is not usable. -/
  | badOffset (position : Nat)
  deriving DecidableEq

/-- Text for the user. -/
def InputError.message : InputError → String
  | .repeatedIndex index =>
      s!"index {naturalText index} appears more than once in the same entry"
  | .lengthMismatch expected actual =>
      s!"mismatched dimensions: expected length {naturalText expected}, got {naturalText actual}"
  | .wrongOrientation expected actual =>
      s!"can't add {actual.text} entries to a {expected.text} oriented matrix"
  | .emptyInterval lower upper =>
      s!"invalid variable bounds: lower bound {lower.text} exceeds upper bound {upper.text}"
  | .badOffset position =>
      s!"invalid start offset at position {naturalText position}"

end LinProg
