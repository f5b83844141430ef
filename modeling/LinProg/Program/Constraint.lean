/-
# Constraints

A constraint keeps the value of a row within a range. One-sided constraints have an
infinite bound on the other side, and equations have two equal bounds. The bounds
may be any doubles; what a range without a real number means is decided when the
program is solved.
-/
import LinProg.Sparse.Entry

namespace LinProg

/-- Bounds that differ by at most this much count as equal. -/
def boundTolerance : Binary64 :=
  .ofDecimal false 1 (-15)

/-- Bounds are equal, infinite ones included, or closer than the tolerance. -/
def boundsAgree (left right : Binary64) : Bool :=
  left == right || decide ((left - right).abs ≤ boundTolerance)

/-- A row of coefficients, indexed by variable, and the range of its value. -/
structure Constraint where
  row : Entry Binary64
  lower : Binary64
  upper : Binary64
  deriving DecidableEq

namespace Constraint

/-- The row is at most a bound. -/
def atMost (row : Entry Binary64) (upper : Binary64) : Constraint :=
  ⟨row, .negInf, upper⟩

/-- The row is at least a bound. -/
def atLeast (row : Entry Binary64) (lower : Binary64) : Constraint :=
  ⟨row, lower, .posInf⟩

/-- The row has a value. -/
def equals (row : Entry Binary64) (value : Binary64) : Constraint :=
  ⟨row, value, value⟩

/-- Bounds agree within the tolerance and rows exactly. -/
def isSame (left right : Constraint) : Bool :=
  boundsAgree left.lower right.lower && boundsAgree left.upper right.upper &&
    left.row == right.row

instance : BEq Constraint where
  beq := isSame

/-- The row between its bounds. -/
def text (constraint : Constraint) : String :=
  s!"{constraint.lower.text} <= {constraint.row.text} <= {constraint.upper.text}"

end Constraint

end LinProg
