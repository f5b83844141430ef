/-
# Variables

A variable has an interval of bounds and a type. Types beyond the real one restrict
the values within the bounds: to integers, to zero and one, or, for the semi types,
to zero or a value within the bounds.
-/
import LinProg.InputError

namespace LinProg

/-- Which values between its bounds a variable may take. -/
inductive VariableType where
  | binary
  | integer
  | real
  | semiReal
  | semiInteger
  deriving DecidableEq

namespace VariableType

/-- Name in messages. -/
def text : VariableType → String
  | .binary => "Binary"
  | .integer => "Integer"
  | .real => "Real"
  | .semiReal => "SemiReal"
  | .semiInteger => "SemiInteger"

/-- Whether only integers are allowed. -/
def isInteger : VariableType → Bool
  | .binary | .integer | .semiInteger => true
  | .real | .semiReal => false

end VariableType

/-- Bounds of a variable. -/
structure Variable where
  lower : Binary64
  upper : Binary64
  deriving DecidableEq

namespace Variable

/-- The bounds are numbers and in order. -/
def Ordered (bounds : Variable) : Prop :=
  bounds.lower ≤ bounds.upper

/-- Bounds in order; infinite bounds are allowed and undefined ones are not. -/
def between? (lower upper : Binary64) : Except InputError Variable :=
  if lower ≤ upper then .ok ⟨lower, upper⟩ else .error (.emptyInterval lower upper)

/-- Nonnegative without an upper bound. -/
def nonnegative : Variable :=
  ⟨0, .posInf⟩

/-- Without bounds. -/
def free : Variable :=
  ⟨.negInf, .posInf⟩

/-- Equal bounds. -/
def isSame (left right : Variable) : Bool :=
  left.lower == right.lower && left.upper == right.upper

instance : BEq Variable where
  beq := isSame

end Variable

end LinProg
