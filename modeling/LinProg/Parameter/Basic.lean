/-
# Parameters

A parameter is named once for all backends. Its value is an integer or a real
number, and the two kinds are set through different operations.
-/
import LinProg.Binary64.Text

namespace LinProg

/-- What can be set on a solver. -/
inductive Parameter where
  | threadCount
  | objectiveSense
  | cutoff
  | infinity
  | timeLimit
  | objectiveLowerLimit
  | objectiveUpperLimit
  | verbosity
  | primalOrDual
  | iterationLimit
  deriving DecidableEq

namespace Parameter

/-- Every parameter, in the order of reports. -/
def all : List Parameter :=
  [.threadCount, .objectiveSense, .cutoff, .infinity, .timeLimit, .objectiveLowerLimit,
    .objectiveUpperLimit, .verbosity, .primalOrDual, .iterationLimit]

/-- Name in messages. -/
def text : Parameter → String
  | .threadCount => "ThreadCount"
  | .objectiveSense => "ObjectiveSense"
  | .cutoff => "Cutoff"
  | .infinity => "Infinity"
  | .timeLimit => "TimeLimit"
  | .objectiveLowerLimit => "ObjectiveLowerLimit"
  | .objectiveUpperLimit => "ObjectiveUpperLimit"
  | .verbosity => "Verbosity"
  | .primalOrDual => "PrimalOrDual"
  | .iterationLimit => "IterationLimit"

end Parameter

/-- The two kinds of values. -/
inductive ValueKind where
  | integer
  | real
  deriving DecidableEq

/-- Word in messages. -/
def ValueKind.text : ValueKind → String
  | .integer => "integer"
  | .real => "real"

/-- A value for a parameter. -/
inductive ParameterValue where
  | integer (value : Int)
  | real (value : Binary64)
  deriving DecidableEq

namespace ParameterValue

/-- Kind of a value. -/
def kind : ParameterValue → ValueKind
  | .integer _ => .integer
  | .real _ => .real

/-- The number alone. -/
def text : ParameterValue → String
  | .integer value => integerText value
  | .real value => value.text

/-- The same kind and equal numbers. -/
def isSame : ParameterValue → ParameterValue → Bool
  | .integer left, .integer right => left = right
  | .real left, .real right => left == right
  | _, _ => false

instance : BEq ParameterValue where
  beq := isSame

end ParameterValue

end LinProg
