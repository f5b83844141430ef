/-
# Faults of solvers

A solver refuses an operation for one of these reasons. An engine that fails on its
own is reported with the code that it gave.
-/
import LinProg.InputError
import LinProg.Parameter.Basic
import LinProg.Program.Variable

namespace LinProg

/-- Why a solver could not complete an operation. -/
inductive SolverError where
  /-- The backend does not take values of this kind for the parameter. -/
  | unsupportedParameter (parameter : Parameter) (kind : ValueKind)
  /-- The parameter is supported, but not with this value. -/
  | invalidValue (parameter : Parameter) (value : String)
  /-- The program has no objective yet. -/
  | notInitialized
  /-- There is no solution to read. -/
  | notSolved
  /-- The backend has no variables of this type. -/
  | unsupportedType (type : VariableType)
  /-- A row or a column that does not exist is named. -/
  | indexOutOfRange (index length : Nat)
  /-- A bound lies outside of the integers of the backend. -/
  | unrepresentableBound (index : Nat) (value : Binary64)
  /-- Raw data breaks a rule. -/
  | invalidInput (error : InputError)
  /-- The engine reported a failure. -/
  | engineFailure (backend : String) (code : Int) (message : String)
  deriving DecidableEq

/-- Text for the user. -/
def SolverError.message : SolverError → String
  | .unsupportedParameter parameter kind =>
      s!"parameter {parameter.text} is not supported with a value of kind {kind.text}"
  | .invalidValue parameter value =>
      s!"value {value} is not valid for parameter {parameter.text}"
  | .notInitialized => "linear program is not initialized, no objective has been set"
  | .notSolved => "model has not been solved to (sub)optimality"
  | .unsupportedType type => s!"variable type {type.text} is not supported by this backend"
  | .indexOutOfRange index length =>
      s!"index {naturalText index} is out of range for length {naturalText length}"
  | .unrepresentableBound index value =>
      s!"bound {value.text} of variable {naturalText index} can't be represented by this backend"
  | .invalidInput error => error.message
  | .engineFailure backend code message =>
      s!"{backend} failed with code {integerText code}: {message}"

end LinProg
