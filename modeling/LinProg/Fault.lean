/-
# What can stop a step

A step on a program or a solver ends with a refusal by a type, with a refusal by a
solver, or it names something that is not there: a position that nothing has, or a
status code that a backend does not list.
-/
import LinProg.SolverError

namespace LinProg

/-- Why a step has no result. -/
inductive Fault where
  | input (error : InputError)
  | solver (error : SolverError)
  | outOfRange
  | unlistedCode (backend : String) (code : Int)
  deriving DecidableEq

/-- Text for the user, where there is one. -/
def Fault.message? : Fault → Option String
  | .input error => some error.message
  | .solver error => some error.message
  | .outOfRange => none
  | .unlistedCode backend code =>
      some s!"{backend} reported native status code {integerText code}, which has no translation"

end LinProg
