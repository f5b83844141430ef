/-
# Senses and variable types of backends

Each backend has its own number for the direction of optimization, and its own
choice of variable types. Two of them write a type as a letter.
-/
import LinProg.Backend.Basic
import LinProg.Program.Sense
import LinProg.SolverError

namespace LinProg.Backend

/-- The number of a direction. Only SoPlex gives minimization the negative one. -/
def senseCode : Backend → Sense → Int
  | .soplex, .minimize => -1
  | .soplex, .maximize => 1
  | _, .minimize => 1
  | _, .maximize => -1

/-- The letter of a variable type, for backends that write letters. -/
def typeLetter : VariableType → Char
  | .binary => 'B'
  | .integer => 'I'
  | .real => 'C'
  | .semiReal => 'S'
  | .semiInteger => 'N'

/-- Accept a variable type, with its letter if the backend writes one. -/
def encodeType : Backend → VariableType → Except SolverError (Option Char)
  | .gurobi, type | .cplex, type => .ok (some (typeLetter type))
  | .soplex, .real => .ok none
  | .inProcess, .real | .inProcess, .integer | .inProcess, .binary => .ok none
  | _, type => .error (.unsupportedType type)

/-- Whether a backend has variables of a type. -/
def supportsType (backend : Backend) (type : VariableType) : Bool :=
  (backend.encodeType type).isOk

end LinProg.Backend
