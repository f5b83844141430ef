/-
# Backends

The solvers that this library knows: three external ones, for which it has the
tables, and one that runs in process.
-/

namespace LinProg

/-- A known solver. -/
inductive Backend where
  | gurobi
  | cplex
  | soplex
  | inProcess
  deriving DecidableEq

/-- Name in errors and logs. -/
def Backend.name : Backend → String
  | .gurobi => "Gurobi"
  | .cplex => "CPLEX"
  | .soplex => "SoPlex"
  | .inProcess => "microlp"

end LinProg
