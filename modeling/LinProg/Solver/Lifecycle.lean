/-
# Lifecycle of solvers

A solver is unconfigured while it has no program data. Changes to the program or the
settings take it back to a state in which no solution can be read.
-/

namespace LinProg

/-- Where a solver stands. -/
inductive SolverState where
  /-- There is no program data yet. -/
  | unconfigured
  /-- What the engine has does not reflect the held program. -/
  | configured
  /-- What the engine has reflects the held program. -/
  | synchronized
  /-- A solve ended with a status. -/
  | solved
  /-- The backend failed and has to be synchronized again. -/
  | failed
  deriving DecidableEq

namespace SolverState

/-- State after a parameter was set. -/
def afterConfiguration : SolverState → SolverState
  | .unconfigured | .configured | .failed => .configured
  | .synchronized | .solved => .synchronized

/-- State after the held program may have changed. -/
def afterProgramChange (_ : SolverState) : SolverState :=
  .configured

/-- Whether a solve can start at once. -/
def isSynchronized : SolverState → Bool
  | .synchronized | .solved => true
  | .unconfigured | .configured | .failed => false

end SolverState

end LinProg
