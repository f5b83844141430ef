/-
# Statuses

One vocabulary for how a solve ended, whatever backend ran it.
-/

namespace LinProg

/-- How the last solve ended. -/
inductive Status where
  | optimal
  | infeasible
  | infeasibleOrUnbounded
  | unbounded
  | cutoff
  | iterationLimit
  | nodeLimit
  | timeOut
  | solutionLimit
  | interrupted
  | numericFailure
  | suboptimalSolution
  | inProgress
  | userObjectiveLimit
  | noInformation
  deriving DecidableEq

namespace Status

/-- Whether there are values to read. -/
def hasSolution : Status → Bool
  | .optimal | .suboptimalSolution => true
  | _ => false

/-- Words for the user. -/
def text : Status → String
  | .optimal => "optimal"
  | .infeasible => "infeasible"
  | .infeasibleOrUnbounded => "infeasible or unbounded"
  | .unbounded => "unbounded"
  | .cutoff => "cutoff"
  | .iterationLimit => "iteration limit reached"
  | .nodeLimit => "node limit reached"
  | .timeOut => "time limit reached"
  | .solutionLimit => "solution limit reached"
  | .interrupted => "interrupted"
  | .numericFailure => "numeric failure"
  | .suboptimalSolution => "suboptimal solution"
  | .inProgress => "in progress"
  | .userObjectiveLimit => "user objective limit reached"
  | .noInformation => "no information"

end Status

end LinProg
