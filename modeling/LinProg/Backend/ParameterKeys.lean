/-
# Parameter keys

Under which key each backend knows a parameter. A parameter without a key is not
supported by the backend.
-/
import LinProg.Backend.Basic
import LinProg.Parameter.Table

namespace LinProg.Backend

/-- Gurobi knows parameters by name. It stores the iteration limit as a real number, and
the objective sense is an attribute that is set the same way. -/
def gurobiKey? : Parameter → Option ParameterKey
  | .threadCount => some (.integer (.name "Threads"))
  | .objectiveSense => some (.integer (.name "ModelSense"))
  | .cutoff => some (.real (.name "Cutoff"))
  | .timeLimit => some (.real (.name "TimeLimit"))
  | .verbosity => some (.integer (.name "OutputFlag"))
  | .primalOrDual => some (.integer (.name "Method"))
  | .iterationLimit => some (.integerAsReal (.name "IterationLimit"))
  | _ => none

/-- CPLEX numbers its parameters. The objective sense is the argument of a function. -/
def cplexKey? : Parameter → Option ParameterKey
  | .threadCount => some (.integer (.number 1067))
  | .objectiveSense => some (.integer (.name "CPXchgobjsen"))
  | .cutoff => some (.real (.number 2007))
  | .timeLimit => some (.real (.number 1039))
  | .objectiveLowerLimit => some (.real (.number 1025))
  | .objectiveUpperLimit => some (.real (.number 1026))
  | .verbosity => some (.integer (.number 1035))
  | .primalOrDual => some (.integer (.number 1062))
  | .iterationLimit => some (.integer (.number 1020))
  | _ => none

/-- SoPlex knows integer and real parameters by name. -/
def soplexKey? : Parameter → Option ParameterKey
  | .objectiveSense => some (.integer (.name "OBJSENSE"))
  | .infinity => some (.real (.name "INFTY"))
  | .timeLimit => some (.real (.name "TIMELIMIT"))
  | .objectiveLowerLimit => some (.real (.name "OBJLIMIT_LOWER"))
  | .objectiveUpperLimit => some (.real (.name "OBJLIMIT_UPPER"))
  | .verbosity => some (.integer (.name "VERBOSITY"))
  | .primalOrDual => some (.integer (.name "ALGORITHM"))
  | .iterationLimit => some (.integer (.name "ITERLIMIT"))
  | _ => none

/-- The in-process engine has neither limits nor a choice of algorithms. -/
def inProcessKey? : Parameter → Option ParameterKey
  | .objectiveSense => some (.integer (.name "direction"))
  | .verbosity => some (.integer (.name "verbosity"))
  | _ => none

/-- The entry of a parameter in the table of a backend. -/
def parameterKey? : Backend → Parameter → Option ParameterKey
  | .gurobi => gurobiKey?
  | .cplex => cplexKey?
  | .soplex => soplexKey?
  | .inProcess => inProcessKey?

/-- The parameter table of a backend. -/
def parameterTable (backend : Backend) : ParameterTable :=
  ⟨backend.name, backend.parameterKey?⟩

end LinProg.Backend
