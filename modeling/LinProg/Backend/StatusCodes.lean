/-
# Status codes

What each backend means by its integer codes. The tables list every code that a
backend documents, in the order of its documentation.
-/
import LinProg.Backend.Basic
import LinProg.Status.Table

namespace LinProg.Backend

/-- Values of the status attribute of Gurobi models. -/
def gurobiCodes : List (Int × CodeMeaning) :=
  [ (1, .status .noInformation),
    (2, .status .optimal),
    (3, .status .infeasible),
    (4, .status .infeasibleOrUnbounded),
    (5, .status .unbounded),
    (6, .status .cutoff),
    (7, .status .iterationLimit),
    (8, .status .nodeLimit),
    (9, .status .timeOut),
    (10, .status .solutionLimit),
    (11, .status .interrupted),
    (12, .status .numericFailure),
    (13, .status .suboptimalSolution),
    (14, .status .inProgress),
    (15, .status .userObjectiveLimit)
  ]

/-- Solution status codes of CPLEX, of continuous and of mixed integer solves. -/
def cplexCodes : List (Int × CodeMeaning) :=
  [ (1, .status .optimal),
    (2, .status .unbounded),
    (3, .status .infeasible),
    (4, .status .infeasibleOrUnbounded),
    (5, .status .suboptimalSolution),
    (6, .status .numericFailure),
    (10, .status .iterationLimit),
    (11, .status .timeOut),
    (12, .status .userObjectiveLimit),
    (13, .status .interrupted),
    (101, .status .optimal),
    (102, .status .optimal),
    (103, .status .infeasible),
    (104, .status .solutionLimit),
    (105, .status .nodeLimit),
    (106, .status .nodeLimit),
    (107, .status .timeOut),
    (108, .status .timeOut),
    (109, .failure "mixed integer solve failed with an integer solution"),
    (110, .failure "mixed integer solve failed without an integer solution"),
    (111, .failure "memory limit reached with an integer solution"),
    (112, .failure "memory limit reached without an integer solution"),
    (113, .status .interrupted),
    (114, .status .interrupted),
    (115, .status .suboptimalSolution),
    (118, .status .unbounded),
    (119, .status .infeasibleOrUnbounded)
  ]

/-- Values of the status of a SoPlex solve. -/
def soplexCodes : List (Int × CodeMeaning) :=
  [ (-15, .failure "unspecified error"),
    (-14, .failure "no ratio tester loaded"),
    (-13, .failure "no pricer loaded"),
    (-12, .failure "no linear solver loaded"),
    (-11, .status .noInformation),
    (-10, .status .interrupted),
    (-9, .status .interrupted),
    (-8, .status .numericFailure),
    (-7, .status .timeOut),
    (-6, .status .iterationLimit),
    (-5, .status .userObjectiveLimit),
    (-4, .status .numericFailure),
    (-3, .status .noInformation),
    (-2, .status .noInformation),
    (-1, .status .inProgress),
    (0, .status .noInformation),
    (1, .status .optimal),
    (2, .status .unbounded),
    (3, .status .infeasible),
    (4, .status .infeasibleOrUnbounded),
    (5, .status .suboptimalSolution)
  ]

/-- Outcomes of the in-process engine. -/
def inProcessCodes : List (Int × CodeMeaning) :=
  [ (0, .status .optimal),
    (1, .status .infeasible),
    (2, .status .unbounded),
    (3, .failure "internal error")
  ]

/-- The codes of a backend. -/
def statusCodes : Backend → List (Int × CodeMeaning)
  | .gurobi => gurobiCodes
  | .cplex => cplexCodes
  | .soplex => soplexCodes
  | .inProcess => inProcessCodes

/-- The status table of a backend. -/
def statusTable (backend : Backend) : StatusTable :=
  ⟨backend.name, backend.statusCodes⟩

end LinProg.Backend
