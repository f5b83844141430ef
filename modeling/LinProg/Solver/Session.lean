/-
# In-process solver

A session holds a program and, once synchronized, its formulation for an engine. The
formulation is made again after every change, and a solution can be read only while
it belongs to the held program. The engine is a parameter of the solves. Every
operation says what it does in the log.
-/
import LinProg.Backend.ParameterKeys
import LinProg.Solver.Contract
import LinProg.Solver.Formulation

namespace LinProg

/-- State of the in-process solver. -/
structure Session where
  program : Program
  /-- What the engine is given, if the program was synchronized. -/
  formulation : Option Formulation
  state : SolverState
  status : Status
  /-- The values of the last solve that ended with values. -/
  stored : Option Solution
  /-- Solves are logged as long as this is positive. -/
  verbosity : Int
  deriving DecidableEq

/-- The status for the way an engine ends. -/
def Outcome.status : Outcome → Status
  | .optimal .. => .optimal
  | .infeasible => .infeasible
  | .unbounded => .unbounded

/-- The solution at a point, which has a value for each column. Integer variables are rounded,
and then the objective is evaluated at the rounded point; otherwise it is the one that the
engine gives. -/
def Formulation.solutionAt (formulation : Formulation) (point : List Binary64)
    (objectiveValue : Binary64) : Solution :=
  let primal := List.zipWith (fun integral value => if integral then value.round else value)
    formulation.integral (point.take formulation.problem.columns.length)
  { primal, dual := []
    objectiveValue :=
      if formulation.integral.contains true then
        Binary64.sum (List.zipWith (fun coefficient value => coefficient * value)
          formulation.coefficients primal)
      else objectiveValue }

/-- The solution that comes with the way an engine ends. -/
def Formulation.solutionOf? (formulation : Formulation) : Outcome → Option Solution
  | .optimal point objectiveValue => some (formulation.solutionAt point objectiveValue)
  | .infeasible | .unbounded => none

/-- How a formulation is solved. The engine is not asked about one that was already
seen to have no solution. -/
def Formulation.solve (formulation : Formulation) (engine : Engine) : Outcome :=
  if formulation.unsatisfiable then .infeasible else engine formulation.problem

namespace Session

/-- A session over a program. -/
def start (program : Program) : Session :=
  { program, formulation := none, status := .noInformation, stored := none, verbosity := 1
    state := if program.initialized then .configured else .unconfigured }

/-- The program may change, so the solution goes. -/
def expectChange (session : Session) : Session :=
  { session with state := session.state.afterProgramChange, stored := none }

/-- Hold a changed program. -/
def change (session : Session) (program : Program) : Session :=
  { session.expectChange with program }

/-- The direction that a value of the objective sense stands for. -/
def senseOf? (value : Int) : Option Sense :=
  if value = 1 then some .minimize
  else if value = -1 then some .maximize
  else none

/-- Set an integer parameter. -/
def setInteger (session : Session) (parameter : Parameter) (value : Int) : Reply Session Unit :=
  let line := backendLine .debug s!"parameter {parameter.text} set to {integerText value}"
  match Backend.inProcess.parameterTable.lookup parameter .integer with
  | .error error => .refuse session error
  | .ok _ =>
      match parameter with
      | .objectiveSense =>
          match senseOf? value with
          | none => .refuse session (.invalidValue parameter (integerText value))
          | some sense =>
              (Reply.succeed (session.change { session.program with sense }) ()).logging [line]
      | .verbosity =>
          (Reply.succeed
            { session with
              verbosity := value, state := session.state.afterConfiguration, stored := none }
            ()).logging [line]
      | _ => .refuse session (.unsupportedParameter parameter .integer)

/-- Set a real parameter, of which there are none. -/
def setReal (session : Session) (parameter : Parameter) (_ : Binary64) : Reply Session Unit :=
  match Backend.inProcess.parameterTable.lookup parameter .real with
  | .error error => .refuse session error
  | .ok _ => .refuse session (.unsupportedParameter parameter .real)

/-- Formulate the held program. A failure takes the formulation away. -/
def formulate (session : Session) : Reply Session Unit :=
  match Formulation.ofProgram? session.program with
  | .ok formulation =>
      let columns := naturalText formulation.problem.columns.length
      let rows := naturalText session.program.constraints.length
      { result := .ok ()
        next := { session with
          formulation := some formulation, state := .synchronized, stored := none }
        log := Formulation.log session.program ++
          [backendLine .debug s!"synchronized {columns} variables and {rows} constraints"] }
  | .error error =>
      { result := .error (.solver error)
        next := { session with formulation := none, state := .failed, stored := none }
        log := Formulation.log session.program ++
          [backendLine .warning s!"synchronization failed: {error.message}"] }

/-- Formulate the held program unless the formulation is current. -/
def synchronize (session : Session) : Reply Session Unit :=
  if !session.program.initialized then .refuse session .notInitialized
  else if session.state.isSynchronized && session.formulation.isSome then .succeed session ()
  else session.formulate

/-- Give the formulation to the engine and keep what comes back. -/
def finish (engine : Engine) (session : Session) : Reply Session Status :=
  match session.formulation with
  | none => .refuse session .notInitialized
  | some formulation =>
      let outcome := formulation.solve engine
      let status := outcome.status
      { result := .ok status
        next := { session with
          status, state := .solved, stored := formulation.solutionOf? outcome }
        log :=
          if 0 < session.verbosity then [backendLine .info s!"finished: {status.text}"] else [] }

/-- Synchronize if necessary, and solve. -/
def solvePrimal (engine : Engine) (session : Session) : Reply Session Status :=
  if session.state.isSynchronized then session.finish engine
  else session.synchronize.andThen fun _ next => next.finish engine

/-- Solve by the only method that there is. -/
def solveDual (engine : Engine) (session : Session) : Reply Session Status :=
  (session.solvePrimal engine).logging [backendLine .debug "has no separate dual algorithm"]

/-- The stored solution, after a solve that ended with values and before any change. -/
def solution (session : Session) : Except SolverError Solution :=
  match session.stored with
  | some solution =>
      if session.state = .solved ∧ session.status.hasSolution then .ok solution
      else .error .notSolved
  | none => .error .notSolved

/-- The operations of sessions that solve with an engine. -/
def contract (engine : Engine) : Contract Session where
  backend _ := Backend.inProcess.name
  program := program
  expectChange := expectChange
  hold session program := { session with program }
  supports _ := Backend.inProcess.parameterTable.supports
  setInteger := setInteger
  setReal := setReal
  synchronize := synchronize
  solvePrimal := solvePrimal engine
  solveDual := solveDual engine
  status := status
  state := state
  solution := solution

end Session

end LinProg
