/-
# Replaying status codes

A solver that does not compute. Each solve takes the next code from a list and
reports what the status table says about it, so that every outcome of a backend can
be produced through the contract of solvers. Its rules say which parameters can be
set, which code is reported once the list is used up, and which one is reported, in
place of a listed code, as long as the time limit leaves no time. Other settings are
checked and forgotten.
-/
import LinProg.Backend.ParameterKeys
import LinProg.Solver.Contract
import LinProg.Status.Table

namespace LinProg

/-- What a replaying solver goes by apart from its codes. -/
structure ReplayRules where
  parameters : ParameterTable
  /-- The code once the list is used up. -/
  codeAtEnd : Int
  /-- The code of a solve without time. Where there is none, time limits are ignored. -/
  codeWithoutTime? : Option Int

namespace ReplayRules

/-- The parameters of Gurobi, and its codes for an optimum and for a time limit. -/
def gurobi : ReplayRules where
  parameters := Backend.gurobi.parameterTable
  codeAtEnd := 2
  codeWithoutTime? := some 9

/-- The code that is reported because of a time limit. -/
def codeFor? (rules : ReplayRules) (timeLimit? : Option Binary64) : Option Int :=
  match timeLimit? with
  | some limit => if limit ≤ 0 then rules.codeWithoutTime? else none
  | none => none

end ReplayRules

/-- A solver that reports listed codes. -/
structure Replay where
  rules : ReplayRules
  statuses : StatusTable
  program : Program
  /-- The codes that are left. -/
  codes : List Int
  /-- The time limit that was set last. -/
  timeLimit? : Option Binary64
  state : SolverState
  status : Status
  stored : Option Solution

namespace Replay

/-- A solver that has not solved yet. -/
def start (rules : ReplayRules) (statuses : StatusTable) (program : Program)
    (codes : List Int) : Replay :=
  { rules, statuses, program, codes, timeLimit? := none
    state := .configured, status := .noInformation, stored := none }

/-- The program may change, so the solution goes. -/
def expectChange (replay : Replay) : Replay :=
  { replay with state := replay.state.afterProgramChange, stored := none }

/-- The time limit after a value was accepted for a parameter. -/
def timeLimitAfter? (replay : Replay) : Parameter → ParameterValue → Option Binary64
  | .timeLimit, .real limit => some limit
  | _, _ => replay.timeLimit?

/-- Accept a supported parameter. The solution is kept. -/
def configure (replay : Replay) (parameter : Parameter) (value : ParameterValue) :
    Reply Replay Unit :=
  match replay.rules.parameters.lookup parameter value.kind with
  | .error error => .refuse replay error
  | .ok _ =>
      .succeed
        { replay with
          timeLimit? := replay.timeLimitAfter? parameter value
          state := replay.state.afterConfiguration }
        ()

/-- There is nothing to synchronize but the state. -/
def synchronize (replay : Replay) : Reply Replay Unit :=
  if !replay.program.initialized then .refuse replay .notInitialized
  else if replay.state.isSynchronized then .succeed replay ()
  else .succeed { replay with state := .synchronized } ()

/-- The code that a solve reports, and the codes that it leaves. Without time, none is taken. -/
def nextCode (replay : Replay) : Int × List Int :=
  match replay.rules.codeFor? replay.timeLimit? with
  | some code => (code, replay.codes)
  | none => (replay.codes.headD replay.rules.codeAtEnd, replay.codes.tail)

/-- All variables at zero, if the status comes with values. -/
def zeroSolution? (replay : Replay) (status : Status) : Option Solution :=
  if status.hasSolution then some ⟨List.replicate replay.program.vars.length 0, [], 0⟩ else none

/-- Report the next code. A code that the table does not list is used up and changes nothing
else. -/
def takeCode (replay : Replay) : Reply Replay Status :=
  let (code, codes) := replay.nextCode
  let rest := { replay with codes }
  match rest.statuses.status code with
  | .ok status =>
      .succeed { rest with status, stored := rest.zeroSolution? status, state := .solved } status
  | .error (.solver error) => .refuse { rest with stored := none, state := .failed } error
  | .error fault => .fail rest fault

/-- Synchronize and report the next code. -/
def solve (replay : Replay) : Reply Replay Status :=
  replay.synchronize.andThen fun _ next => next.takeCode

/-- The stored solution, after a solve and before any change. -/
def solution (replay : Replay) : Except SolverError Solution :=
  match replay.stored, replay.state with
  | some solution, .solved => .ok solution
  | _, _ => .error .notSolved

/-- The operations of replaying solvers. -/
def contract : Contract Replay where
  backend replay := replay.statuses.backend
  program := program
  expectChange := expectChange
  hold replay program := { replay with program }
  supports replay := replay.rules.parameters.supports
  setInteger replay parameter value := replay.configure parameter (.integer value)
  setReal replay parameter value := replay.configure parameter (.real value)
  synchronize := synchronize
  solvePrimal := solve
  solveDual := solve
  status := status
  state := state
  solution := solution

end Replay

end LinProg
