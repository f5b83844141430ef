/-
# What solvers have in common

A solver is given by the operations of `Contract` on its states. From them follow the
operations that are the same for every solver: editing the held program, setting a
parameter of either kind, applying a bundle of settings, and solving by the standard
method. A `Request` is one such operation, so that runs are lists of requests.
-/
import LinProg.Program.Edit
import LinProg.Parameter.Settings
import LinProg.Solution
import LinProg.Solver.Lifecycle
import LinProg.Solver.Reply
import LinProg.Status.Basic

namespace LinProg

/-- The operations that a solver with states in `σ` offers. -/
structure Contract (σ : Type) where
  /-- Name of the backend. -/
  backend : σ → String
  /-- The held program. -/
  program : σ → Program
  /-- Expect a change of the program. -/
  expectChange : σ → σ
  /-- Hold another program. -/
  hold : σ → Program → σ
  /-- Whether values of a kind can be set for a parameter. -/
  supports : σ → Parameter → ValueKind → Bool
  setInteger : σ → Parameter → Int → Reply σ Unit
  setReal : σ → Parameter → Binary64 → Reply σ Unit
  /-- Make what the engine has reflect the held program. -/
  synchronize : σ → Reply σ Unit
  solvePrimal : σ → Reply σ Status
  solveDual : σ → Reply σ Status
  /-- Status of the last solve. -/
  status : σ → Status
  state : σ → SolverState
  /-- The solution of the last solve, while it is current. -/
  solution : σ → Except SolverError Solution

/-- How to solve. The standard method synchronizes and solves by the primal one. -/
inductive SolveMethod where
  | primal
  | dual
  | standard
  deriving DecidableEq

/-- One operation on a solver. -/
inductive Request where
  | edit (edit : Edit)
  | set (parameter : Parameter) (value : ParameterValue)
  | apply (settings : Settings)
  | synchronize
  | solve (method : SolveMethod)
  deriving DecidableEq

/-- The result of an operation. -/
inductive Response where
  | done
  /-- The constraint that was taken out. -/
  | removed (constraint : Constraint)
  /-- The parameters that the backend does not support. -/
  | unsupported (parameters : List Parameter)
  /-- How a solve ended. -/
  | ended (status : Status)
  deriving DecidableEq

/-- The fault that a refused edit is reported as. -/
def EditError.fault : EditError → Fault
  | .invalid error => .input error
  | .outOfRange => .outOfRange

/-- The constraint that an edit hands back. -/
def Edit.removed? (program : Program) : Edit → Option Constraint
  | .removeConstraint position => program.constraints[position]?
  | _ => none

namespace Contract

variable {σ : Type} (contract : Contract σ)

/-- Edit the held program. The solver expects the change before it is tried. -/
def edit (solver : σ) (edit : Edit) : Reply σ Response :=
  let opened := contract.expectChange solver
  let program := contract.program opened
  match program.edit edit with
  | .error error => .fail opened error.fault
  | .ok changed =>
      let response :=
        match edit.removed? program with
        | some constraint => .removed constraint
        | none => .done
      .succeed (contract.hold opened changed) response

/-- Set a parameter by the operation for the kind of its value. -/
def set (solver : σ) (parameter : Parameter) : ParameterValue → Reply σ Unit
  | .integer value => contract.setInteger solver parameter value
  | .real value => contract.setReal solver parameter value

/-- Set parameters in order. Those that the backend does not support are skipped and
reported; any other fault ends the operation. -/
def applyAll (solver : σ) : List (Parameter × ParameterValue) → Reply σ (List Parameter)
  | [] => .succeed solver []
  | (parameter, value) :: rest =>
      let reply := contract.set solver parameter value
      match reply.result with
      | .ok () => (applyAll reply.next rest).logging reply.log
      | .error (.solver (.unsupportedParameter _ _)) =>
          ((applyAll reply.next rest).map (parameter :: ·)).logging reply.log
      | .error fault => ⟨.error fault, reply.next, reply.log⟩

/-- Apply a bundle of settings. -/
def apply (solver : σ) (settings : Settings) : Reply σ (List Parameter) :=
  contract.applyAll solver settings.entries

/-- Solve by a method. -/
def solve (solver : σ) : SolveMethod → Reply σ Status
  | .primal => contract.solvePrimal solver
  | .dual => contract.solveDual solver
  | .standard => (contract.synchronize solver).andThen fun _ next => contract.solvePrimal next

/-- Carry out one operation. -/
def perform (solver : σ) : Request → Reply σ Response
  | .edit edit => contract.edit solver edit
  | .set parameter value => (contract.set solver parameter value).map fun _ => .done
  | .apply settings => (contract.apply solver settings).map .unsupported
  | .synchronize => (contract.synchronize solver).map fun _ => .done
  | .solve method => (contract.solve solver method).map .ended

/-- The state that a run ends in. -/
def run (solver : σ) (requests : List Request) : σ :=
  requests.foldl (fun state request => (contract.perform state request).next) solver

end Contract

end LinProg
