/-
# Engines that break down

An engine may also fail for a reason of its own and say why. The session then reports the
failure under the code for it, has no status and no solution, and will synchronize anew.
Everything else is as with an engine that always comes to an end.
-/
import LinProg.Solver.Ingestion

namespace LinProg

/-- A way of solving problems that may break down, with a message. -/
abbrev FragileEngine := EngineProblem → Except String Outcome

/-- How a formulation is solved if the engine does not break down on it. -/
def Formulation.trySolve (formulation : Formulation) (engine : FragileEngine) :
    Except String Outcome :=
  if formulation.unsatisfiable then .ok .infeasible else engine formulation.problem

/-- The code for an engine that broke down. -/
def breakdownCode : Int := 3

/-- The error for an engine that broke down. Its message takes the place of the description
that goes with the code. -/
def breakdown (message : String) : SolverError :=
  .engineFailure Backend.inProcess.name breakdownCode message

namespace Session

/-- The session after the engine broke down. It keeps its formulation, but will not use it. -/
def brokenDown (session : Session) : Session :=
  { session with status := .noInformation, state := .failed, stored := none }

/-- Give the formulation to the engine, and report a breakdown. -/
def tryFinish (engine : FragileEngine) (session : Session) : Reply Session Status :=
  match session.formulation with
  | none => .refuse session .notInitialized
  | some formulation =>
      match formulation.trySolve engine with
      | .ok outcome => session.finish fun _ => outcome
      | .error message =>
          (Reply.refuse session.brokenDown (breakdown message)).logging
            [⟨.warning, (breakdown message).message⟩]

/-- Synchronize if necessary, and solve. -/
def trySolvePrimal (engine : FragileEngine) (session : Session) : Reply Session Status :=
  if session.state.isSynchronized then session.tryFinish engine
  else session.synchronize.andThen fun _ next => next.tryFinish engine

/-- Solve by the only method that there is. -/
def trySolveDual (engine : FragileEngine) (session : Session) : Reply Session Status :=
  (session.trySolvePrimal engine).logging [backendLine .debug "has no separate dual algorithm"]

/-- The operations of sessions whose engine may break down. Only the solves are others. -/
def fragileContract (engine : FragileEngine) : Contract Session :=
  { contract fun _ => .infeasible with
    solvePrimal := trySolvePrimal engine
    solveDual := trySolveDual engine }

/-- Carry out one operation with an engine that may break down. -/
def attempt (engine : FragileEngine) (session : Session) : Call → Reply Session Response
  | .request request => (fragileContract engine).perform session request
  | .ingest ingestion => (session.ingest ingestion).map fun _ => .done

/-- The state that a run ends in. -/
def attemptAll (engine : FragileEngine) (session : Session) (calls : List Call) : Session :=
  calls.foldl (fun state call => (state.attempt engine call).next) session

end Session

end LinProg
