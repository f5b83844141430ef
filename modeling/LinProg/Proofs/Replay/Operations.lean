/-
# What the operations of a replaying solver leave behind

As for sessions, each operation has one statement about its result and its next state. A
solve of a program without an objective is refused before a code is looked at. Every other
solve reports one code, and if the table lists the code, then result, state and solution all
follow from the meaning of the code, whatever the solver was doing before. The code comes from
the list, unless the time limit that was accepted last leaves no time.
-/
import LinProg.Solver.Replay
import LinProg.Proofs.Session.Operations
import LinProg.Proofs.Status.Table

namespace LinProg.Replay

/-- What a caller does with a replaying solver. Besides carrying out its operations, a caller
may take out the held program and leave any other one in its place. -/
inductive Move where
  | request (request : Request)
  | leave (program : Program)
  deriving DecidableEq

/-- The solver after a move. -/
def move (solver : Replay) : Move → Replay
  | .request request => (contract.perform solver request).next
  | .leave program => contract.hold (contract.expectChange solver) program

/-- The solver after several moves. -/
def follow (solver : Replay) (moves : List Move) : Replay :=
  moves.foldl move solver

/-- A solution can be read. -/
def Readable (solver : Replay) : Prop :=
  ∃ solution, solver.solution = .ok solution

variable (solver : Replay)

/-- A solution that is stored can be read in one state only. -/
theorem readable_iff : solver.Readable ↔ solver.state = .solved ∧ solver.stored.isSome := by
  rw [Readable, solution]
  cases solver.stored with
  | none => simp
  | some solution => cases solver.state <;> simp

/-! ## Changes -/

/-- Nothing can be read from the moment when the program is taken out. -/
theorem not_readable_opened (program : Program) :
    ¬ ({ solver.expectChange with program } : Replay).Readable := by
  simp [readable_iff, expectChange, SolverState.afterProgramChange]

/-- An edit leaves some program and no solution, also when it is refused. -/
theorem edit_next (edit : Edit) :
    ∃ program, (contract.edit solver edit).next = { solver.expectChange with program } := by
  simp only [Contract.edit]
  split
  · exact ⟨solver.program, rfl⟩
  · rename_i changed _
    exact ⟨changed, rfl⟩

/-- A setting of either kind is configured in the same way. -/
theorem set_eq_configure (parameter : Parameter) (value : ParameterValue) :
    contract.set solver parameter value = solver.configure parameter value := by
  cases value <;> rfl

/-- The time limit that a setting asks for. Other settings ask for none. -/
def limitOf? : Parameter → ParameterValue → Option Binary64
  | .timeLimit, .real limit => some limit
  | _, _ => none

theorem timeLimitAfter?_eq_or (parameter : Parameter) (value : ParameterValue) :
    solver.timeLimitAfter? parameter value = (limitOf? parameter value).or solver.timeLimit? := by
  cases parameter <;> cases value <;> rfl

/-- A setting is accepted, and then only the state and the time limit differ, or it is refused
as unsupported. -/
theorem set_cases (parameter : Parameter) (value : ParameterValue) :
    ((contract.set solver parameter value).result = .ok () ∧
        (contract.set solver parameter value).next =
          { solver with
            timeLimit? := (limitOf? parameter value).or solver.timeLimit?
            state := solver.state.afterConfiguration }) ∨
      ((∃ kind, (contract.set solver parameter value).result =
          .error (.solver (.unsupportedParameter parameter kind))) ∧
        (contract.set solver parameter value).next = solver) := by
  rw [set_eq_configure, configure, ParameterTable.lookup, timeLimitAfter?_eq_or]
  cases solver.rules.parameters.key? parameter with
  | none => exact .inr ⟨⟨value.kind, rfl⟩, rfl⟩
  | some key =>
      by_cases hoffered : key.offered = value.kind
      · simp [hoffered]
      · simp [hoffered]

/-- After an accepted setting a solve has to come first. -/
theorem not_readable_configured (timeLimit? : Option Binary64) :
    ¬ ({ solver with timeLimit?, state := solver.state.afterConfiguration } : Replay).Readable := by
  rw [readable_iff]
  cases solver.state <;> simp [SolverState.afterConfiguration]

/-- No setting ends a bundle. -/
theorem applyAll_next_cons (parameter : Parameter) (value : ParameterValue)
    (rest : List (Parameter × ParameterValue)) :
    (contract.applyAll solver ((parameter, value) :: rest)).next =
      (contract.applyAll (contract.set solver parameter value).next rest).next := by
  simp only [Contract.applyAll]
  rcases set_cases solver parameter value with ⟨hresult, -⟩ | ⟨⟨kind, hresult⟩, -⟩
  · rw [hresult]
    rfl
  · rw [hresult]
    rfl

/-! ## Synchronization -/

theorem synchronize_of_uninitialized (hinit : solver.program.initialized = false) :
    solver.synchronize = .refuse solver .notInitialized := by
  simp [synchronize, hinit]

theorem synchronize_of_initialized (hinit : solver.program.initialized = true) :
    solver.synchronize = .succeed
      (if solver.state.isSynchronized then solver else { solver with state := .synchronized })
      () := by
  cases hstate : solver.state.isSynchronized <;> simp [synchronize, hinit, hstate]

/-- Synchronizing changes nothing but the state, and that not once a solve has ended. -/
theorem synchronize_next :
    ∃ state, solver.synchronize.next = { solver with state } ∧
      (state = .solved ↔ solver.state = .solved) := by
  cases hinit : solver.program.initialized with
  | false =>
      rw [synchronize_of_uninitialized solver hinit]
      exact ⟨solver.state, rfl, Iff.rfl⟩
  | true =>
      rw [synchronize_of_initialized solver hinit, Reply.next_succeed]
      split
      · exact ⟨solver.state, rfl, Iff.rfl⟩
      · rename_i hstate
        refine ⟨.synchronized, rfl, nofun, fun hsolved => absurd ?_ hstate⟩
        rw [hsolved]
        rfl

/-! ## Solving -/

/-- A solve reported the next code, and all that it leaves follows from the report on this
code. -/
structure Took (solver : Replay) (reply : Reply Replay Status) : Prop where
  reports : solver.statuses.Reports solver.nextCode.1 reply.result
  codes : reply.next.codes = solver.nextCode.2
  rules : reply.next.rules = solver.rules
  statuses : reply.next.statuses = solver.statuses
  program : reply.next.program = solver.program
  timeLimit : reply.next.timeLimit? = solver.timeLimit?
  state : reply.next.state = if reply.result.isOk then .solved else .failed
  readable : reply.next.Readable ↔
    ∃ status, reply.result = .ok status ∧ status.hasSolution = true

theorem takeCode_took (hlisted : solver.nextCode.1 ∈ solver.statuses.codes) :
    solver.Took solver.takeCode := by
  obtain ⟨meaning, hmeaning⟩ := StatusTable.exists_meaning? hlisted
  have hreports := StatusTable.reports_of_meaning? hmeaning
  have hstatus := StatusTable.status_of_meaning? hmeaning
  cases meaning with
  | status ending =>
      rw [CodeMeaning.report] at hreports hstatus
      have htaken : solver.takeCode = .succeed
          { solver with
            codes := solver.nextCode.2, status := ending
            stored := solver.zeroSolution? ending, state := .solved } ending := by
        simp only [takeCode, hstatus]
        rfl
      rw [htaken]
      refine ⟨hreports, rfl, rfl, rfl, rfl, rfl, rfl, ?_⟩
      cases hvalues : ending.hasSolution <;> simp [readable_iff, zeroSolution?, hvalues]
  | failure description =>
      rw [CodeMeaning.report] at hreports hstatus
      have htaken : solver.takeCode = .refuse
          { solver with codes := solver.nextCode.2, stored := none, state := .failed }
          (.engineFailure solver.statuses.backend solver.nextCode.1 description) := by
        simp only [takeCode, hstatus]
      rw [htaken]
      refine ⟨hreports, rfl, rfl, rfl, rfl, rfl, rfl, ?_⟩
      simp [readable_iff]

theorem solve_of_uninitialized (hinit : solver.program.initialized = false)
    (method : SolveMethod) :
    contract.solve solver method = .refuse solver .notInitialized := by
  have hrefused := synchronize_of_uninitialized solver hinit
  cases method <;> simp only [Contract.solve, contract, solve, hrefused] <;> rfl

/-- By whatever method, a solve comes down to taking a code in a synchronized state. -/
theorem solve_of_initialized (hinit : solver.program.initialized = true) (method : SolveMethod) :
    ∃ state, contract.solve solver method = ({ solver with state } : Replay).takeCode := by
  have hsolve (next : Replay) (hinit : next.program.initialized = true) :
      ∃ state, next.solve = ({ next with state } : Replay).takeCode := by
    obtain ⟨state, hnext, -⟩ := synchronize_next next
    rw [synchronize_of_initialized next hinit, Reply.next_succeed] at hnext
    rw [solve, synchronize_of_initialized next hinit, hnext]
    exact ⟨state, rfl⟩
  cases method with
  | primal => exact hsolve solver hinit
  | dual => exact hsolve solver hinit
  | standard =>
      obtain ⟨state, hnext, -⟩ := synchronize_next solver
      obtain ⟨state', hsolved⟩ := hsolve { solver with state } hinit
      rw [synchronize_of_initialized solver hinit, Reply.next_succeed] at hnext
      refine ⟨state', ?_⟩
      rw [← hsolved]
      show solver.synchronize.andThen (fun _ next => next.solve) = _
      rw [synchronize_of_initialized solver hinit, hnext]
      rfl

theorem solve_took (hinit : solver.program.initialized = true)
    (hlisted : solver.nextCode.1 ∈ solver.statuses.codes) (method : SolveMethod) :
    solver.Took (contract.solve solver method) := by
  obtain ⟨state, hsolve⟩ := solve_of_initialized solver hinit method
  have took := takeCode_took { solver with state } hlisted
  rw [hsolve]
  exact ⟨took.reports, took.codes, took.rules, took.statuses, took.program, took.timeLimit,
    took.state, took.readable⟩

end LinProg.Replay
