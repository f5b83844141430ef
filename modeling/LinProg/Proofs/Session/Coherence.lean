/-
# The formulation of a session is never stale

A solve formulates the program again only if the state does not already say that the
last formulation is good. What makes this sound is an invariant, `Coherent`, which ties
the state to the formulation and to the stored solution. It holds at the start and after
every move, whatever the caller does to the program in between, and it leaves only one
thing for a solve to depend on: the held program. So every solve of a run ends as the
first solve of a new session does.
-/
import LinProg.Proofs.Session.Steps

namespace LinProg.Session

/-- The state tells the truth about the program, the formulation and the solution. -/
structure Coherent (session : Session) : Prop where
  unconfigured : session.state = .unconfigured → session.program.initialized = false
  initialized : session.state.isSynchronized = true → session.program.initialized = true
  current : session.state.isSynchronized = true →
    ∃ formulation, session.formulation = some formulation ∧
      Formulation.ofProgram? session.program = .ok formulation
  failed : session.state = .failed →
    session.formulation = none ∧
      ∃ error, Formulation.ofProgram? session.program = .error error
  stored : session.stored.isSome ↔ session.state = .solved ∧ session.status = .optimal

namespace Coherent

variable {engine : Engine} {session : Session}

theorem start (program : Program) : (start program).Coherent := by
  cases hinit : program.initialized <;>
    refine ⟨?_, ?_, ?_, ?_, ?_⟩ <;> simp [Session.start, hinit, SolverState.isSynchronized]

/-- Any change of the program leaves a coherent session, since nothing is claimed about
the new program. -/
theorem change (session : Session) (program : Program) : (session.change program).Coherent := by
  refine ⟨?_, ?_, ?_, ?_, ?_⟩ <;>
    simp [Session.change, expectChange, SolverState.afterProgramChange,
      SolverState.isSynchronized]

theorem withVerbosity (coherent : session.Coherent) (verbosity : Int) :
    (session.withVerbosity verbosity).Coherent := by
  -- A synchronized state stays synchronized, and every other state becomes configured.
  cases hstate : session.state.isSynchronized with
  | true =>
      have hafter : session.state.afterConfiguration = .synchronized := by
        cases hcase : session.state <;>
          simp_all [SolverState.isSynchronized, SolverState.afterConfiguration]
      refine ⟨?_, ?_, ?_, ?_, ?_⟩
      · simp [Session.withVerbosity, hafter]
      · exact fun _ => coherent.initialized hstate
      · exact fun _ => coherent.current hstate
      · simp [Session.withVerbosity, hafter]
      · simp [Session.withVerbosity, hafter]
  | false =>
      have hafter : session.state.afterConfiguration = .configured := by
        cases hcase : session.state <;>
          simp_all [SolverState.isSynchronized, SolverState.afterConfiguration]
      refine ⟨?_, ?_, ?_, ?_, ?_⟩ <;>
        simp [Session.withVerbosity, hafter, SolverState.isSynchronized]

theorem adjusted (coherent : session.Coherent) {next : Session}
    (adjusted : session.Adjusted next) : next.Coherent := by
  cases adjusted with
  | program program => exact change session program
  | verbosity value => exact coherent.withVerbosity value

theorem formulate (hinit : session.program.initialized = true) :
    session.formulate.next.Coherent := by
  cases hformulated : Formulation.ofProgram? session.program with
  | ok formulation =>
      rw [(formulate_of_ok session hformulated).2]
      refine ⟨?_, ?_, ?_, ?_, ?_⟩ <;> simp [hinit, hformulated]
  | error error =>
      rw [(formulate_of_error session hformulated).2]
      refine ⟨?_, ?_, ?_, ?_, ?_⟩ <;> simp [hformulated, SolverState.isSynchronized]

/-- In a coherent session the formulation that a synchronized state promises exists. -/
theorem synchronize_eq (coherent : session.Coherent)
    (hinit : session.program.initialized = true) :
    session.synchronize =
      if session.state.isSynchronized then .succeed session () else session.formulate := by
  cases hstate : session.state.isSynchronized with
  | true =>
      obtain ⟨formulation, hsome, _⟩ := coherent.current hstate
      simpa using synchronize_of_isSynchronized session hinit hstate (by simp [hsome])
  | false => simpa using synchronize_of_not_isSynchronized session hinit hstate

/-- An engine that ends with a point is the only way to a stored solution. -/
theorem ended (engine : Engine) {formulation : Formulation}
    (hinit : session.program.initialized = true)
    (hformulated : Formulation.ofProgram? session.program = .ok formulation) :
    (session.ended engine formulation).Coherent := by
  refine ⟨?_, ?_, ?_, ?_, ?_⟩
  · simp [Session.ended]
  · exact fun _ => hinit
  · exact fun _ => ⟨formulation, rfl, hformulated⟩
  · simp [Session.ended]
  · cases houtcome : formulation.solve engine <;>
      simp [Session.ended, houtcome, Formulation.solutionOf?, Outcome.status]

theorem step (coherent : session.Coherent) {next : Session} (step : Step engine session next) :
    next.Coherent := by
  cases step with
  | adjust adjusted => exact coherent.adjusted adjusted
  | formulate hinit => exact formulate hinit
  | finish hstate hsome =>
      obtain ⟨formulation, hcurrent, hformulated⟩ := coherent.current hstate
      cases Option.some.inj (hcurrent.symm.trans hsome)
      exact ended engine (coherent.initialized hstate) hformulated

/-- Operations leave coherent sessions, and so do whole runs. -/
theorem reaches (coherent : session.Coherent) {next : Session}
    (reaches : Reaches engine session next) : next.Coherent :=
  reaches.keeps (fun _ _ step coherent => coherent.step step) coherent

/-- Synchronizing does not ask the engine, so any one will do. -/
theorem synchronize (coherent : session.Coherent) : session.synchronize.next.Coherent :=
  coherent.reaches (@Reaches.synchronize (fun _ => .infeasible) session)

theorem follow (coherent : session.Coherent) (moves : List Move) :
    (session.follow engine moves).Coherent :=
  coherent.reaches (.follow session moves)

end Coherent

/-! ## Solving a coherent session -/

/-- What a solve of a coherent session comes to: its result and the session that it
leaves. Neither the method nor anything from before counts, apart from the program. -/
def settle (engine : Engine) (session : Session) : Except Fault Status × Session :=
  if session.program.initialized then
    match Formulation.ofProgram? session.program with
    | .ok formulation =>
        (.ok (formulation.solve engine).status, session.ended engine formulation)
    | .error error =>
        (.error (.solver error),
          { session with formulation := none, state := .failed, stored := none })
  else (.error (.solver .notInitialized), session)

variable {engine : Engine} {session : Session}

theorem solvePrimal_eq_settle (coherent : session.Coherent) :
    ((session.solvePrimal engine).result, (session.solvePrimal engine).next) =
      session.settle engine := by
  cases hstate : session.state.isSynchronized with
  | true =>
      obtain ⟨formulation, hsome, hformulated⟩ := coherent.current hstate
      obtain ⟨hresult, hnext⟩ := finish_of_some engine session hsome
      simp [solvePrimal, settle, hstate, coherent.initialized hstate, hformulated, hresult, hnext]
  | false =>
      cases hinit : session.program.initialized with
      | false =>
          have hrefused := synchronize_of_uninitialized session hinit
          rw [solvePrimal, hstate, hrefused, Reply.andThen_of_error rfl]
          simp [settle, hinit]
      | true =>
          have hformulate := synchronize_of_not_isSynchronized session hinit hstate
          cases hformulated : Formulation.ofProgram? session.program with
          | ok formulation =>
              obtain ⟨hresult, hnext⟩ := formulate_of_ok session hformulated
              rw [solvePrimal, hstate, hformulate, Reply.andThen_of_ok hresult, hnext]
              simp [settle, hinit, hformulated, finish, Session.ended]
          | error error =>
              obtain ⟨hresult, hnext⟩ := formulate_of_error session hformulated
              rw [solvePrimal, hstate, hformulate, Reply.andThen_of_error hresult, hnext]
              simp [settle, hinit, hformulated]

/-- Settling does not see whether the program was formulated just before. -/
theorem settle_formulate {formulation : Formulation}
    (hinit : session.program.initialized = true)
    (hformulated : Formulation.ofProgram? session.program = .ok formulation) :
    session.formulate.next.settle engine = session.settle engine := by
  rw [(formulate_of_ok session hformulated).2]
  simp [settle, hinit, hformulated, Session.ended]

theorem solveStandard_eq_settle (coherent : session.Coherent) :
    (((contract engine).solve session .standard).result,
      ((contract engine).solve session .standard).next) = session.settle engine := by
  show ((session.synchronize.andThen fun _ next => next.solvePrimal engine).result,
    (session.synchronize.andThen fun _ next => next.solvePrimal engine).next) = _
  cases hinit : session.program.initialized with
  | false =>
      rw [synchronize_of_uninitialized session hinit, Reply.andThen_of_error rfl]
      simp [settle, hinit]
  | true =>
      rw [coherent.synchronize_eq hinit]
      cases hstate : session.state.isSynchronized with
      | true => exact solvePrimal_eq_settle coherent
      | false =>
          cases hformulated : Formulation.ofProgram? session.program with
          | ok formulation =>
              have hresult := (formulate_of_ok session hformulated).1
              rw [if_neg (by simp), Reply.andThen_of_ok hresult,
                ← settle_formulate hinit hformulated]
              exact solvePrimal_eq_settle (Coherent.formulate hinit)
          | error error =>
              obtain ⟨hresult, hnext⟩ := formulate_of_error session hformulated
              rw [if_neg (by simp), Reply.andThen_of_error hresult, hnext]
              simp [settle, hinit, hformulated]

/-- Every method of solving settles a coherent session. -/
theorem solve_eq_settle (coherent : session.Coherent) (method : SolveMethod) :
    (((contract engine).solve session method).result,
      ((contract engine).solve session method).next) = session.settle engine := by
  cases method with
  | primal => exact solvePrimal_eq_settle coherent
  | dual => exact solvePrimal_eq_settle coherent
  | standard => exact solveStandard_eq_settle coherent

/-! ## Solving against solving anew -/

/-- The solution that a program has by itself, with an engine. -/
def solutionFor? (engine : Engine) (program : Program) : Option Solution :=
  if program.initialized then
    match Formulation.ofProgram? program with
    | .ok formulation => formulation.solutionOf? (formulation.solve engine)
    | .error _ => none
  else none

/-- Nothing can be read unless a solution is stored. -/
theorem solution_of_stored_eq_none (hstored : session.stored = none) :
    session.solution = .error .notSolved := by
  simp [Session.solution, hstored]

/-- A coherent session hands out what it stores. -/
theorem Coherent.solution_eq (coherent : session.Coherent) :
    session.solution = session.stored.elim (.error .notSolved) .ok := by
  cases hstored : session.stored with
  | none => exact solution_of_stored_eq_none hstored
  | some solution =>
      obtain ⟨hstate, hstatus⟩ := coherent.stored.mp (by simp [hstored])
      simp [Session.solution, hstored, hstate, hstatus, Status.hasSolution]

/-- Without an objective there was no solve, and so there is no solution. -/
theorem Coherent.stored_of_uninitialized (coherent : session.Coherent)
    (hinit : session.program.initialized = false) : session.stored = none := by
  cases hstored : session.stored with
  | none => rfl
  | some solution =>
      have hstate := (coherent.stored.mp (by simp [hstored])).1
      have htrue := coherent.initialized (by simp [hstate, SolverState.isSynchronized])
      simp [hinit] at htrue

/-- A settled session stores what the program has by itself. -/
theorem Coherent.stored_settle (coherent : session.Coherent) :
    (session.settle engine).2.stored = solutionFor? engine session.program := by
  cases hinit : session.program.initialized with
  | false =>
      have hstored := coherent.stored_of_uninitialized hinit
      simp [Session.settle, solutionFor?, hinit, hstored]
  | true =>
      cases hformulated : Formulation.ofProgram? session.program <;>
        simp [Session.settle, solutionFor?, hinit, hformulated, Session.ended]

/-- After a solve, the solution that can be read is that of the program by itself. -/
theorem Coherent.solution_solve (coherent : session.Coherent) (method : SolveMethod) :
    ((contract engine).solve session method).next.solution =
      (solutionFor? engine session.program).elim (.error .notSolved) .ok := by
  rw [(coherent.reaches (.solve session method)).solution_eq, ← coherent.stored_settle,
    ← solve_eq_settle coherent method]

/-- The result of settling depends on the program alone. -/
theorem settle_fst_eq {other : Session} (hprogram : other.program = session.program) :
    (other.settle engine).1 = (session.settle engine).1 := by
  simp only [settle, hprogram]
  split
  · split <;> rfl
  · rfl

/-- A solve that fails keeps the status and finds no solution, and one that ends has a
solution exactly if its status says so. -/
theorem Coherent.solve_cases (coherent : session.Coherent) (method : SolveMethod) :
    let reply := (contract engine).solve session method
    (∃ fault, reply.result = .error fault ∧ reply.next.status = session.status ∧
        solutionFor? engine session.program = none) ∨
      (reply.result = .ok reply.next.status ∧
        reply.next.status.hasSolution = (solutionFor? engine session.program).isSome) := by
  intro reply
  have hsettle : (reply.result, reply.next) = session.settle engine :=
    solve_eq_settle coherent method
  have hresult : reply.result = (session.settle engine).1 := congrArg Prod.fst hsettle
  have hnext : reply.next = (session.settle engine).2 := congrArg Prod.snd hsettle
  rw [hresult, hnext]
  cases hinit : session.program.initialized with
  | false => simp [Session.settle, solutionFor?, hinit]
  | true =>
      cases hformulated : Formulation.ofProgram? session.program with
      | error error => simp [Session.settle, solutionFor?, hinit, hformulated]
      | ok formulation =>
          cases houtcome : formulation.solve engine <;>
            simp [Session.settle, solutionFor?, hinit, hformulated, Session.ended, houtcome,
              Formulation.solutionOf?, Outcome.status, Status.hasSolution]

/-- Synchronizing neither gives nor takes a solution. -/
theorem Coherent.solution_synchronize (coherent : session.Coherent) :
    session.synchronize.next.solution = session.solution := by
  rw [coherent.synchronize.solution_eq, coherent.solution_eq]
  cases hinit : session.program.initialized with
  | false => rw [synchronize_of_uninitialized session hinit, Reply.next_refuse]
  | true =>
      rw [coherent.synchronize_eq hinit]
      cases hstate : session.state.isSynchronized with
      | true => rfl
      | false =>
          have hstored : session.stored = none := by
            cases hsome : session.stored with
            | none => rfl
            | some solution =>
                have hsolved := (coherent.stored.mp (by simp [hsome])).1
                simp [hsolved, SolverState.isSynchronized] at hstate
          cases hformulated : Formulation.ofProgram? session.program with
          | ok formulation =>
              simp [(formulate_of_ok session hformulated).2, hstored]
          | error error =>
              simp [(formulate_of_error session hformulated).2, hstored]

/-- Wherever a run has come to, a solve by any method ends as the standard solve of a new
session over the program held at that moment, and leaves the same solution to read. -/
theorem solve_follow_eq_solve_start (engine : Engine) (program : Program) (moves : List Move)
    (method : SolveMethod) :
    let session := (start program).follow engine moves
    let reply := session.perform engine (.request (.solve method))
    let fresh := (start session.program).perform engine (.request (.solve .standard))
    reply.result = fresh.result ∧ reply.next.solution = fresh.next.solution := by
  intro session reply fresh
  have hheld : session.Coherent := (Coherent.start program).follow moves
  have hnew : (start session.program).Coherent := Coherent.start session.program
  apply And.intro
  · have hresult : ((contract engine).solve session method).result =
        ((contract engine).solve (start session.program) .standard).result := by
      calc
        _ = (session.settle engine).1 := congrArg Prod.fst (solve_eq_settle hheld method)
        _ = ((start session.program).settle engine).1 := settle_fst_eq rfl
        _ = _ := (congrArg Prod.fst (solve_eq_settle hnew .standard)).symm
    exact congrArg (Except.map Response.ended) hresult
  · show ((contract engine).solve session method).next.solution =
      ((contract engine).solve (start session.program) .standard).next.solution
    rw [hheld.solution_solve, hnew.solution_solve]
    rfl

end LinProg.Session
