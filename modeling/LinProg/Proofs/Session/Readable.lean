/-
# What can be read belongs to the held program

A solution is computed from a formulation, and the program may be edited ever so often after
that formulation was made. But every edit takes the solution away, and so does whatever else
could make the program and the formulation disagree, a breakdown of the engine included. So
the coefficients and types that a readable solution was computed from are still those of the
held program.
-/
import LinProg.Proofs.Formulation.Columns
import LinProg.Proofs.Session.Breakdown

namespace LinProg.Session

/-- The engine ended on a formulation of the program with a point, and this is the solution
there. -/
def SolutionFor (engine : FragileEngine) (program : Program) (solution : Solution) : Prop :=
  ∃ formulation point value, Formulation.ofProgram? program = .ok formulation ∧
    engine formulation.problem = .ok (.optimal point value) ∧
    solution = formulation.solutionAt point value

/-- What a synchronized session has formulated, and what it has stored, is that of the held
program. -/
structure Current (engine : FragileEngine) (session : Session) : Prop where
  formulation : session.state.isSynchronized = true → ∃ formulation,
    session.formulation = some formulation ∧
      Formulation.ofProgram? session.program = .ok formulation
  stored : ∀ solution, session.stored = some solution →
    SolutionFor engine session.program solution

variable {engine : FragileEngine} {session next : Session}

theorem exists_of_solutionOf?_eq_some {formulation : Formulation} {solution : Solution}
    (hsome : formulation.solutionOf? (formulation.solve engine.total) = some solution) :
    ∃ point value, engine formulation.problem = .ok (.optimal point value) ∧
      solution = formulation.solutionAt point value := by
  cases hflag : formulation.unsatisfiable with
  | true => simp [Formulation.solve, hflag, Formulation.solutionOf?] at hsome
  | false =>
      cases hengine : engine formulation.problem with
      | error message =>
          simp [Formulation.solve, hflag, FragileEngine.total, hengine,
            Formulation.solutionOf?] at hsome
      | ok outcome =>
          simp only [Formulation.solve, hflag, FragileEngine.total, hengine, Bool.false_eq_true,
            if_false] at hsome
          cases outcome with
          | optimal point value =>
              exact ⟨point, value, rfl, (Option.some.inj hsome).symm⟩
          | infeasible => cases hsome
          | unbounded => cases hsome

namespace Current

/-- Nothing is claimed of a session that stores no solution, unless it is synchronized. -/
theorem of_stored_eq_none (hstored : session.stored = none)
    (hformulation : session.state.isSynchronized = true → ∃ formulation,
      session.formulation = some formulation ∧
        Formulation.ofProgram? session.program = .ok formulation) :
    Current engine session := by
  refine ⟨hformulation, fun solution hsome => ?_⟩
  rw [hstored] at hsome
  cases hsome

theorem start (program : Program) : Current engine (start program) := by
  refine of_stored_eq_none rfl fun hstate => ?_
  cases hinit : program.initialized <;>
    simp [Session.start, hinit, SolverState.isSynchronized] at hstate

theorem brokenDown (session : Session) : Current engine session.brokenDown :=
  of_stored_eq_none rfl nofun

theorem change (session : Session) (program : Program) : Current engine (session.change program) :=
  of_stored_eq_none rfl nofun

theorem withVerbosity (current : Current engine session) (verbosity : Int) :
    Current engine (session.withVerbosity verbosity) := by
  refine of_stored_eq_none rfl fun hstate => current.formulation ?_
  rwa [← session.state.isSynchronized_afterConfiguration]

theorem formulate (session : Session) : Current engine session.formulate.next := by
  cases hformulated : Formulation.ofProgram? session.program with
  | ok formulation =>
      rw [(formulate_of_ok session hformulated).2]
      exact of_stored_eq_none rfl fun _ => ⟨formulation, rfl, hformulated⟩
  | error error =>
      rw [(formulate_of_error session hformulated).2]
      exact of_stored_eq_none rfl nofun

theorem ended {formulation : Formulation}
    (hformulated : Formulation.ofProgram? session.program = .ok formulation) :
    Current engine (session.ended engine.total formulation) := by
  refine ⟨fun _ => ⟨formulation, rfl, hformulated⟩, fun solution hsome => ?_⟩
  obtain ⟨point, value, hengine, hsolution⟩ := exists_of_solutionOf?_eq_some hsome
  exact ⟨formulation, point, value, hformulated, hengine, hsolution⟩

theorem step (current : Current engine session) (step : Step engine.total session next) :
    Current engine next := by
  cases step with
  | adjust adjusted =>
      cases adjusted with
      | program program => exact change session program
      | verbosity value => exact current.withVerbosity value
  | formulate _ => exact formulate session
  | finish hstate hsome =>
      -- The engine is only asked in a synchronized state, and then the formulation is current.
      obtain ⟨formulation, hcurrent, hformulated⟩ := current.formulation hstate
      cases Option.some.inj (hcurrent.symm.trans hsome)
      exact ended hformulated

theorem attemptMoves (current : Current engine session) (moves : List Move) :
    Current engine (session.attemptMoves engine moves) :=
  attemptMoves_keeps (fun _ _ step current => current.step step)
    (fun before _ => brokenDown before) moves current

end Current

/-! ## Programs that are held -/

theorem attempt_consistent (consistent : session.program.Consistent) (call : Call) :
    (session.attempt engine call).next.program.Consistent := by
  apply attempt_program_keeps _ _ _ consistent
  · exact fun program sense consistent => consistent
  · exact fun edit _ program changed hok consistent => consistent.edit hok
  · exact fun ingestion _ program changed hok consistent => consistent.ingest hok

theorem attemptMoves_consistent (consistent : session.program.Consistent) {moves : List Move}
    (hleft : ∀ program, .leave program ∈ moves → program.Consistent) :
    (session.attemptMoves engine moves).program.Consistent := by
  induction moves generalizing session with
  | nil => exact consistent
  | cons first rest ih =>
      apply ih
      · cases first with
        | call call => exact attempt_consistent consistent call
        | leave program => exact hleft program List.mem_cons_self
      · exact fun program hmem => hleft program (List.mem_cons_of_mem first hmem)

theorem stored_of_solution_eq_ok {solution : Solution} (hok : session.solution = .ok solution) :
    session.stored = some solution := by
  cases hstored : session.stored with
  | none => simp [Session.solution, hstored] at hok
  | some other =>
      simp only [Session.solution, hstored] at hok
      split at hok
      · exact congrArg some (Except.ok.inj hok)
      · cases hok

/-- Whatever happened to a session, and wherever its engine broke down, a solution that can be
read has a value for each variable of the held program and no dual values. It is made of the
values that the engine found for a formulation of this very program. Those of its integer and
binary variables are rounded, and if there are any, the objective value is summed up with the
coefficients of the program. Otherwise it is the one that the engine found. -/
theorem solution_belongs_to_program (engine : FragileEngine)
    (hvalues : ∀ problem point value, engine problem = .ok (.optimal point value) →
      point.length = problem.columns.length)
    {program : Program} (consistent : program.Consistent) {moves : List Move}
    (hleft : ∀ program, .leave program ∈ moves → program.Consistent) {solution : Solution} :
    let session := (start program).attemptMoves engine moves
    let terms := session.program.objective.terms
    session.solution = .ok solution →
      ∃ formulation point value, Formulation.ofProgram? session.program = .ok formulation ∧
        engine formulation.problem = .ok (.optimal point value) ∧
        point.length = session.program.vars.length ∧
        solution.primal.length = session.program.vars.length ∧ solution.dual = [] ∧
        solution.primal = List.zipWith (fun term value =>
          if term.type = .integer ∨ term.type = .binary then value.round else value) terms point ∧
        solution.objectiveValue =
          if ∃ term ∈ terms, term.type = .integer ∨ term.type = .binary then
            Binary64.sum (List.zipWith (fun term value => term.coefficient * value) terms
              solution.primal)
          else value := by
  intro session terms hok
  have held : session.program.Consistent := attemptMoves_consistent consistent hleft
  have current : Current engine session := (Current.start program).attemptMoves moves
  obtain ⟨formulation, point, value, hformulated, hengine, rfl⟩ :=
    current.stored solution (stored_of_solution_eq_ok hok)
  have hlength : point.length = session.program.vars.length :=
    (hvalues _ _ _ hengine).trans (Formulation.length_columns_of_ofProgram? held hformulated)
  have hsize : terms.length = session.program.vars.length := held
  refine ⟨formulation, point, value, hformulated, hengine, hlength, ?_⟩
  have hwhole : ∀ term : ObjectiveTerm,
      term.isWhole = true ↔ term.type = .integer ∨ term.type = .binary := by
    intro term
    simp [ObjectiveTerm.isWhole]
  rw [Formulation.solutionAt_of_ofProgram? held hformulated (hvalues _ _ _ hengine)]
  refine ⟨?_, rfl, ?_, ?_⟩
  · simp [terms, hlength, hsize]
  · simp only [hwhole]
    rfl
  · simp only [List.any_eq_true, hwhole]
    rfl

/-- The engine breaks down on three columns. Without the third one there is a solution again,
and the half of the integer variable is rounded up. -/
theorem solution_belongs_to_program_half :
    let one := Binary64.ofInt 1
    let half := Binary64.ofDecimal false 5 (-1)
    let engine : FragileEngine := fun problem =>
      if problem.columns.length = 2 then .ok (.optimal [half, half] one) else .error "cycling"
    let program := Program.ofObjective .minimize [] ⟨[⟨one, .integer⟩, ⟨one, .real⟩]⟩
    let moves : List Move := [.call (.request (.edit (.addVariables [.free]))),
      .call (.request (.solve .standard)), .call (.request (.edit (.removeVariable 2))),
      .call (.request (.solve .dual)), .call (.request .synchronize)]
    let session := (start program).attemptMoves engine moves
    ((start program).attemptMoves engine (moves.take 2)).state = .failed ∧
      (∀ problem point value, engine problem = .ok (.optimal point value) →
        point.length = problem.columns.length) ∧
      program.Consistent ∧ (∀ program, .leave program ∈ moves → program.Consistent) ∧
      ∃ solution, session.solution = .ok solution ∧ solution.primal = [one, half] ∧
        solution.primal.length = session.program.vars.length ∧ solution.dual = [] := by
  intro one half engine program moves session
  have hvalues : ∀ problem point value, engine problem = .ok (.optimal point value) →
      point.length = problem.columns.length := by
    intro problem point value hok
    by_cases hlength : problem.columns.length = 2
    · simp only [engine, if_pos hlength, Except.ok.injEq, Outcome.optimal.injEq] at hok
      rw [← hok.1, hlength]
      rfl
    · simp [engine, hlength] at hok
  have hleft : ∀ program, .leave program ∈ moves → program.Consistent := by
    simp [moves]
  have consistent : program.Consistent := by
    simp [program, Program.Consistent, Program.ofObjective]
  have hstate : ((start program).attemptMoves engine (moves.take 2)).state = .failed := by
    decide +kernel
  have hread : session.solution.toOption.map Solution.primal = some [one, half] := by
    decide +kernel
  cases hsolution : session.solution with
  | error error => simp [hsolution, Except.toOption] at hread
  | ok solution =>
      have hprimal : solution.primal = [one, half] := by
        simpa [hsolution, Except.toOption] using hread
      obtain ⟨_, _, _, -, -, -, hlength, hdual, -, -⟩ :=
        solution_belongs_to_program engine hvalues consistent hleft hsolution
      refine ⟨hstate, hvalues, consistent, hleft, solution, rfl, hprimal, ?_, hdual⟩
      dsimp only [session]
      exact hlength

end LinProg.Session
