/-
# Solving programs with an empty range

A solve of a program that was already seen to have no solution reports so, and what it leaves
behind does not depend on the engine. A constraint whose range holds no number is seen in the
formulation, with one exception: a constraint with terms and an undefined bound. It is treated
as if that bound were not there, and then the engine is asked and may find an optimum.
-/
import LinProg.Proofs.Formulation.EmptyRanges
import LinProg.Proofs.Session.Readable

namespace LinProg

/-- A range that is given up makes the whole formulation unsatisfiable. -/
theorem Formulation.unsatisfiable_of_engineRows?_eq_none {program : Program}
    {formulation : Formulation} (hok : ofProgram? program = .ok formulation)
    {constraint : Constraint} (hmem : constraint ∈ program.constraints)
    (hnone : constraint.engineRows? = none) : formulation.unsatisfiable = true := by
  obtain ⟨columns, -, -, rfl⟩ := ofProgram?_eq_ok_iff.mp hok
  have hgiven : (program.constraints.map Constraint.engineRows?).any Option.isNone = true := by
    rw [List.any_map, List.any_eq_true]
    exact ⟨constraint, hmem, by simp [hnone]⟩
  simp only [hgiven, Bool.or_true]

namespace Session

variable {engine : FragileEngine} {session : Session} {formulation : Formulation}

/-- Only a satisfiable formulation is given to the engine. -/
theorem tryFinish_of_unsatisfiable (hsome : session.formulation = some formulation)
    (hflag : formulation.unsatisfiable = true) (other : FragileEngine) :
    session.tryFinish other = session.finish fun _ => .infeasible := by
  have hsolve : formulation.trySolve other = .ok .infeasible := by
    simp [Formulation.trySolve, hflag]
  simp [tryFinish, hsome, hsolve]

theorem finish_of_unsatisfiable (hsome : session.formulation = some formulation)
    (hflag : formulation.unsatisfiable = true) :
    (session.finish fun _ => .infeasible).result = .ok .infeasible := by
  rw [(finish_of_some _ session hsome).1]
  simp [Formulation.solve, hflag, Outcome.status]

section Unsatisfiable

variable (current : Current engine session) (hinit : session.program.initialized = true)
  (hok : Formulation.ofProgram? session.program = .ok formulation)
  (hflag : formulation.unsatisfiable = true)

include current hinit hok hflag

/-- The primal method gets along without the engine. -/
theorem trySolvePrimal_of_unsatisfiable (other : FragileEngine) :
    session.trySolvePrimal other = session.solvePrimal (fun _ => .infeasible) ∧
      (session.solvePrimal fun _ => .infeasible).result = .ok .infeasible := by
  rw [trySolvePrimal, solvePrimal]
  cases hstate : session.state.isSynchronized with
  | true =>
      -- What a synchronized session holds is the formulation of this very program.
      obtain ⟨held, hsome, hheld⟩ := current.formulation hstate
      obtain rfl : formulation = held := Except.ok.inj (hok.symm.trans hheld)
      exact ⟨tryFinish_of_unsatisfiable hsome hflag other, finish_of_unsatisfiable hsome hflag⟩
  | false =>
      obtain ⟨hresult, hnext⟩ := formulate_of_ok session hok
      have hsome : session.formulate.next.formulation = some formulation := by rw [hnext]
      rw [synchronize_of_not_isSynchronized session hinit hstate]
      simp only [Bool.false_eq_true, if_false, Reply.andThen_of_ok hresult, Reply.result_logging]
      rw [tryFinish_of_unsatisfiable hsome hflag other]
      exact ⟨rfl, finish_of_unsatisfiable hsome hflag⟩

omit current hflag in
theorem synchronize_result_of_ok : session.synchronize.result = .ok () := by
  rcases synchronize_cases session with ⟨hnone, -⟩ | ⟨-, hkept⟩ | ⟨-, hformulated⟩
  · rw [hinit] at hnone
    cases hnone
  · rw [hkept, Reply.result_succeed]
  · rw [hformulated]
    exact (formulate_of_ok session hok).1

/-- Every method does. -/
theorem trySolve_of_unsatisfiable (other : FragileEngine) (method : SolveMethod) :
    (fragileContract other).solve session method =
        (contract fun _ => .infeasible).solve session method ∧
      ((contract fun _ => .infeasible).solve session method).result = .ok .infeasible := by
  have hprimal := trySolvePrimal_of_unsatisfiable current hinit hok hflag other
  cases method with
  | primal => exact hprimal
  | dual => exact ⟨congrArg (Reply.logging _) hprimal.1, hprimal.2⟩
  | standard =>
      show session.synchronize.andThen (fun _ next => next.trySolvePrimal other) =
          session.synchronize.andThen (fun _ next => next.solvePrimal fun _ => .infeasible) ∧
        (session.synchronize.andThen fun _ next =>
          next.solvePrimal fun _ => .infeasible).result = .ok .infeasible
      have hnext : Current engine session.synchronize.next :=
        (Reaches.synchronize session).keeps (fun _ _ step current => current.step step) current
      have hprogram : session.synchronize.next.program = session.program := synchronize_program
      have hprimal := trySolvePrimal_of_unsatisfiable hnext (hprogram ▸ hinit) (hprogram ▸ hok)
        hflag other
      simp only [Reply.andThen_of_ok (synchronize_result_of_ok hinit hok), Reply.result_logging]
      exact ⟨congrArg (Reply.logging _) hprimal.1, hprimal.2⟩

end Unsatisfiable

/-- Wherever a run has come to, a constraint of the held program whose range holds no number is
given up exactly if it has no terms, a bound is the infinity on the wrong side, or no bound is
undefined. With terms it is treated as if its undefined bounds were not there. If it is given up,
every solve ends as infeasible, and its reply is the same with every engine. -/
theorem solve_empty_range (engine : FragileEngine) (program : Program) (moves : List Move)
    {formulation : Formulation} {constraint : Constraint} :
    let session := (start program).attemptMoves engine moves
    session.program.initialized = true →
    Formulation.ofProgram? session.program = .ok formulation →
    constraint ∈ session.program.constraints → constraint.RangeEmpty →
      (constraint.engineRows? = none ↔
        constraint.row.terms = [] ∨ constraint.lower = .posInf ∨ constraint.upper = .negInf ∨
          constraint.lower ≠ .nan ∧ constraint.upper ≠ .nan) ∧
      (constraint.row.terms ≠ [] →
        constraint.dropUndefined.engineRows? = constraint.engineRows?) ∧
      (constraint.engineRows? = none → ∀ other method,
        (session.attempt other (.request (.solve method))).result = .ok (.ended .infeasible) ∧
          session.attempt other (.request (.solve method)) =
            session.attempt engine (.request (.solve method))) := by
  intro session hinit hok hmem hempty
  refine ⟨hempty.engineRows?_eq_none_iff, Constraint.engineRows?_dropUndefined,
    fun hnone other method => ?_⟩
  have current : Current engine session := (Current.start program).attemptMoves moves
  have hflag := Formulation.unsatisfiable_of_engineRows?_eq_none hok hmem hnone
  have hother := trySolve_of_unsatisfiable current hinit hok hflag other method
  have hengine := trySolve_of_unsatisfiable current hinit hok hflag engine method
  apply And.intro
  · show (((fragileContract other).solve session method).map Response.ended).result = _
    rw [hother.1, Reply.result_map, hother.2]
    rfl
  · exact congrArg (Reply.map Response.ended) (hother.1.trans hengine.1.symm)

/-- After a solve that ended with an optimum, the range of the constraint is reversed. -/
theorem solve_empty_range_reversed :
    let one := Binary64.ofInt 1
    let two := Binary64.ofInt 2
    let engine : FragileEngine := fun _ => .ok (.optimal [one] one)
    let program :=
      Program.ofObjective .minimize [⟨⟨[(0, one)]⟩, one, .posInf⟩] ⟨[⟨one, .real⟩]⟩
    let moves : List Move :=
      [.call (.request (.solve .standard)), .call (.request (.edit (.setRange 0 two one)))]
    let session := (start program).attemptMoves engine moves
    let constraint : Constraint := ⟨⟨[(0, one)]⟩, two, one⟩
    ∃ formulation, session.program.initialized = true ∧
      Formulation.ofProgram? session.program = .ok formulation ∧
      constraint ∈ session.program.constraints ∧ constraint.RangeEmpty ∧
      constraint.engineRows? = none ∧ ∀ other method,
        (session.attempt other (.request (.solve method))).result = .ok (.ended .infeasible) := by
  intro one two engine program moves session constraint
  have hinit : session.program.initialized = true := by decide +kernel
  have hheld : session.program.constraints = [constraint] := by decide +kernel
  have hmem : constraint ∈ session.program.constraints := hheld ▸ List.mem_singleton_self _
  have hempty : constraint.RangeEmpty := Constraint.rangeEmpty_iff.mpr (.inl (by decide +kernel))
  have hnumbers : constraint.lower ≠ .nan ∧ constraint.upper ≠ .nan := by decide +kernel
  have hformulated : (Formulation.ofProgram? session.program).toOption.isSome = true := by
    decide +kernel
  obtain ⟨formulation, hsome⟩ := Option.isSome_iff_exists.mp hformulated
  have hok := toOption_eq_some_iff.mp hsome
  dsimp only [session] at hinit hok hmem ⊢
  obtain ⟨hnone, -, hsolve⟩ := solve_empty_range engine program moves hinit hok hmem hempty
  have hgiven := hnone.mpr (.inr (.inr (.inr hnumbers)))
  exact ⟨formulation, hinit, hok, hmem, hempty, hgiven,
    fun other method => (hsolve hgiven other method).1⟩

/-- With an undefined lower bound the engine is asked, and what it finds is reported. -/
theorem solve_undefined_bound :
    let one := Binary64.ofInt 1
    let five := Binary64.ofInt 5
    let engine : FragileEngine := fun _ => .ok (.optimal [five] five)
    let constraint : Constraint := ⟨⟨[(0, one)]⟩, .nan, five⟩
    let program := Program.ofObjective .maximize [constraint] ⟨[⟨one, .real⟩]⟩
    program.initialized = true ∧ (∃ formulation, Formulation.ofProgram? program = .ok formulation) ∧
      constraint.RangeEmpty ∧ constraint.engineRows? ≠ none ∧
      ((start program).attempt engine (.request (.solve .standard))).result =
        .ok (.ended .optimal) := by
  intro one five engine constraint program
  have hempty : constraint.RangeEmpty := Constraint.rangeEmpty_iff.mpr (.inl (by decide +kernel))
  have hformulated : (Formulation.ofProgram? program).toOption.isSome = true := by
    decide +kernel
  obtain ⟨formulation, hsome⟩ := Option.isSome_iff_exists.mp hformulated
  exact ⟨rfl, ⟨formulation, toOption_eq_some_iff.mp hsome⟩, hempty, by decide +kernel,
    by decide +kernel⟩

end Session

end LinProg
