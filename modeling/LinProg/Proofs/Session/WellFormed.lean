/-
# Sessions hold well-formed programs

Only edits and ingestion change the held program in earnest; settings at most turn its
direction around, and the other operations leave it alone. So the program stays
well-formed through any run whose edits bring values that their constructors accepted,
whatever else is refused on the way, and no assertion of an operation fails.
-/
import LinProg.Proofs.Program.Assertions
import LinProg.Proofs.Session.Operations

namespace LinProg.Session

/-- Operations whose edits bring accepted values. -/
def Call.Accepted : Call → Prop
  | .request (.edit edit) => edit.Accepted
  | _ => True

/-- The conditions that an operation relies on without checking them. -/
def Call.AssertionsHold (program : Program) : Call → Prop
  | .request (.edit edit) => edit.AssertionsHold program
  | .ingest ingestion => ingestion.AssertionsHold program
  | _ => True

variable {engine : Engine} {session : Session}

/-! ## The held program after an operation -/

theorem edit_program (edit : Edit) :
    ((contract engine).edit session edit).next.program =
      match session.program.edit edit with
      | .ok changed => changed
      | .error _ => session.program := by
  have hopened : (contract engine).program ((contract engine).expectChange session) =
      session.program := rfl
  simp only [Contract.edit, hopened]
  cases session.program.edit edit <;> rfl

theorem ingest_program (ingestion : Ingestion) :
    (session.ingest ingestion).next.program =
      match session.program.ingest ingestion with
      | .ok changed => changed
      | .error _ => session.program := by
  simp only [ingest]
  cases session.program.ingest ingestion <;> rfl

/-- A setting keeps all of the program but its direction. -/
theorem set_program (parameter : Parameter) (value : ParameterValue) :
    ∃ sense, ((contract engine).set session parameter value).next.program =
      { session.program with sense } := by
  cases value with
  | real value =>
      refine ⟨session.program.sense, ?_⟩
      show (session.setReal parameter value).next.program = session.program
      simp only [setReal]
      split <;> rfl
  | integer value =>
      show ∃ sense, (session.setInteger parameter value).next.program = _
      simp only [setInteger]
      split
      · exact ⟨session.program.sense, rfl⟩
      · split
        · split
          · exact ⟨session.program.sense, rfl⟩
          · rename_i sense _
            exact ⟨sense, rfl⟩
        · exact ⟨session.program.sense, rfl⟩
        · exact ⟨session.program.sense, rfl⟩

theorem synchronize_program : session.synchronize.next.program = session.program := by
  simp only [synchronize]
  split
  · rfl
  · split
    · rfl
    · simp only [formulate]
      split <;> rfl

theorem finish_program : (session.finish engine).next.program = session.program := by
  simp only [finish]
  split <;> rfl

theorem solvePrimal_program : (session.solvePrimal engine).next.program = session.program := by
  simp only [solvePrimal]
  split
  · exact finish_program
  · rw [Reply.part_next_andThen program fun _ => finish_program]
    exact synchronize_program

theorem solve_program (method : SolveMethod) :
    ((contract engine).solve session method).next.program = session.program := by
  cases method with
  | primal => exact solvePrimal_program
  | dual => exact solvePrimal_program
  | standard =>
      show (session.synchronize.andThen fun _ next => next.solvePrimal engine).next.program = _
      rw [Reply.part_next_andThen program fun _ => solvePrimal_program]
      exact synchronize_program

theorem applyAll_program (settings : List (Parameter × ParameterValue)) :
    ∃ sense, ((contract engine).applyAll session settings).next.program =
      { session.program with sense } := by
  induction settings generalizing session with
  | nil => exact ⟨session.program.sense, rfl⟩
  | cons setting rest ih =>
      obtain ⟨sense, hset⟩ := @set_program engine session setting.1 setting.2
      rw [applyAll_next_cons]
      split
      · obtain ⟨sense', hrest⟩ := @ih ((contract engine).set session setting.1 setting.2).next
        exact ⟨sense', by rw [hrest, hset]⟩
      · exact ⟨sense, hset⟩

/-- What a changed direction, edits and batches keep of a program is kept by an operation of
the session that holds it, also when that is refused. -/
theorem perform_program_keeps {invariant : Program → Prop} {call : Call}
    (hsense : ∀ (program : Program) (sense : Sense),
      invariant program → invariant { program with sense })
    (hedit : ∀ edit, call = .request (.edit edit) → ∀ program changed,
      program.edit edit = .ok changed → invariant program → invariant changed)
    (hingest : ∀ ingestion, call = .ingest ingestion → ∀ program changed,
      program.ingest ingestion = .ok changed → invariant program → invariant changed)
    (hold : invariant session.program) :
    invariant (session.perform engine call).next.program := by
  cases call with
  | ingest ingestion =>
      show invariant (session.ingest ingestion).next.program
      rw [ingest_program]
      cases hok : session.program.ingest ingestion with
      | ok changed => exact hingest ingestion rfl _ _ hok hold
      | error error => exact hold
  | request request =>
      cases request with
      | edit edit =>
          show invariant ((contract engine).edit session edit).next.program
          rw [edit_program]
          cases hok : session.program.edit edit with
          | ok changed => exact hedit edit rfl _ _ hok hold
          | error error => exact hold
      | set parameter value =>
          obtain ⟨sense, hprogram⟩ := @set_program engine session parameter value
          exact hprogram ▸ hsense _ sense hold
      | apply settings =>
          obtain ⟨sense, hprogram⟩ := @applyAll_program engine session settings.entries
          exact hprogram ▸ hsense _ sense hold
      | synchronize => exact synchronize_program.symm ▸ hold
      | solve method => exact (solve_program method).symm ▸ hold

/-! ## Keeping the held program well-formed -/

/-- One accepted operation keeps the held program well-formed, also when it is refused. -/
theorem perform_wellFormed (wellFormed : session.program.WellFormed) {call : Call}
    (accepted : call.Accepted) : (session.perform engine call).next.program.WellFormed := by
  apply perform_program_keeps _ _ _ wellFormed
  · exact fun program sense wellFormed => wellFormed.withSense sense
  · rintro edit rfl program changed hok wellFormed
    exact wellFormed.edit accepted hok
  · rintro ingestion rfl program changed hok wellFormed
    exact wellFormed.ingest hok

theorem run_wellFormed {calls : List Call} (accepted : ∀ call ∈ calls, call.Accepted)
    (wellFormed : session.program.WellFormed) :
    (session.run engine calls).program.WellFormed := by
  induction calls generalizing session with
  | nil => exact wellFormed
  | cons call rest ih =>
      apply ih
      · intro other hmem
        exact accepted other (List.mem_cons_of_mem _ hmem)
      · exact perform_wellFormed wellFormed (accepted call List.mem_cons_self)

theorem assertionsHold_of_wellFormed {program : Program} (wellFormed : program.WellFormed)
    (call : Call) : call.AssertionsHold program := by
  cases call with
  | ingest ingestion => exact wellFormed.ingestion_assertionsHold ingestion
  | request request =>
      cases request with
      | edit edit => exact wellFormed.edit_assertionsHold edit
      | _ => trivial

/-- Wherever a run has come to, the parts of the held program agree with each other, and
no operation that follows, and no compression of a dense row, can fail an assertion. -/
theorem parts_agree_of_run (engine : Engine) {program : Program} (built : program.Built)
    {calls : List Call} (accepted : ∀ call ∈ calls, call.Accepted) :
    let held := (run engine (start program) calls).program
    ((held.objective.terms.map ObjectiveTerm.coefficient).length = held.vars.length ∧
        (held.objective.terms.map ObjectiveTerm.type).length = held.vars.length) ∧
      (∀ constraint ∈ held.constraints,
        constraint.row.values.length = constraint.row.indices.length ∧
          constraint.row.indices.Nodup) ∧
      (∀ bounds ∈ held.vars,
        bounds.lower ≤ bounds.upper ∧ bounds.lower ≠ .nan ∧ bounds.upper ≠ .nan) ∧
      (∀ call : Call, call.AssertionsHold held) ∧
      ∀ {α : Type} [BEq α] [OfNat α 0] (values : List α),
        (SparseMatrix.compress values).Accepted := by
  intro held
  have wellFormed : held.WellFormed := run_wellFormed accepted built.wellFormed
  have hsize : held.objective.terms.length = held.vars.length := wellFormed.objective_size
  refine ⟨⟨?_, ?_⟩, ?_, ?_, assertionsHold_of_wellFormed wellFormed, ?_⟩
  · rw [List.length_map, hsize]
  · rw [List.length_map, hsize]
  · intro constraint hmem
    refine ⟨?_, wellFormed.distinct constraint hmem⟩
    simp [Entry.values, Entry.indices]
  · intro bounds hmem
    have ordered := wellFormed.ordered bounds hmem
    exact ⟨ordered, ordered.ne_nan⟩
  · intro α _ _ values
    exact SparseMatrix.compress_accepted values

/-- A column is stored in a row that also names a variable to come. When a variable has
been taken out, the next column would get the index of that name, and is refused. -/
theorem parts_agree_of_run_columns :
    let one := Binary64.ofInt 1
    let program := Program.ofObjective .minimize [⟨⟨[(0, one), (3, one)]⟩, 0, .posInf⟩]
      ⟨[⟨one, .real⟩, ⟨one, .integer⟩]⟩
    let column : Call := .ingest (.columns ⟨[one], [0, 1], [0], [0], [.posInf]⟩)
    let calls : List Call := [column, .request (.edit (.removeVariable 0)), column]
    let held := (run (fun _ => .infeasible) (start program) calls).program
    program.Built ∧ (∀ call ∈ calls, call.Accepted) ∧
      held.constraints.map (fun constraint => constraint.row.indices) = [[1, 2]] ∧
      (∀ constraint ∈ held.constraints, constraint.row.indices.Nodup) ∧
      (∀ bounds ∈ held.vars, bounds.lower ≤ bounds.upper) ∧
      ∀ call : Call, call.AssertionsHold held := by
  intro one program column calls held
  have built : program.Built := by
    refine .ofObjective .minimize ?_ _
    intro constraint hmem
    obtain rfl := List.mem_singleton.mp hmem
    exact ⟨[one, one], [0, 3], rfl⟩
  have accepted : ∀ call ∈ calls, call.Accepted := by
    simp [calls, column, Call.Accepted, Edit.Accepted]
  obtain ⟨-, hrows, hbounds, hassertions, -⟩ :=
    parts_agree_of_run (fun _ => .infeasible) built accepted
  refine ⟨built, accepted, ?_, ?_, ?_, hassertions⟩
  · decide +kernel
  · intro constraint hmem
    exact (hrows constraint hmem).2
  · intro bounds hmem
    exact (hbounds bounds hmem).1

end LinProg.Session
