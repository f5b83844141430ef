/-
# Solving programs of binary variables

If all variables are binary, only bounds can be in the way of a synchronization, and only those
that put all numbers of a variable beyond the 32-bit integers. A solve then fails for the same
reason. With all other bounds that leave out both zero and one, a solve ends as infeasible,
whatever the engine is, so that which of the two happens depends on how far away the bounds are.
-/
import LinProg.Proofs.Formulation.BinaryBounds
import LinProg.Proofs.Session.EmptyRanges

namespace LinProg.Session

variable {engine : FragileEngine} {session : Session}

section Refused

variable {error : SolverError} (current : Current engine session)
  (hinit : session.program.initialized = true)
  (herror : Formulation.ofProgram? session.program = .error error)

include current herror

/-- A session is not synchronized with a program that cannot be formulated. -/
theorem isSynchronized_of_ofProgram?_eq_error : session.state.isSynchronized = false := by
  apply Bool.eq_false_iff.mpr
  intro hstate
  obtain ⟨formulation, -, hok⟩ := current.formulation hstate
  rw [herror] at hok
  cases hok

include hinit

theorem synchronize_result_of_error : session.synchronize.result = .error (.solver error) := by
  rw [synchronize_of_not_isSynchronized session hinit
    (isSynchronized_of_ofProgram?_eq_error current herror)]
  exact (formulate_of_error session herror).1

/-- A solve by any method fails for the reason that a synchronization fails for. -/
theorem solve_result_of_error (other : FragileEngine) (method : SolveMethod) :
    (session.attempt other (.request (.solve method))).result = .error (.solver error) := by
  have hsynchronize := synchronize_result_of_error current hinit herror
  have hprimal : (session.trySolvePrimal other).result = .error (.solver error) := by
    rw [trySolvePrimal, isSynchronized_of_ofProgram?_eq_error current herror]
    simp only [Bool.false_eq_true, if_false, Reply.andThen_of_error hsynchronize]
  have hsolve : ((fragileContract other).solve session method).result = .error (.solver error) := by
    cases method with
    | primal => exact hprimal
    | dual => exact hprimal
    | standard =>
        show (session.synchronize.andThen fun _ next => next.trySolvePrimal other).result = _
        rw [Reply.andThen_of_error hsynchronize]
  show (((fragileContract other).solve session method).map Response.ended).result = _
  rw [Reply.result_map, hsolve]
  rfl

end Refused

/-- Wherever a run has come to, a program of binary variables is synchronized unless the numbers
of some variable all lie beyond the 32-bit integers, and otherwise the bound of the first such
variable is reported, by every solve as well. Such a variable can be neither zero nor one. Any
other variable that can be neither makes every solve of the synchronized program end as
infeasible, with every engine. -/
theorem solve_all_binary (engine : FragileEngine) (program : Program) (moves : List Move) :
    let session := (start program).attemptMoves engine moves
    session.program.initialized = true → session.program.AllBinary →
      (session.synchronize.result = .ok () ↔
        ∀ bounds ∈ session.program.vars, ∀ nearest, ¬ bounds.Remote nearest) ∧
      (∀ position nearest, session.program.FirstRemote position nearest →
        session.synchronize.result = .error (.solver (.unrepresentableBound position nearest)) ∧
          ∀ other method, (session.attempt other (.request (.solve method))).result =
            .error (.solver (.unrepresentableBound position nearest))) ∧
      ∀ bounds ∈ session.program.vars,
        (∀ nearest, bounds.Remote nearest → ¬ bounds.Contains 0 ∧ ¬ bounds.Contains 1) ∧
        (session.synchronize.result = .ok () → ¬ bounds.Contains 0 → ¬ bounds.Contains 1 →
          ∀ other method, (session.attempt other (.request (.solve method))).result =
            .ok (.ended .infeasible)) := by
  intro session hinit binary
  have current : Current engine session := (Current.start program).attemptMoves moves
  -- A session that was synchronized before is no exception: what it holds is current.
  have hsynchronize : session.synchronize.result = .ok () ↔
      ∃ formulation, Formulation.ofProgram? session.program = .ok formulation := by
    apply Iff.intro
    · intro hresult
      rw [exists_eq_ok_iff_forall_ne_error]
      intro error herror
      rw [synchronize_result_of_error current hinit herror] at hresult
      cases hresult
    · intro hexists
      obtain ⟨formulation, hok⟩ := hexists
      exact synchronize_result_of_ok hinit hok
  refine ⟨hsynchronize.trans binary.exists_ofProgram?_iff, ?_, ?_⟩
  · intro position nearest firstRemote
    have herror := binary.ofProgram?_of_firstRemote firstRemote
    exact ⟨synchronize_result_of_error current hinit herror,
      solve_result_of_error current hinit herror⟩
  · intro bounds hmem
    apply And.intro
    · intro nearest remote
      exact remote.not_contains_bit
    · intro hresult hzero hone other method
      obtain ⟨formulation, hok⟩ := hsynchronize.mp hresult
      have hflag := binary.unsatisfiable_of_not_contains hok hmem ⟨hzero, hone⟩
      obtain ⟨hreply, hended⟩ := trySolve_of_unsatisfiable current hinit hok hflag other method
      show (((fragileContract other).solve session method).map Response.ended).result = _
      rw [hreply, Reply.result_map, hended]
      rfl

/-- A variable between two and three, set after the program was solved, and then a later one that
begins at five billion. -/
theorem solve_all_binary_two_and_far :
    let one := Binary64.ofInt 1
    let small : Variable := ⟨.ofInt 2, .ofInt 3⟩
    let large : Variable := ⟨.ofInt 5000000000, .posInf⟩
    let engine : FragileEngine := fun _ => .ok (.optimal [one, one] one)
    let program := Program.ofObjective .minimize [⟨⟨[(1, one)]⟩, one, .posInf⟩]
      ⟨[⟨one, .binary⟩, ⟨one, .binary⟩]⟩
    let moves : List Move :=
      [.call (.request (.solve .standard)), .call (.request (.edit (.setVariable 0 small)))]
    let later := moves ++ [.call (.request (.edit (.setVariable 1 large)))]
    let session := (start program).attemptMoves engine moves
    let refused := (start program).attemptMoves engine later
    session.program.initialized = true ∧ session.program.AllBinary ∧
      small ∈ session.program.vars ∧ ¬ small.Contains 0 ∧ ¬ small.Contains 1 ∧
      session.synchronize.result = .ok () ∧
      (∀ other method, (session.attempt other (.request (.solve method))).result =
        .ok (.ended .infeasible)) ∧
      refused.program.initialized = true ∧ refused.program.AllBinary ∧
      large ∈ refused.program.vars ∧ large.Remote large.lower ∧
      refused.program.FirstRemote 1 large.lower ∧
      ∀ other method, (refused.attempt other (.request (.solve method))).result =
        .error (.solver (.unrepresentableBound 1 large.lower)) := by
  intro one small large engine program moves later session refused
  have hinit : session.program.initialized = true := by decide +kernel
  have binary : session.program.AllBinary := by decide +kernel
  have hheld : session.program.vars = [small, .nonnegative] := by decide +kernel
  have hsmall : small ∈ session.program.vars := hheld ▸ List.mem_cons_self
  have hneither : ¬ small.Contains 0 ∧ ¬ small.Contains 1 := by decide +kernel
  have hsynchronized : session.synchronize.result = .ok () := by decide +kernel
  have hinitLater : refused.program.initialized = true := by decide +kernel
  have binaryLater : refused.program.AllBinary := by decide +kernel
  have hvars : refused.program.vars = [small, large] := by decide +kernel
  have remote : large.Remote large.lower := by decide +kernel
  have firstRemote : refused.program.FirstRemote 1 large.lower := by
    refine ⟨⟨large, by rw [hvars]; rfl, remote⟩, ?_⟩
    intro earlier hearlier bounds hbounds nearest remoteFirst
    obtain rfl : earlier = 0 := Nat.lt_one_iff.mp hearlier
    obtain rfl : small = bounds := by
      rw [hvars] at hbounds
      exact Option.some.inj hbounds
    have htwo : small.Contains 2 := by decide +kernel
    exact remoteFirst.not_contains (by decide) (by decide) htwo
  dsimp only [session, refused] at *
  have hsolved := (solve_all_binary engine program moves hinit binary).2.2 small hsmall
  have hfailed := (solve_all_binary engine program later hinitLater binaryLater).2.1 1
    large.lower firstRemote
  exact ⟨hinit, binary, hsmall, hneither.1, hneither.2, hsynchronized,
    hsolved.2 hsynchronized hneither.1 hneither.2, hinitLater, binaryLater,
    hvars ▸ List.mem_cons_of_mem _ List.mem_cons_self, remote, firstRemote, hfailed.2⟩

/-- Five billion and six billion hold neither zero nor one between them, but a program with a
binary variable of these bounds is not seen to be infeasible: it is refused. -/
theorem solve_far_binary :
    let bounds : Variable := ⟨.ofInt 5000000000, .ofInt 6000000000⟩
    let program : Program := {
      Program.ofObjective .minimize [] ⟨[⟨.ofInt 1, .binary⟩]⟩ with vars := [bounds] }
    let error : SolverError := .unrepresentableBound 0 bounds.lower
    program.initialized = true ∧ program.AllBinary ∧ program.vars = [bounds] ∧
      ¬ bounds.Contains 0 ∧ ¬ bounds.Contains 1 ∧
      (start program).synchronize.result = .error (.solver error) ∧
      ∀ engine method, ((start program).attempt engine (.request (.solve method))).result =
        .error (.solver error) := by
  intro bounds program error
  have binary : program.AllBinary := by decide +kernel
  have remote : bounds.Remote bounds.lower := by decide +kernel
  have herror : Formulation.ofProgram? program = .error error := by decide +kernel
  have current (engine : FragileEngine) : Current engine (start program) := .start program
  exact ⟨rfl, binary, rfl, remote.not_contains_bit.1, remote.not_contains_bit.2,
    synchronize_result_of_error (current fun _ => .ok .infeasible) rfl herror,
    fun engine => solve_result_of_error (current engine) rfl herror engine⟩

end LinProg.Session
