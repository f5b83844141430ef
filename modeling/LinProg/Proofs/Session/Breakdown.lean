/-
# Breakdowns are the only difference

An engine that may break down is compared with the engine that reports that there is no
solution instead. As long as it does not break down, nothing tells the two apart. When it
does, the session is one that an operation with the other engine comes through, and from
there on it is broken down. So what the steps of operations keep, and breaking down keeps
too, is kept by whole runs.
-/
import LinProg.Solver.Breakdown
import LinProg.Proofs.Session.Steps
import LinProg.Proofs.Session.WellFormed

namespace LinProg

/-- The engine that finds no solution where this one breaks down. -/
def FragileEngine.total (engine : FragileEngine) : Engine := fun problem =>
  match engine problem with
  | .ok outcome => outcome
  | .error _ => .infeasible

theorem Formulation.solve_total {formulation : Formulation} {engine : FragileEngine}
    {outcome : Outcome} (hok : formulation.trySolve engine = .ok outcome) :
    formulation.solve engine.total = outcome ∧ formulation.solve (fun _ => outcome) = outcome := by
  cases hflag : formulation.unsatisfiable with
  | true =>
      have houtcome : .infeasible = outcome := by simpa [trySolve, hflag] using hok
      simp [solve, hflag, houtcome]
  | false =>
      have hengine : engine formulation.problem = .ok outcome := by
        simpa [trySolve, hflag] using hok
      simp [solve, hflag, FragileEngine.total, hengine]

theorem Formulation.exists_of_trySolve_eq_error {formulation : Formulation}
    {engine : FragileEngine} {message : String}
    (herror : formulation.trySolve engine = .error message) :
    ∃ problem, engine problem = .error message := by
  rw [trySolve] at herror
  split at herror
  · cases herror
  · exact ⟨formulation.problem, herror⟩

/-- Settings are applied in the same way where each of them is set in the same way. -/
theorem Contract.applyAll_congr {σ : Type} {first second : Contract σ}
    (hset : first.set = second.set) (solver : σ) (settings : List (Parameter × ParameterValue)) :
    first.applyAll solver settings = second.applyAll solver settings := by
  induction settings generalizing solver with
  | nil => rfl
  | cons setting rest ih => simp only [applyAll, hset, ih]

namespace Session

/-- A reply is the steady one, or the engine broke down in a session on the way to it. -/
inductive Endured (engine : FragileEngine) (session : Session) {α : Type}
    (steady reply : Reply Session α) : Prop where
  | same (heq : reply = steady)
  | broken {middle : Session} {message : String} (reaches : Reaches engine.total session middle)
      (hprogram : middle.program = session.program)
      (hengine : ∃ problem, engine problem = .error message)
      (hresult : reply.result = .error (.solver (breakdown message)))
      (hnext : reply.next = middle.brokenDown)

variable {engine : FragileEngine} {session : Session}

namespace Endured

variable {α β : Type} {steady reply : Reply Session α}

theorem map (endured : Endured engine session steady reply) (change : α → β) :
    Endured engine session (steady.map change) (reply.map change) := by
  cases endured with
  | same heq => exact .same (congrArg _ heq)
  | broken reaches hprogram hengine hresult hnext =>
      exact .broken reaches hprogram hengine (map_eq_error_iff.mpr hresult) hnext

theorem logging (endured : Endured engine session steady reply) (lines : List LogLine) :
    Endured engine session (steady.logging lines) (reply.logging lines) := by
  cases endured with
  | same heq => exact .same (congrArg _ heq)
  | broken reaches hprogram hengine hresult hnext =>
      exact .broken reaches hprogram hengine hresult hnext

/-- A synchronization that comes first does not ask the engine. -/
theorem synchronized {steady reply : Session → Reply Session α}
    (endured : Endured engine session.synchronize.next (steady session.synchronize.next)
      (reply session.synchronize.next)) :
    Endured engine session (session.synchronize.andThen fun _ next => steady next)
      (session.synchronize.andThen fun _ next => reply next) := by
  cases hresult : session.synchronize.result with
  | error fault =>
      apply Endured.same
      rw [Reply.andThen_of_error hresult, Reply.andThen_of_error hresult]
  | ok value =>
      rw [Reply.andThen_of_ok hresult, Reply.andThen_of_ok hresult]
      cases endured with
      | same heq => exact .same (congrArg _ heq)
      | broken reaches hprogram hengine hresult hnext =>
          exact .broken ((Reaches.synchronize session).trans reaches)
            (hprogram.trans synchronize_program) hengine hresult hnext

end Endured

theorem tryFinish_endured :
    Endured engine session (session.finish engine.total) (session.tryFinish engine) := by
  cases hformulation : session.formulation with
  | none =>
      apply Endured.same
      simp [tryFinish, finish, hformulation]
  | some formulation =>
      cases hsolve : formulation.trySolve engine with
      | ok outcome =>
          obtain ⟨htotal, hconstant⟩ := Formulation.solve_total hsolve
          apply Endured.same
          simp [tryFinish, finish, hformulation, hsolve, htotal, hconstant]
      | error message =>
          have hbroken : session.tryFinish engine =
              (Reply.refuse session.brokenDown (breakdown message)).logging
                [⟨.warning, (breakdown message).message⟩] := by
            simp [tryFinish, hformulation, hsolve]
          rw [hbroken]
          exact .broken .refl rfl (Formulation.exists_of_trySolve_eq_error hsolve) rfl rfl

theorem trySolvePrimal_endured :
    Endured engine session (session.solvePrimal engine.total) (session.trySolvePrimal engine) := by
  rw [solvePrimal, trySolvePrimal]
  split
  · exact tryFinish_endured
  · exact .synchronized tryFinish_endured

theorem trySolve_endured (method : SolveMethod) :
    Endured engine session ((contract engine.total).solve session method)
      ((fragileContract engine).solve session method) := by
  cases method with
  | primal => exact trySolvePrimal_endured
  | dual => exact trySolvePrimal_endured.logging _
  | standard => exact .synchronized trySolvePrimal_endured

/-- Batches are taken in without the engine. -/
theorem attempt_ingest (engine : FragileEngine) (session : Session) (ingestion : Ingestion) :
    session.attempt engine (.ingest ingestion) =
      session.perform engine.total (.ingest ingestion) :=
  rfl

/-- Every operation is endured, and only solves can be broken down in. -/
theorem attempt_endured (engine : FragileEngine) (session : Session) (call : Call) :
    Endured engine session (session.perform engine.total call) (session.attempt engine call) := by
  cases call with
  | ingest ingestion => exact .same rfl
  | request request =>
      cases request with
      | edit edit => exact .same rfl
      | set parameter value => exact .same rfl
      | synchronize => exact .same rfl
      | apply settings =>
          have hset : (fragileContract engine).set = (contract engine.total).set := rfl
          have happly := Contract.applyAll_congr hset session settings.entries
          exact .same (congrArg (Reply.map Response.unsupported) happly)
      | solve method => exact (trySolve_endured method).map Response.ended

/-- An engine that never breaks down is as good as any other. -/
theorem attempt_of_steady (engine : Engine) (session : Session) (call : Call) :
    session.attempt (fun problem => .ok (engine problem)) call = session.perform engine call := by
  cases attempt_endured (fun problem => .ok (engine problem)) session call with
  | same heq => exact heq
  | broken _ _ hengine _ _ =>
      obtain ⟨problem, hproblem⟩ := hengine
      cases hproblem

/-- A breakdown does not change the program, so what all operations keep of it is kept. -/
theorem attempt_program_keeps {invariant : Program → Prop} {call : Call}
    (hsense : ∀ (program : Program) (sense : Sense),
      invariant program → invariant { program with sense })
    (hedit : ∀ edit, call = .request (.edit edit) → ∀ program changed,
      program.edit edit = .ok changed → invariant program → invariant changed)
    (hingest : ∀ ingestion, call = .ingest ingestion → ∀ program changed,
      program.ingest ingestion = .ok changed → invariant program → invariant changed)
    (hold : invariant session.program) :
    invariant (session.attempt engine call).next.program := by
  cases attempt_endured engine session call with
  | same heq =>
      rw [heq]
      exact perform_program_keeps hsense hedit hingest hold
  | broken _ hprogram _ _ hnext =>
      rw [hnext]
      exact hprogram.symm ▸ hold

/-! ## Runs -/

/-- The session after a move. -/
def attemptMove (engine : FragileEngine) (session : Session) : Move → Session
  | .call call => (session.attempt engine call).next
  | .leave program => session.change program

/-- The session after several moves. -/
def attemptMoves (engine : FragileEngine) (session : Session) (moves : List Move) : Session :=
  moves.foldl (attemptMove engine) session

/-- What steps with the steady engine and breakdowns keep is kept by a move. -/
theorem attemptMove_keeps {invariant : Session → Prop}
    (hstep : ∀ before after, Step engine.total before after → invariant before → invariant after)
    (hbroken : ∀ before, invariant before → invariant before.brokenDown) (move : Move)
    (hold : invariant session) : invariant (session.attemptMove engine move) := by
  cases move with
  | leave program => exact (Reaches.move session (.leave program)).keeps hstep hold
  | call call =>
      show invariant (session.attempt engine call).next
      cases attempt_endured engine session call with
      | same heq =>
          rw [heq]
          exact (Reaches.move session (.call call)).keeps hstep hold
      | broken reaches _ _ _ hnext =>
          rw [hnext]
          exact hbroken _ (reaches.keeps hstep hold)

/-- What steps with the steady engine and breakdowns keep is kept by whole runs. -/
theorem attemptMoves_keeps {invariant : Session → Prop}
    (hstep : ∀ before after, Step engine.total before after → invariant before → invariant after)
    (hbroken : ∀ before, invariant before → invariant before.brokenDown) (moves : List Move)
    (hold : invariant session) : invariant (session.attemptMoves engine moves) := by
  induction moves generalizing session with
  | nil => exact hold
  | cons first rest ih => exact ih (attemptMove_keeps hstep hbroken first hold)

end Session

end LinProg
