/-
# Operations as steps

Whatever a caller does with a session comes down to steps of three kinds: the program or the
verbosity is adjusted, the held program is formulated, or the engine ends on a formulation
that the state says is current. So what each of these steps keeps is kept by every operation
and by whole runs.
-/
import LinProg.Proofs.Session.Operations
import Mathlib.Logic.Relation

namespace LinProg.Session

/-- What a caller does with a session. Besides carrying out its operations, a caller may
take out the held program and leave any other one in its place. -/
inductive Move where
  | call (call : Call)
  | leave (program : Program)
  deriving DecidableEq

/-- The session after a move. -/
def move (engine : Engine) (session : Session) : Move → Session
  | .call call => (session.perform engine call).next
  | .leave program => session.change program

/-- The session after several moves. -/
def follow (engine : Engine) (session : Session) (moves : List Move) : Session :=
  moves.foldl (move engine) session

/-- One step of an operation. -/
inductive Step (engine : Engine) (session : Session) : Session → Prop
  | adjust {next : Session} (adjusted : session.Adjusted next) : Step engine session next
  | formulate (hinit : session.program.initialized = true) :
      Step engine session session.formulate.next
  | finish {formulation : Formulation} (hstate : session.state.isSynchronized = true)
      (hsome : session.formulation = some formulation) :
      Step engine session (session.ended engine formulation)

/-- Finitely many steps. -/
abbrev Reaches (engine : Engine) : Session → Session → Prop :=
  Relation.ReflTransGen (Step engine)

variable {engine : Engine} {session next : Session}

namespace Reaches

/-- What every step keeps is kept. -/
theorem keeps {invariant : Session → Prop} (reaches : Reaches engine session next)
    (hstep : ∀ before after, Step engine before after → invariant before → invariant after)
    (hold : invariant session) : invariant next := by
  induction reaches with
  | refl => exact hold
  | tail _ last ih => exact hstep _ _ last ih

/-! ## Single operations -/

theorem andThen {α β : Type} {reply : Reply Session α} {continuation : α → Session → Reply Session β}
    (first : Reaches engine session reply.next)
    (second : ∀ value, reply.result = .ok value →
      Reaches engine reply.next (continuation value reply.next).next) :
    Reaches engine session (reply.andThen continuation).next := by
  cases hresult : reply.result with
  | ok value =>
      rw [Reply.andThen_of_ok hresult]
      exact first.trans (second value hresult)
  | error fault =>
      rw [Reply.andThen_of_error hresult]
      exact first

theorem decided {reply : Reply Session Unit} (decided : session.Decided reply) :
    Reaches engine session reply.next := by
  cases decided with
  | accepted _ hnext => exact .single (.adjust hnext)
  | refused _ _ hnext => rw [hnext]

theorem synchronize (session : Session) : Reaches engine session session.synchronize.next := by
  rcases synchronize_cases session with ⟨-, hrefused⟩ | ⟨-, hkept⟩ | ⟨hinit, hformulated⟩
  · rw [hrefused]
    exact .refl
  · rw [hkept]
    exact .refl
  · rw [hformulated]
    exact .single (.formulate hinit)

theorem finish (session : Session) (hstate : session.state.isSynchronized = true) :
    Reaches engine session (session.finish engine).next := by
  cases hformulation : session.formulation with
  | none =>
      have hrefused : session.finish engine = .refuse session .notInitialized := by
        simp [Session.finish, hformulation]
      rw [hrefused]
      exact .refl
  | some formulation =>
      rw [(finish_of_some engine session hformulation).2]
      exact .single (.finish hstate hformulation)

theorem solvePrimal (session : Session) :
    Reaches engine session (session.solvePrimal engine).next := by
  rw [Session.solvePrimal]
  split
  · rename_i hstate
    exact finish session hstate
  · exact (synchronize session).andThen fun _ hok => finish _ (synchronize_of_ok session hok)

theorem solve (session : Session) (method : SolveMethod) :
    Reaches engine session ((contract engine).solve session method).next := by
  cases method with
  | primal => exact solvePrimal session
  | dual => exact solvePrimal session
  | standard => exact (synchronize session).andThen fun _ _ => solvePrimal _

theorem applyAll (session : Session) (settings : List (Parameter × ParameterValue)) :
    Reaches engine session ((contract engine).applyAll session settings).next := by
  induction settings generalizing session with
  | nil => exact .refl
  | cons setting rest ih =>
      have hset : Reaches engine session
          ((contract engine).set session setting.1 setting.2).next :=
        decided (set_decided engine session setting.1 setting.2)
      rw [applyAll_next_cons]
      split
      · exact hset.trans (ih _)
      · exact hset

/-! ## Runs -/

theorem move (session : Session) (move : Move) :
    Reaches engine session (session.move engine move) := by
  cases move with
  | leave program => exact .single (.adjust (.program program))
  | call call =>
      cases call with
      | ingest ingestion => exact decided (ingest_decided session ingestion)
      | request request =>
          cases request with
          | edit edit =>
              obtain ⟨program, hnext⟩ := edit_next engine session edit
              show Reaches engine session ((contract engine).edit session edit).next
              rw [hnext]
              exact .single (.adjust (.program program))
          | set parameter value => exact decided (set_decided engine session parameter value)
          | apply settings => exact applyAll session settings.entries
          | synchronize => exact synchronize session
          | solve method => exact solve session method

theorem follow (session : Session) (moves : List Move) :
    Reaches engine session (session.follow engine moves) := by
  induction moves generalizing session with
  | nil => exact .refl
  | cons first rest ih => exact (move session first).trans (ih _)

end Reaches

end LinProg.Session
