/-
# What the lifecycle state says is so

None of the steps that operations are made of leads to the unconfigured state, so a session
that left it does not come back. And only one leads to the failed state, the formulation of
a program that the engine cannot represent. Nothing but an adjustment gets out of it, so
until then the same failure is reported again.
-/
import LinProg.Proofs.Checks
import LinProg.Proofs.Session.Coherence

namespace LinProg.Session

variable {engine : Engine} {session next : Session}

/-! ## The unconfigured state -/

theorem Step.state_ne_unconfigured (step : Step engine session next) :
    next.state ≠ .unconfigured := by
  cases step with
  | adjust adjusted =>
      cases adjusted with
      | program program => simp [change, expectChange, SolverState.afterProgramChange]
      | verbosity value =>
          cases hstate : session.state <;>
            simp [Session.withVerbosity, hstate, SolverState.afterConfiguration]
  | formulate hinit =>
      cases hformulated : Formulation.ofProgram? session.program with
      | ok formulation => simp [(formulate_of_ok session hformulated).2]
      | error error => simp [(formulate_of_error session hformulated).2]
  | finish hsome => simp [ended]

/-- A session in the unconfigured state is as it was at any time before. -/
theorem eq_of_reaches_unconfigured (reaches : Reaches engine session next)
    (hstate : next.state = .unconfigured) : next = session := by
  cases reaches with
  | refl => rfl
  | tail _ last => exact absurd hstate last.state_ne_unconfigured

/-! ## The failed state -/

/-- The held program was formulated in vain. -/
structure Failing (session : Session) (error : SolverError) : Prop where
  state : session.state = .failed
  initialized : session.program.initialized = true
  refused : Formulation.ofProgram? session.program = .error error
  formulation : session.formulation = none
  stored : session.stored = none

theorem formulate_failing {error : SolverError} (hinit : session.program.initialized = true)
    (herror : Formulation.ofProgram? session.program = .error error) :
    session.formulate.next.Failing error := by
  rw [(formulate_of_error session herror).2]
  exact ⟨rfl, hinit, herror, rfl, rfl⟩

/-- A failing session reports its error again, and stays what it is. -/
theorem Failing.synchronize {error : SolverError} (failing : session.Failing error) :
    session.synchronize.result = .error (.solver error) ∧ session.synchronize.next = session := by
  have hstate : session.state.isSynchronized = false := by
    rw [failing.state]
    rfl
  obtain ⟨hresult, hnext⟩ := formulate_of_error session failing.refused
  rw [synchronize_of_not_isSynchronized session failing.initialized hstate, hnext]
  refine ⟨hresult, ?_⟩
  rw [← failing.formulation, ← failing.state, ← failing.stored]

theorem Step.failing (step : Step engine session next) (hstate : next.state = .failed) :
    ∃ error, next.Failing error := by
  cases step with
  | adjust adjusted =>
      cases adjusted with
      | program program =>
          simp [change, expectChange, SolverState.afterProgramChange] at hstate
      | verbosity value =>
          cases hbefore : session.state <;>
            simp [Session.withVerbosity, hbefore, SolverState.afterConfiguration] at hstate
  | formulate hinit =>
      cases hformulated : Formulation.ofProgram? session.program with
      | ok formulation => simp [(formulate_of_ok session hformulated).2] at hstate
      | error error => exact ⟨error, formulate_failing hinit hformulated⟩
  | finish hsome => simp [ended] at hstate

/-- A session that was not failed to begin with fails for some reason. -/
theorem failing_of_reaches (reaches : Reaches engine session next)
    (hbefore : session.state ≠ .failed) (hstate : next.state = .failed) :
    ∃ error, next.Failing error := by
  cases reaches with
  | refl => exact absurd hstate hbefore
  | tail _ last => exact last.failing hstate

/-- A solve that is refused for another reason than a missing objective leaves a failing
session. -/
theorem settle_failing {fault : Fault} (herror : (session.settle engine).1 = .error fault)
    (hother : fault ≠ .solver .notInitialized) :
    ∃ error, fault = .solver error ∧ (session.settle engine).2.Failing error := by
  cases hinit : session.program.initialized with
  | false =>
      simp only [settle, hinit, Bool.false_eq_true, if_false] at herror
      cases herror
      exact absurd rfl hother
  | true =>
      cases hformulated : Formulation.ofProgram? session.program with
      | ok formulation => simp [settle, hinit, hformulated] at herror
      | error error =>
          have hfault : fault = .solver error := by
            simpa [settle, hinit, hformulated, eq_comm] using herror
          have hfailing := formulate_failing hinit hformulated
          rw [(formulate_of_error session hformulated).2] at hfailing
          refine ⟨error, hfault, ?_⟩
          simpa [settle, hinit, hformulated] using hfailing

theorem synchronize_failing {fault : Fault} (herror : session.synchronize.result = .error fault)
    (hother : fault ≠ .solver .notInitialized) :
    ∃ error, fault = .solver error ∧ session.synchronize.next.Failing error := by
  cases synchronize_of_error session herror with
  | inl hrefused => exact absurd hrefused.1 hother
  | inr hfailed =>
      obtain ⟨error, hinit, hfault, hprogram, hnext⟩ := hfailed
      rw [hnext]
      exact ⟨error, hfault, rfl, hinit, hprogram, rfl, rfl⟩

/-! ## All states -/

/-- Whatever happened to a session, its state tells the truth. While it is unconfigured there
is no objective, and once it is not, it never is again. When it is synchronized or solved,
the formulation is that of the held program, and when it failed there is none and cannot be
one. The error of a failed attempt is reported again by the next synchronization. Exactly
the solved sessions with an optimal status store a solution. -/
theorem state_truthful_of_follow (engine : Engine) (program : Program) (moves : List Move) :
    let session := (start program).follow engine moves
    (session.state = .unconfigured → session.program.initialized = false) ∧
      (session.state ≠ .unconfigured →
        ∀ later, (session.follow engine later).state ≠ .unconfigured) ∧
      (session.state = .synchronized ∨ session.state = .solved →
        session.program.initialized = true ∧
          ∃ formulation, session.formulation = some formulation ∧
            Formulation.ofProgram? session.program = .ok formulation) ∧
      (session.state = .failed →
        session.formulation = none ∧
          ∃ error, Formulation.ofProgram? session.program = .error error ∧
            session.synchronize.result = .error (.solver error) ∧
            session.synchronize.next = session) ∧
      (∀ request, request = .synchronize ∨ (∃ method, request = .solve method) →
        let reply := session.perform engine (.request request)
        ∀ fault, reply.result = .error fault → fault ≠ .solver .notInitialized →
          reply.next.state = .failed ∧ reply.next.synchronize.result = .error fault ∧
            reply.next.synchronize.next = reply.next) ∧
      (session.stored.isSome ↔ session.state = .solved ∧ session.status = .optimal) := by
  intro session
  have coherent : session.Coherent := (Coherent.start program).follow moves
  have reaches : Reaches engine (start program) session := Reaches.follow _ moves
  refine ⟨coherent.unconfigured, ?_, ?_, ?_, ?_, coherent.stored⟩
  · intro hstate later hlater
    rw [eq_of_reaches_unconfigured (Reaches.follow session later) hlater] at hlater
    exact hstate hlater
  · intro hstate
    have hsynchronized : session.state.isSynchronized = true := by
      cases hstate with
      | inl hstate => rw [hstate]; rfl
      | inr hstate => rw [hstate]; rfl
    exact ⟨coherent.initialized hsynchronized, coherent.current hsynchronized⟩
  · intro hstate
    have hstart : (start program).state ≠ .failed := by
      cases hinit : program.initialized <;> simp [start, hinit]
    obtain ⟨error, failing⟩ := failing_of_reaches reaches hstart hstate
    exact ⟨failing.formulation, error, failing.refused, failing.synchronize⟩
  · intro request hattempt reply fault hresult hother
    have hfailing : ∃ error, fault = .solver error ∧ reply.next.Failing error := by
      cases hattempt with
      | inl hrequest =>
          subst hrequest
          exact synchronize_failing (map_eq_error_iff.mp hresult) hother
      | inr hrequest =>
          obtain ⟨method, rfl⟩ := hrequest
          have hsettle := @solve_eq_settle engine _ coherent method
          have hresult : ((contract engine).solve session method).result = .error fault :=
            map_eq_error_iff.mp hresult
          have hnext : reply.next = (session.settle engine).2 := congrArg Prod.snd hsettle
          rw [hnext]
          exact settle_failing ((congrArg Prod.fst hsettle).symm.trans hresult) hother
    obtain ⟨error, rfl, failing⟩ := hfailing
    exact ⟨failing.state, failing.synchronize⟩

/-- The backend has no semicontinuous variables. A session that was asked to synchronize such
a program failed, and says the same when it is asked again. -/
theorem state_truthful_of_follow_semiReal :
    let moves : List Move := [.call (.request .synchronize)]
    let session := (start (.ofObjective .minimize [] ⟨[⟨0, .semiReal⟩]⟩)).follow
      (fun _ => .unbounded) moves
    session.state = .failed ∧ session.formulation = none ∧
      session.synchronize.result = .error (.solver (.unsupportedType .semiReal)) ∧
      session.synchronize.next = session := by
  intro moves session
  have hstate : session.state = .failed := rfl
  have hprogram : Formulation.ofProgram? session.program =
      .error (.unsupportedType .semiReal) := rfl
  obtain ⟨-, -, -, hfailed, -, -⟩ := state_truthful_of_follow (fun _ => .unbounded)
    (.ofObjective .minimize [] ⟨[⟨0, .semiReal⟩]⟩) moves
  obtain ⟨hformulation, error, herror, hresult, hnext⟩ := hfailed hstate
  cases Except.error.inj (herror.symm.trans hprogram)
  exact ⟨hstate, hformulation, hresult, hnext⟩

end LinProg.Session
