/-
# What the operations of a session leave behind

Each operation has one statement here about its result and its next state, in terms
of two things only: whether the operation was refused, and how the session was
adjusted if not. Log lines play no part. Later modules cite these statements and do
not look into the operations again.
-/
import LinProg.Solver.Ingestion

namespace LinProg

namespace Reply

variable {σ α β : Type}

@[simp]
theorem result_succeed (next : σ) (value : α) : (succeed next value).result = .ok value :=
  rfl

@[simp]
theorem next_succeed (next : σ) (value : α) : (succeed next value).next = next :=
  rfl

@[simp]
theorem result_fail (next : σ) (fault : Fault) :
    (fail next fault : Reply σ α).result = .error fault :=
  rfl

@[simp]
theorem next_fail (next : σ) (fault : Fault) : (fail next fault : Reply σ α).next = next :=
  rfl

@[simp]
theorem result_refuse (next : σ) (error : SolverError) :
    (refuse next error : Reply σ α).result = .error (.solver error) :=
  rfl

@[simp]
theorem next_refuse (next : σ) (error : SolverError) :
    (refuse next error : Reply σ α).next = next :=
  rfl

@[simp]
theorem result_logging (lines : List LogLine) (reply : Reply σ α) :
    (reply.logging lines).result = reply.result :=
  rfl

@[simp]
theorem next_logging (lines : List LogLine) (reply : Reply σ α) :
    (reply.logging lines).next = reply.next :=
  rfl

@[simp]
theorem result_map (change : α → β) (reply : Reply σ α) :
    (reply.map change).result = reply.result.map change :=
  rfl

@[simp]
theorem next_map (change : α → β) (reply : Reply σ α) : (reply.map change).next = reply.next :=
  rfl

/-- After a success the reply is that of the continuation, up to the log. -/
theorem andThen_of_ok {reply : Reply σ α} {value : α} (hok : reply.result = .ok value)
    (continuation : α → σ → Reply σ β) :
    reply.andThen continuation = (continuation value reply.next).logging reply.log := by
  simp only [andThen, hok]

/-- After a fault nothing else happens. -/
theorem andThen_of_error {reply : Reply σ α} {fault : Fault}
    (herror : reply.result = .error fault) (continuation : α → σ → Reply σ β) :
    reply.andThen continuation = ⟨.error fault, reply.next, reply.log⟩ := by
  simp only [andThen, herror]

/-- What a continuation leaves alone is left alone by both steps together. -/
theorem part_next_andThen {γ : Type} (part : σ → γ) {reply : Reply σ α}
    {continuation : α → σ → Reply σ β}
    (hkeeps : ∀ value, part (continuation value reply.next).next = part reply.next) :
    part (reply.andThen continuation).next = part reply.next := by
  cases hresult : reply.result with
  | ok value =>
      rw [andThen_of_ok hresult, next_logging]
      exact hkeeps value
  | error fault => rw [andThen_of_error hresult]

end Reply

/-- A setting leaves it open whether a solve can start at once. -/
@[simp]
theorem SolverState.isSynchronized_afterConfiguration (state : SolverState) :
    state.afterConfiguration.isSynchronized = state.isSynchronized := by
  cases state <;> rfl

namespace Session

/-- The session with another verbosity. -/
def withVerbosity (session : Session) (verbosity : Int) : Session :=
  { session with verbosity, state := session.state.afterConfiguration, stored := none }

/-- What an accepted change leaves: another program or another verbosity, and no
solution in either case. -/
inductive Adjusted (session : Session) : Session → Prop where
  | program (program : Program) : Adjusted session (session.change program)
  | verbosity (value : Int) : Adjusted session (session.withVerbosity value)

/-- No solution can be read after an accepted change. -/
theorem Adjusted.solution_eq {session next : Session} (adjusted : session.Adjusted next) :
    next.solution = .error .notSolved := by
  cases adjusted <;> rfl

theorem Adjusted.status_eq {session next : Session} (adjusted : session.Adjusted next) :
    next.status = session.status := by
  cases adjusted <;> rfl

/-- A request for a change is either accepted or refused, and a refusal leaves the
session as it was. -/
inductive Decided (session : Session) (reply : Reply Session Unit) : Prop where
  | accepted (hresult : reply.result = .ok ()) (hnext : session.Adjusted reply.next)
  | refused (error : SolverError) (hresult : reply.result = .error (.solver error))
      (hnext : reply.next = session)

variable (engine : Engine) (session : Session)

theorem decided_refuse (error : SolverError) : session.Decided (.refuse session error) :=
  .refused error rfl rfl

/-- An edit leaves some program and no solution, also when it is refused. -/
theorem edit_next (edit : Edit) :
    ∃ program, ((contract engine).edit session edit).next = session.change program := by
  simp only [Contract.edit]
  split
  · exact ⟨session.program, rfl⟩
  · rename_i changed _
    exact ⟨changed, rfl⟩

theorem setInteger_decided (parameter : Parameter) (value : Int) :
    session.Decided (session.setInteger parameter value) := by
  simp only [setInteger]
  split
  · exact decided_refuse session _
  · split
    · split
      · exact decided_refuse session _
      · exact .accepted rfl (.program _)
    · exact .accepted rfl (.verbosity value)
    · exact decided_refuse session _

/-- No real parameter is ever accepted. -/
theorem setReal_decided (parameter : Parameter) (value : Binary64) :
    session.Decided (session.setReal parameter value) := by
  simp only [setReal]
  split <;> exact decided_refuse session _

theorem set_decided (parameter : Parameter) (value : ParameterValue) :
    session.Decided ((contract engine).set session parameter value) := by
  cases value with
  | integer value => exact setInteger_decided session parameter value
  | real value => exact setReal_decided session parameter value

/-- Whether a bundle of settings goes on after the result of one of them. -/
def goesOn : Except Fault Unit → Bool
  | .ok () | .error (.solver (.unsupportedParameter ..)) => true
  | .error _ => false

/-- A bundle of settings ends with the first setting after which it does not go on. -/
theorem applyAll_next_cons (parameter : Parameter) (value : ParameterValue)
    (rest : List (Parameter × ParameterValue)) :
    ((contract engine).applyAll session ((parameter, value) :: rest)).next =
      if goesOn ((contract engine).set session parameter value).result then
        ((contract engine).applyAll
          ((contract engine).set session parameter value).next rest).next
      else ((contract engine).set session parameter value).next := by
  simp only [Contract.applyAll]
  cases (contract engine).set session parameter value with
  | mk result next log =>
      cases result with
      | ok value => rfl
      | error fault =>
          cases fault with
          | solver error => cases error <;> rfl
          | _ => rfl

theorem ingest_of_ok {ingestion : Ingestion} {program : Program}
    (hok : session.program.ingest ingestion = .ok program) :
    (session.ingest ingestion).result = .ok () ∧
      (session.ingest ingestion).next = session.change program := by
  simp [ingest, hok]

theorem perform_ingest_of_ok {ingestion : Ingestion} {program : Program}
    (hok : session.program.ingest ingestion = .ok program) :
    (session.perform engine (.ingest ingestion)).result = .ok .done ∧
      (session.perform engine (.ingest ingestion)).next = session.change program := by
  obtain ⟨hresult, hnext⟩ := ingest_of_ok session hok
  exact ⟨congrArg (Except.map fun _ => Response.done) hresult, hnext⟩

theorem ingest_of_error {ingestion : Ingestion} {error : SolverError}
    (herror : session.program.ingest ingestion = .error error) :
    (session.ingest ingestion).result = .error (.solver error) ∧
      (session.ingest ingestion).next = session := by
  simp [ingest, herror]

theorem perform_ingest_of_error {ingestion : Ingestion} {error : SolverError}
    (herror : session.program.ingest ingestion = .error error) :
    (session.perform engine (.ingest ingestion)).result = .error (.solver error) ∧
      (session.perform engine (.ingest ingestion)).next = session := by
  obtain ⟨hresult, hnext⟩ := ingest_of_error session herror
  exact ⟨congrArg (Except.map fun _ => Response.done) hresult, hnext⟩

theorem ingest_decided (ingestion : Ingestion) : session.Decided (session.ingest ingestion) := by
  cases hingest : session.program.ingest ingestion with
  | error error =>
      obtain ⟨hresult, hnext⟩ := ingest_of_error session hingest
      exact .refused error hresult hnext
  | ok program =>
      obtain ⟨hresult, hnext⟩ := ingest_of_ok session hingest
      exact .accepted hresult (hnext ▸ .program program)

/-! ## Synchronization -/

theorem synchronize_of_uninitialized (hinit : session.program.initialized = false) :
    session.synchronize = .refuse session .notInitialized := by
  simp [synchronize, hinit]

theorem synchronize_of_isSynchronized (hinit : session.program.initialized = true)
    (hstate : session.state.isSynchronized = true) (hsome : session.formulation.isSome) :
    session.synchronize = .succeed session () := by
  simp [synchronize, hinit, hstate, hsome]

theorem synchronize_of_not_isSynchronized (hinit : session.program.initialized = true)
    (hstate : session.state.isSynchronized = false) :
    session.synchronize = session.formulate := by
  simp [synchronize, hinit, hstate]

/-- Synchronizing is refused, or there is nothing to do, or it formulates the program. -/
theorem synchronize_cases :
    (session.program.initialized = false ∧
        session.synchronize = .refuse session .notInitialized) ∨
      (session.state.isSynchronized = true ∧ session.synchronize = .succeed session ()) ∨
      (session.program.initialized = true ∧ session.synchronize = session.formulate) := by
  cases hinit : session.program.initialized with
  | false => exact .inl ⟨rfl, synchronize_of_uninitialized session hinit⟩
  | true =>
      by_cases hcurrent : (session.state.isSynchronized && session.formulation.isSome) = true
      · refine .inr (.inl ⟨(Bool.and_eq_true_iff.mp hcurrent).1, ?_⟩)
        simp [synchronize, hinit, hcurrent]
      · refine .inr (.inr ⟨rfl, ?_⟩)
        simp [synchronize, hinit, hcurrent]

theorem formulate_of_ok {formulation : Formulation}
    (hok : Formulation.ofProgram? session.program = .ok formulation) :
    session.formulate.result = .ok () ∧
      session.formulate.next =
        { session with
          formulation := some formulation, state := .synchronized, stored := none } := by
  simp [formulate, hok]

theorem formulate_of_error {error : SolverError}
    (herror : Formulation.ofProgram? session.program = .error error) :
    session.formulate.result = .error (.solver error) ∧
      session.formulate.next =
        { session with formulation := none, state := .failed, stored := none } := by
  simp [formulate, herror]

/-- A synchronization fails for a missing objective, and then nothing happens, or because
there is no formulation. -/
theorem synchronize_of_error {fault : Fault} (herror : session.synchronize.result = .error fault) :
    (fault = .solver .notInitialized ∧ session.synchronize.next = session) ∨
      ∃ error, session.program.initialized = true ∧ fault = .solver error ∧
        Formulation.ofProgram? session.program = .error error ∧
        session.synchronize.next =
          { session with formulation := none, state := .failed, stored := none } := by
  rcases synchronize_cases session with ⟨-, hrefused⟩ | ⟨-, hkept⟩ | ⟨hinit, hformulated⟩
  · rw [hrefused] at herror ⊢
    cases herror
    exact .inl ⟨rfl, rfl⟩
  · rw [hkept] at herror
    cases herror
  · rw [hformulated] at herror ⊢
    cases hprogram : Formulation.ofProgram? session.program with
    | ok formulation =>
        rw [(formulate_of_ok session hprogram).1] at herror
        cases herror
    | error error =>
        obtain ⟨hresult, hnext⟩ := formulate_of_error session hprogram
        rw [hresult] at herror
        cases herror
        exact .inr ⟨error, hinit, rfl, rfl, hnext⟩

theorem synchronize_of_ok (hok : session.synchronize.result = .ok ()) :
    session.synchronize.next.state.isSynchronized = true := by
  rcases synchronize_cases session with ⟨-, hrefused⟩ | ⟨hstate, hkept⟩ | ⟨-, hformulated⟩
  · rw [hrefused] at hok
    cases hok
  · rw [hkept]
    exact hstate
  · rw [hformulated] at hok ⊢
    cases hprogram : Formulation.ofProgram? session.program with
    | ok formulation =>
        rw [(formulate_of_ok session hprogram).2]
        rfl
    | error error =>
        rw [(formulate_of_error session hprogram).1] at hok
        cases hok

/-- Only solves change the status. -/
theorem synchronize_status : session.synchronize.next.status = session.status := by
  simp only [synchronize]
  split
  · rfl
  · split
    · rfl
    · simp only [formulate]
      split <;> rfl

/-! ## Solving -/

/-- The session after the engine ended on a formulation. -/
def ended (formulation : Formulation) : Session :=
  { session with
    formulation := some formulation
    status := (formulation.solve engine).status
    state := .solved
    stored := formulation.solutionOf? (formulation.solve engine) }

theorem finish_of_some {formulation : Formulation}
    (hsome : session.formulation = some formulation) :
    (session.finish engine).result = .ok (formulation.solve engine).status ∧
      (session.finish engine).next = session.ended engine formulation := by
  simp [finish, hsome, ended]

end Session

end LinProg
