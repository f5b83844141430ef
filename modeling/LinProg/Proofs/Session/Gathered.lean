/-
# Synchronizing what was gathered

A session that starts empty and is only given batches, settings, synchronizations and solves
holds a gathered program. Two things can be missing when it is synchronized: an objective, as
long as no batch of objective terms was accepted, and variables that rows already name. What
was attempted before, and with what result, does not count.
-/
import LinProg.Proofs.Formulation.Gathered
import LinProg.Proofs.Session.Readable

namespace LinProg.Session

/-- Operations that bring data in batches only. -/
def Call.Raw : Call → Prop
  | .request (.edit _) => False
  | _ => True

/-- A batch of objective terms was accepted in the course of a run. -/
def ObjectiveTaken (engine : FragileEngine) (session : Session) (calls : List Call) : Prop :=
  ∃ earlier coefficients types later,
    calls = earlier ++ .ingest (.objective coefficients types) :: later ∧
      ((session.attemptAll engine earlier).attempt engine
        (.ingest (.objective coefficients types))).result = .ok .done

variable {engine : FragileEngine} {session : Session} {call : Call} {calls : List Call}

/-! ## The held program -/

/-- One raw operation keeps the held program gathered, also when it is refused. -/
theorem attempt_gathered (gathered : session.program.Gathered) (raw : call.Raw) :
    (session.attempt engine call).next.program.Gathered := by
  apply attempt_program_keeps _ _ _ gathered
  · exact fun program sense gathered => gathered.of_eq rfl rfl
  · rintro edit rfl
    exact raw.elim
  · exact fun ingestion _ program changed hok gathered => gathered.ingest hok

theorem attemptAll_gathered (gathered : session.program.Gathered)
    (raw : ∀ call ∈ calls, call.Raw) : (session.attemptAll engine calls).program.Gathered := by
  induction calls generalizing session with
  | nil => exact gathered
  | cons call rest ih =>
      apply ih
      · exact attempt_gathered gathered (raw call List.mem_cons_self)
      · exact fun other hmem => raw other (List.mem_cons_of_mem call hmem)

theorem attemptAll_current (current : Current engine session) (calls : List Call) :
    Current engine (session.attemptAll engine calls) := by
  have hmoves : session.attemptAll engine calls =
      session.attemptMoves engine (calls.map Move.call) := by
    rw [Session.attemptMoves, List.foldl_map]
    rfl
  exact hmoves ▸ current.attemptMoves (calls.map Move.call)

/-! ## The objective -/

/-- Other raw operations do not set an objective, and none of them takes one away. -/
theorem attempt_initialized (raw : call.Raw)
    (hother : ∀ coefficients types, call ≠ .ingest (.objective coefficients types)) :
    (session.attempt engine call).next.program.initialized = session.program.initialized := by
  have hkeeps := @attempt_program_keeps engine session
    (fun program => program.initialized = session.program.initialized) call
  apply hkeeps _ _ _ rfl
  · exact fun program sense hsame => hsame
  · rintro edit rfl
    exact raw.elim
  · rintro ingestion rfl program changed hok hsame
    cases ingestion with
    | rows batch =>
        obtain ⟨_, -, rfl⟩ := (Program.ingestRows_eq_ok_iff _ _ _).mp hok
        exact hsame
    | columns batch =>
        obtain ⟨_, -, -, added, -, -, rfl⟩ := (Program.ingestColumns_eq_ok_iff _ _ _).mp hok
        exact hsame
    | objective coefficients types => exact absurd rfl (hother coefficients types)

/-- A batch of objective terms sets the objective, if it is accepted. -/
theorem attempt_objective_initialized_iff {coefficients : List Binary64}
    {types : List VariableType} :
    (session.attempt engine (.ingest (.objective coefficients types))).next.program.initialized =
        true ↔
      session.program.initialized = true ∨
        (session.attempt engine (.ingest (.objective coefficients types))).result = .ok .done := by
  rw [attempt_ingest]
  cases hingest : session.program.ingest (.objective coefficients types) with
  | ok program =>
      obtain ⟨hresult, hnext⟩ := perform_ingest_of_ok engine.total session hingest
      obtain ⟨-, -, -, rfl⟩ := Program.ingestObjective_iff.mp hingest
      rw [hresult, hnext]
      exact iff_of_true rfl (.inr rfl)
  | error error =>
      obtain ⟨hresult, hnext⟩ := perform_ingest_of_error engine.total session hingest
      rw [hresult, hnext]
      simp

theorem attempt_initialized_iff (raw : call.Raw) :
    (session.attempt engine call).next.program.initialized = true ↔
      session.program.initialized = true ∨
        ∃ coefficients types, call = .ingest (.objective coefficients types) ∧
          (session.attempt engine call).result = .ok .done := by
  by_cases hobjective : ∃ coefficients types, call = .ingest (.objective coefficients types)
  · obtain ⟨coefficients, types, rfl⟩ := hobjective
    rw [attempt_objective_initialized_iff]
    simp
  · have hother : ∀ coefficients types, call ≠ .ingest (.objective coefficients types) :=
      fun coefficients types heq => hobjective ⟨coefficients, types, heq⟩
    rw [attempt_initialized raw hother]
    simp [hother]

theorem objectiveTaken_cons_iff :
    ObjectiveTaken engine session (call :: calls) ↔
      (∃ coefficients types, call = .ingest (.objective coefficients types) ∧
        (session.attempt engine call).result = .ok .done) ∨
      ObjectiveTaken engine (session.attempt engine call).next calls := by
  apply Iff.intro
  · rintro ⟨earlier, coefficients, types, later, hsplit, hresult⟩
    cases earlier with
    | nil =>
        obtain ⟨rfl, rfl⟩ := List.cons.inj hsplit
        exact .inl ⟨coefficients, types, rfl, hresult⟩
    | cons first earlier =>
        obtain ⟨rfl, rfl⟩ := List.cons.inj hsplit
        exact .inr ⟨earlier, coefficients, types, later, rfl, hresult⟩
  · rintro (⟨coefficients, types, rfl, hresult⟩ | ⟨earlier, coefficients, types, later, rfl, hresult⟩)
    · exact ⟨[], coefficients, types, calls, rfl, hresult⟩
    · exact ⟨call :: earlier, coefficients, types, later, rfl, hresult⟩

/-- The held program is initialized exactly if it was at the start or terms were accepted. -/
theorem attemptAll_initialized_iff (raw : ∀ call ∈ calls, call.Raw) :
    (session.attemptAll engine calls).program.initialized = true ↔
      session.program.initialized = true ∨ ObjectiveTaken engine session calls := by
  induction calls generalizing session with
  | nil => simp [attemptAll, ObjectiveTaken]
  | cons call rest ih =>
      have hrest : ∀ other ∈ rest, other.Raw :=
        fun other hmem => raw other (List.mem_cons_of_mem call hmem)
      have hnext := @ih (session.attempt engine call).next hrest
      rw [attempt_initialized_iff (raw call List.mem_cons_self), or_assoc,
        ← objectiveTaken_cons_iff] at hnext
      exact hnext

/-! ## Synchronization -/

/-- What synchronizing a gathered program comes to. -/
theorem synchronize_of_gathered (current : Current engine session)
    (gathered : session.program.Gathered) (hinit : session.program.initialized = true) :
    (session.synchronize.result = .ok () ∧
        ∀ constraint ∈ session.program.constraints, ∀ index ∈ constraint.row.indices,
          index < session.program.vars.length) ∨
      ∃ constraint ∈ session.program.constraints, ∃ index ∈ constraint.row.indices,
        session.program.vars.length ≤ index ∧ session.synchronize.result =
          .error (.solver (.indexOutOfRange index session.program.vars.length)) := by
  rcases synchronize_cases session with ⟨huninit, -⟩ | ⟨hstate, hkept⟩ | ⟨-, hformulated⟩
  · rw [hinit] at huninit
    cases huninit
  · obtain ⟨formulation, -, hok⟩ := current.formulation hstate
    rw [hkept]
    exact .inl ⟨rfl, Formulation.indices_lt_of_ofProgram? hok⟩
  · rw [hformulated]
    cases hprogram : Formulation.ofProgram? session.program with
    | ok formulation =>
        rw [(formulate_of_ok session hprogram).1]
        exact .inl ⟨rfl, Formulation.indices_lt_of_ofProgram? hprogram⟩
    | error error =>
        obtain ⟨constraint, hmem, index, hindex, hbeyond, rfl⟩ :=
          gathered.ofProgram?_eq_error hprogram
        rw [(formulate_of_error session hprogram).1]
        exact .inr ⟨constraint, hmem, index, hindex, hbeyond, rfl⟩

/-- Wherever a session has come to that started empty and was given data in batches only, there
are three ways for a synchronization to end. Before a batch of objective terms was accepted, it
says that the program is not initialized. After that, it names an index in a row for which there
is no variable yet, if there is such an index. If not, it succeeds. -/
theorem synchronize_after_batches (engine : FragileEngine) (sense : Sense) {calls : List Call}
    (raw : ∀ call ∈ calls, call.Raw) :
    let blank := start (.empty sense)
    let session := blank.attemptAll engine calls
    let count := session.program.vars.length
    let reply := session.attempt engine (.request .synchronize)
    (¬ ObjectiveTaken engine blank calls → reply.result = .error (.solver .notInitialized)) ∧
      (ObjectiveTaken engine blank calls →
        (∃ constraint ∈ session.program.constraints, ∃ index ∈ constraint.row.indices,
          count ≤ index) →
        ∃ constraint ∈ session.program.constraints, ∃ index ∈ constraint.row.indices,
          count ≤ index ∧ reply.result = .error (.solver (.indexOutOfRange index count))) ∧
      (ObjectiveTaken engine blank calls →
        (∀ constraint ∈ session.program.constraints, ∀ index ∈ constraint.row.indices,
          index < count) →
        reply.result = .ok .done) := by
  intro blank session count reply
  have gathered : session.program.Gathered := attemptAll_gathered (.empty sense) raw
  have current : Current engine session := attemptAll_current (.start _) calls
  have hblank : ¬ blank.program.initialized = true := Bool.false_ne_true
  have hinit : session.program.initialized = true ↔ ObjectiveTaken engine blank calls :=
    (attemptAll_initialized_iff raw).trans (or_iff_right hblank)
  refine ⟨fun hnone => ?_, fun htaken hdangling => ?_, fun htaken hcovered => ?_⟩
  · have huninit : session.program.initialized = false := by
      simpa using mt hinit.mp hnone
    show (session.synchronize.map fun _ => Response.done).result = _
    rw [synchronize_of_uninitialized session huninit]
    rfl
  · rcases synchronize_of_gathered current gathered (hinit.mpr htaken) with ⟨-, hcovered⟩ | hrefused
    · obtain ⟨constraint, hmem, index, hindex, hbeyond⟩ := hdangling
      exact absurd (hcovered constraint hmem index hindex) (Nat.not_lt.mpr hbeyond)
    · obtain ⟨constraint, hmem, index, hindex, hbeyond, hresult⟩ := hrefused
      exact ⟨constraint, hmem, index, hindex, hbeyond, map_eq_error_iff.mpr hresult⟩
  · rcases synchronize_of_gathered current gathered (hinit.mpr htaken) with ⟨hresult, -⟩ | hrefused
    · exact congrArg (Except.map fun _ => Response.done) hresult
    · obtain ⟨constraint, hmem, index, hindex, hbeyond, -⟩ := hrefused
      exact absurd (hcovered constraint hmem index hindex) (Nat.not_lt.mpr hbeyond)

/-- A row names a second variable before there is one. It comes with an empty column, and the
engine that breaks down then does not matter. -/
theorem synchronize_after_batches_second_variable :
    let one := Binary64.ofInt 1
    let engine : FragileEngine := fun _ => .error "cycling"
    let blank := start (.empty .maximize)
    let calls : List Call := [.ingest (.rows ⟨[one], [0, 1], [1], [0], [one]⟩),
      .request (.solve .standard), .ingest (.objective [one] [.binary]), .request .synchronize,
      .ingest (.columns ⟨[], [0, 0], [], [.negInf], [0]⟩), .request (.solve .primal)]
    let earlier := blank.attemptAll engine (calls.take 3)
    let session := blank.attemptAll engine calls
    (∀ call ∈ calls, call.Raw) ∧ ObjectiveTaken engine blank calls ∧
      (blank.attempt engine (.request .synchronize)).result = .error (.solver .notInitialized) ∧
      (∃ index, (earlier.attempt engine (.request .synchronize)).result =
        .error (.solver (.indexOutOfRange index earlier.program.vars.length))) ∧
      session.state = .failed ∧
      (session.attempt engine (.request .synchronize)).result = .ok .done := by
  intro one engine blank calls earlier session
  have raw : ∀ call ∈ calls, call.Raw := by
    simp [calls, Call.Raw]
  have htaken : (((blank.attemptAll engine (calls.take 2)).attempt engine
      (.ingest (.objective [one] [.binary]))).result = .ok .done) := by
    decide +kernel
  have hdangling : ∃ constraint ∈ earlier.program.constraints,
      ∃ index ∈ constraint.row.indices, earlier.program.vars.length ≤ index := by
    decide +kernel
  have hcovered : ∀ constraint ∈ session.program.constraints,
      ∀ index ∈ constraint.row.indices, index < session.program.vars.length := by
    decide +kernel
  have hstate : session.state = .failed := by
    decide +kernel
  have hnone : ¬ ObjectiveTaken engine blank [] := by
    simp [ObjectiveTaken]
  obtain ⟨hblank, -, -⟩ := @synchronize_after_batches engine .maximize [] (by simp)
  obtain ⟨-, hearlier, -⟩ := @synchronize_after_batches engine .maximize (calls.take 3)
    fun call hmem => raw call (List.mem_of_mem_take hmem)
  obtain ⟨-, -, hlater⟩ := @synchronize_after_batches engine .maximize calls raw
  obtain ⟨_, -, index, -, -, hrefused⟩ := hearlier
    ⟨calls.take 2, [one], [.binary], [], rfl, htaken⟩ hdangling
  have hobjective : ObjectiveTaken engine blank calls :=
    ⟨calls.take 2, [one], [.binary], calls.drop 3, rfl, htaken⟩
  refine ⟨raw, hobjective, hblank hnone, ⟨index, ?_⟩, hstate, hlater hobjective ?_⟩
  · dsimp only [earlier]
    exact hrefused
  · dsimp only [session, blank] at hcovered
    exact hcovered

end LinProg.Session
