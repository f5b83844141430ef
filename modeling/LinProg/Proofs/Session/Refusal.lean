/-
# Refusals leave no trace

A session that is refused a batch, a parameter or a synchronization is the one it was before.
That is plain of operations that check first and then hand over a new program. It is less
so of a session that takes a batch in where it stands, write by write, and would keep what
it wrote before a write was refused. Such a session is compared with the other one here,
and they do not differ. The one refusal that does leave something behind is that of a
program without a formulation, which takes the old formulation away.
-/
import LinProg.Proofs.Formulation.Refusals
import LinProg.Proofs.Program.Writes
import LinProg.Proofs.Session.Operations

namespace LinProg

/-- What a solver reports when one of its own writes is refused. -/
def EditError.writeFault : EditError → Fault
  | .invalid error => .solver (.invalidInput error)
  | .outOfRange => .outOfRange

namespace Session

/-! ## Batches in place -/

/-- Carry out edits one after the other in the held program. A refused one ends this, and
those before it stay. -/
def write (session : Session) : List Edit → Reply Session Unit
  | [] => .succeed session ()
  | edit :: rest =>
      match session.program.edit edit with
      | .error error => .fail session error.writeFault
      | .ok program => write { session with program } rest

/-- Take in a batch where the session stands: check it, and then write it bit by bit. -/
def ingestInPlace (session : Session) (ingestion : Ingestion) : Reply Session Unit :=
  match session.program.writes? ingestion with
  | .error error => .refuse session error
  | .ok writes => (session.write writes).andThen fun _ written => .succeed written.expectChange ()

theorem write_of_ok {session : Session} {writes : List Edit} {program : Program}
    (hwritten : writes.foldlM Program.edit session.program = .ok program) :
    session.write writes = .succeed { session with program } () := by
  induction writes generalizing session with
  | nil =>
      cases hwritten
      rfl
  | cons first rest ih =>
      rw [List.foldlM_cons, bind_eq_ok_iff] at hwritten
      obtain ⟨middle, hfirst, hrest⟩ := hwritten
      rw [write, hfirst]
      exact ih hrest

/-- The writes of a batch that passes the checks leave nothing half done. -/
theorem ingestInPlace_same (session : Session) (ingestion : Ingestion) :
    (session.ingestInPlace ingestion).result = (session.ingest ingestion).result ∧
      (session.ingestInPlace ingestion).next = (session.ingest ingestion).next := by
  cases session.program.ingested ingestion with
  | unchecked error hwrites hingest =>
      obtain ⟨hresult, hnext⟩ := ingest_of_error session hingest
      rw [hresult, hnext, ingestInPlace, hwrites]
      exact ⟨rfl, rfl⟩
  | written writes program hwrites hwritten hingest =>
      obtain ⟨hresult, hnext⟩ := ingest_of_ok session hingest
      rw [hresult, hnext]
      simp only [ingestInPlace, hwrites, write_of_ok hwritten]
      exact ⟨rfl, rfl⟩
  | unwritten edit error hwrites hwritten hingest =>
      obtain ⟨hresult, hnext⟩ := ingest_of_error session hingest
      rw [hresult, hnext]
      simp only [ingestInPlace, hwrites, write, hwritten]
      exact ⟨rfl, rfl⟩

/-! ## All refusals -/

variable {engine : Engine} {session : Session}

theorem Decided.next_eq_of_error {reply : Reply Session Unit} (decided : session.Decided reply)
    {fault : Fault} (herror : reply.result = .error fault) : reply.next = session := by
  cases decided with
  | accepted hresult _ =>
      rw [hresult] at herror
      cases herror
  | refused _ _ hnext => exact hnext

theorem ingest_refused (session : Session) (ingestion : Ingestion) {fault : Fault}
    (herror : (session.perform engine (.ingest ingestion)).result = .error fault) :
    (session.perform engine (.ingest ingestion)).next = session :=
  (ingest_decided session ingestion).next_eq_of_error (map_eq_error_iff.mp herror)

theorem set_refused (session : Session) (parameter : Parameter) (value : ParameterValue)
    {fault : Fault}
    (herror : (session.perform engine (.request (.set parameter value))).result = .error fault) :
    (session.perform engine (.request (.set parameter value))).next = session :=
  (set_decided engine session parameter value).next_eq_of_error (map_eq_error_iff.mp herror)

/-- No formulation is refused for want of an objective, so this error tells that nothing was
attempted. -/
theorem synchronize_next_of_notInitialized (session : Session)
    (herror : session.synchronize.result = .error (.solver .notInitialized)) :
    session.synchronize.next = session := by
  cases synchronize_of_error session herror with
  | inl hrefused => exact hrefused.2
  | inr hfailed =>
      obtain ⟨error, -, hfault, hprogram, -⟩ := hfailed
      cases hfault
      exact absurd hprogram (Formulation.ofProgram?_ne_notInitialized session.program)

/-- A batch that is refused, also by a session that writes it bit by bit, and a parameter
that is refused leave the session as it was, and so does a synchronization without an
objective. One that fails otherwise does so since the program has no formulation. Then the
program, the status and the verbosity are kept, the formulation is gone, no solution can be
read, and the state says that the session failed. -/
theorem refusal_keeps_session (engine : Engine) (session : Session) :
    (∀ ingestion, let reply := session.perform engine (.ingest ingestion)
      reply.result = (session.ingestInPlace ingestion).result.map (fun _ => .done) ∧
        reply.next = (session.ingestInPlace ingestion).next ∧
        ∀ fault, reply.result = .error fault → reply.next = session) ∧
      (∀ parameter value, let reply := session.perform engine (.request (.set parameter value))
        ∀ fault, reply.result = .error fault → reply.next = session) ∧
      let reply := session.perform engine (.request .synchronize)
      (reply.result = .error (.solver .notInitialized) → reply.next = session) ∧
        ∀ fault, reply.result = .error fault → fault ≠ .solver .notInitialized →
          (∃ error, fault = .solver error ∧
              Formulation.ofProgram? session.program = .error error) ∧
            reply.next.program = session.program ∧ reply.next.status = session.status ∧
            reply.next.verbosity = session.verbosity ∧ reply.next.formulation = none ∧
            reply.next.solution = .error .notSolved ∧ reply.next.state = .failed := by
  refine ⟨?_, ?_, ?_, ?_⟩
  · intro ingestion reply
    obtain ⟨hresult, hnext⟩ := ingestInPlace_same session ingestion
    rw [hresult, hnext]
    exact ⟨rfl, rfl, fun fault => ingest_refused session ingestion⟩
  · intro parameter value reply fault
    exact set_refused session parameter value
  · intro herror
    exact synchronize_next_of_notInitialized session (map_eq_error_iff.mp herror)
  · intro fault herror hother
    cases synchronize_of_error session (map_eq_error_iff.mp herror) with
    | inl hrefused => exact absurd hrefused.1 hother
    | inr hfailed =>
        obtain ⟨error, -, hfault, hprogram, hnext⟩ := hfailed
        have hreply : (session.perform engine (.request .synchronize)).next = _ := hnext
        rw [hreply]
        exact ⟨⟨error, hfault, hprogram⟩, rfl, rfl, rfl, rfl, rfl, rfl⟩

/-- A column may be refused for its index alone, which a row names before the column is there.
The backend has no semicontinuous variables, so there is no formulation. -/
theorem refusal_keeps_session_taken_index :
    let session := start (.ofObjective .minimize [⟨⟨[(1, 0)]⟩, 0, .posInf⟩] ⟨[⟨0, .semiReal⟩]⟩)
    let engine : Engine := fun _ => .unbounded
    let columns := session.perform engine (.ingest (.columns ⟨[0], [0, 1], [0], [0], [0]⟩))
    let sense := session.perform engine (.request (.set .objectiveSense (.integer 0)))
    let synchronized := session.perform engine (.request .synchronize)
    (columns.result = .error (.solver (.invalidInput (.repeatedIndex 1))) ∧
        columns.next = session) ∧
      (sense.result = .error (.solver (.invalidValue .objectiveSense (integerText 0))) ∧
        sense.next = session) ∧
      synchronized.result = .error (.solver (.unsupportedType .semiReal)) ∧
      synchronized.next.program = session.program ∧ synchronized.next.state = .failed := by
  intro session engine columns sense synchronized
  have hcolumns : columns.result = .error (.solver (.invalidInput (.repeatedIndex 1))) := rfl
  have hsense : sense.result =
      .error (.solver (.invalidValue .objectiveSense (integerText 0))) := rfl
  have hsynchronized : synchronized.result = .error (.solver (.unsupportedType .semiReal)) := rfl
  obtain ⟨hingested, hset, -, hfailed⟩ := refusal_keeps_session engine session
  obtain ⟨-, hprogram, -, -, -, -, hstate⟩ := hfailed _ hsynchronized nofun
  exact ⟨⟨hcolumns, (hingested _).2.2 _ hcolumns⟩, ⟨hsense, hset _ _ _ hsense⟩, hsynchronized,
    hprogram, hstate⟩

end Session

end LinProg
