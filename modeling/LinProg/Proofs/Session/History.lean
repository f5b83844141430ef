/-
# A solution can be read exactly while it is current

Whether a solution can be read is decided by three fields, which the operations set
separately. Here the same question is put to the history instead: the events of a run,
in order, without any field of the session in them. `Recorded` says that a session and
its history agree on every solution and on the status, and each kind of event is shown
to keep the two in agreement.

Applying a bundle of settings counts as one event for each setting that is tried. The
change of a program counts from the moment when the program is taken out.
-/
import LinProg.Proofs.Session.Coherence

namespace LinProg.Session

/-- What happened to a session, as far as its solutions are concerned. -/
inductive Event where
  /-- The held program was taken out for a change. -/
  | opened
  /-- A parameter was set, or refused. -/
  | configured (result : Except Fault Unit)
  /-- A batch was taken in, or refused. -/
  | ingested (result : Except Fault Unit)
  /-- The program was synchronized, or could not be. -/
  | synchronized (result : Except Fault Unit)
  /-- A program was solved, or could not be. -/
  | solved (program : Program) (result : Except Fault Status)

namespace Event

/-- Events that take no solution away: synchronizations, and refused changes. -/
def Keeps : Event → Prop
  | .opened | .solved .. => False
  | .configured result | .ingested result => result ≠ .ok ()
  | .synchronized _ => True

/-- The status that an event reports, if it is a solve that ended. -/
def status? : Event → Option Status
  | .solved _ (.ok status) => some status
  | _ => none

end Event

/-- The settings that are tried in turn. Parameters that are not supported are passed
over, and any other refusal is the last event. -/
def observeSettings (engine : Engine) (session : Session) :
    List (Parameter × ParameterValue) → List Event
  | [] => []
  | (parameter, value) :: rest =>
      let reply := (contract engine).set session parameter value
      .configured reply.result ::
        if goesOn reply.result then observeSettings engine reply.next rest else []

/-- The events of one move. -/
def observe (engine : Engine) (session : Session) : Move → List Event
  | .leave _ | .call (.request (.edit _)) => [.opened]
  | .call (.request (.set parameter value)) =>
      [.configured ((contract engine).set session parameter value).result]
  | .call (.request (.apply settings)) => session.observeSettings engine settings.entries
  | .call (.request .synchronize) => [.synchronized session.synchronize.result]
  | .call (.request (.solve method)) =>
      [.solved session.program ((contract engine).solve session method).result]
  | .call (.ingest ingestion) => [.ingested (session.ingest ingestion).result]

/-- The events of a run, the first one first. -/
def events (engine : Engine) (session : Session) : List Move → List Event
  | [] => []
  | move :: rest => session.observe engine move ++ events engine (session.move engine move) rest

/-- The last event that matters is a solve that ended with values, of a program for
which the engine gives this solution. -/
def CurrentSolution (engine : Engine) (events : List Event) (solution : Solution) : Prop :=
  ∃ earlier held status later, events = earlier ++ .solved held (.ok status) :: later ∧
    status.hasSolution = true ∧ (∀ event ∈ later, event.Keeps) ∧
    solutionFor? engine held = some solution

/-- The status of the last solve that ended. -/
def lastStatus (events : List Event) : Status :=
  (events.reverse.findSome? Event.status?).getD .noInformation

variable {engine : Engine} {session next : Session} {past : List Event} {event : Event}

theorem lastStatus_concat_of_none (hstatus : event.status? = none) :
    lastStatus (past ++ [event]) = lastStatus past := by
  simp [lastStatus, hstatus]

theorem lastStatus_concat_of_some {status : Status} (hstatus : event.status? = some status) :
    lastStatus (past ++ [event]) = status := by
  simp [lastStatus, hstatus]

/-- The last event either keeps the solution from before, or is the solve that gave it. -/
theorem currentSolution_concat_iff (solution : Solution) :
    CurrentSolution engine (past ++ [event]) solution ↔
      (event.Keeps ∧ CurrentSolution engine past solution) ∨
        ∃ held status, event = .solved held (.ok status) ∧ status.hasSolution = true ∧
          solutionFor? engine held = some solution := by
  apply Iff.intro
  · rintro ⟨earlier, held, status, later, heq, hstatus, hkeeps, hsolution⟩
    rcases List.eq_nil_or_concat later with rfl | ⟨rest, last, rfl⟩
    · obtain ⟨-, hlast⟩ := List.append_inj' heq rfl
      exact .inr ⟨held, status, by simpa using hlast, hstatus, hsolution⟩
    · rw [List.concat_eq_append, ← List.cons_append, ← List.append_assoc] at heq
      obtain ⟨rfl, hlast⟩ := List.append_inj' heq rfl
      have hevent : event = last := by simpa using hlast
      refine .inl ⟨hevent ▸ hkeeps last (by simp), earlier, held, status, rest, rfl, hstatus,
        fun before hmem => hkeeps before (by simp [hmem]), hsolution⟩
  · rintro (⟨hkeeps, earlier, held, status, later, rfl, hstatus, hlater, hsolution⟩ |
      ⟨held, status, rfl, hstatus, hsolution⟩)
    · refine ⟨earlier, held, status, later ++ [event], by simp, hstatus, ?_, hsolution⟩
      intro after hmem
      rcases List.mem_append.mp hmem with hmem | hmem
      · exact hlater after hmem
      · exact List.mem_singleton.mp hmem ▸ hkeeps
    · exact ⟨past, held, status, [], rfl, hstatus, by simp, hsolution⟩

theorem currentSolution_append_iff {more : List Event} (hkeeps : ∀ event ∈ more, event.Keeps)
    (solution : Solution) :
    CurrentSolution engine (past ++ more) solution ↔ CurrentSolution engine past solution := by
  induction more generalizing past with
  | nil => rw [List.append_nil]
  | cons event rest ih =>
      have hevent : event.Keeps := hkeeps event (by simp)
      have hrest : ∀ later ∈ rest, later.Keeps := fun later hmem => hkeeps later (by simp [hmem])
      rw [← List.singleton_append, ← List.append_assoc, ih hrest, currentSolution_concat_iff]
      refine ⟨?_, fun current => .inl ⟨hevent, current⟩⟩
      rintro (⟨-, current⟩ | ⟨held, status, rfl, -⟩)
      · exact current
      · exact hevent.elim

/-! ## A session and its history -/

/-- A session agrees with what happened to it. -/
structure Recorded (engine : Engine) (events : List Event) (session : Session) : Prop where
  coherent : session.Coherent
  status : session.status = lastStatus events
  readable : ∀ solution,
    session.solution = .ok solution ↔ CurrentSolution engine events solution
  /-- A solve that reports values has them. -/
  produced : ∀ held status, .solved held (.ok status) ∈ events →
    status.hasSolution = true → (solutionFor? engine held).isSome

namespace Recorded

theorem start (program : Program) : Recorded engine [] (start program) where
  coherent := Coherent.start program
  status := rfl
  readable solution := by simp [Session.start, Session.solution, CurrentSolution]
  produced held status hmem := by simp at hmem

/-- An event that changes nothing that can be seen. -/
theorem keep (recorded : Recorded engine past session) (hnext : next.Coherent)
    (hsolution : next.solution = session.solution) (hstatus : next.status = session.status)
    (hkeeps : event.Keeps) (hnone : event.status? = none) :
    Recorded engine (past ++ [event]) next where
  coherent := hnext
  status := by rw [hstatus, recorded.status, lastStatus_concat_of_none hnone]
  readable solution := by
    rw [hsolution, recorded.readable, currentSolution_concat_iff]
    apply Iff.intro
    · exact fun current => .inl ⟨hkeeps, current⟩
    · rintro (⟨-, current⟩ | ⟨held, status, rfl, -⟩)
      · exact current
      · exact hkeeps.elim
  produced held status hmem := by
    refine recorded.produced held status ?_
    rcases List.mem_append.mp hmem with hmem | hmem
    · exact hmem
    · exact (List.mem_singleton.mp hmem ▸ hkeeps : Event.Keeps (.solved held _)).elim

/-- An event after which nothing can be read, with the status from before. -/
theorem drop (recorded : Recorded engine past session) (hnext : next.Coherent)
    (hsolution : next.solution = .error .notSolved) (hstatus : next.status = session.status)
    (hkeeps : ¬ event.Keeps) (hnone : event.status? = none) :
    Recorded engine (past ++ [event]) next where
  coherent := hnext
  status := by rw [hstatus, recorded.status, lastStatus_concat_of_none hnone]
  readable solution := by
    rw [hsolution, currentSolution_concat_iff]
    apply Iff.intro
    · intro hok
      cases hok
    · rintro (⟨hkeep, -⟩ | ⟨held, status, rfl, -⟩)
      · exact (hkeeps hkeep).elim
      · simp [Event.status?] at hnone
  produced held status hmem := by
    refine recorded.produced held status ?_
    rcases List.mem_append.mp hmem with hmem | hmem
    · exact hmem
    · rw [← List.mem_singleton.mp hmem] at hnone
      simp [Event.status?] at hnone

/-- A solve that ended. -/
theorem solve (recorded : Recorded engine past session) (hnext : next.Coherent)
    {held : Program} (hsolution : next.solution =
      (solutionFor? engine held).elim (.error .notSolved) .ok)
    (hproduced : next.status.hasSolution = (solutionFor? engine held).isSome) :
    Recorded engine (past ++ [.solved held (.ok next.status)]) next where
  coherent := hnext
  status := (lastStatus_concat_of_some rfl).symm
  readable solution := by
    rw [hsolution, currentSolution_concat_iff]
    apply Iff.intro
    · intro hok
      cases hfor : solutionFor? engine held with
      | none => simp [hfor] at hok
      | some found =>
          obtain rfl : found = solution := by simpa [hfor] using hok
          exact .inr ⟨held, next.status, rfl, by simp [hproduced, hfor], hfor⟩
    · rintro (⟨hkeep, -⟩ | ⟨other, status, hevent, -, hfor⟩)
      · exact hkeep.elim
      · cases hevent
        simp [hfor]
  produced other status hmem hstatus := by
    rcases List.mem_append.mp hmem with hmem | hmem
    · exact recorded.produced other status hmem hstatus
    · cases List.mem_singleton.mp hmem
      exact hproduced ▸ hstatus

/-- A request for a change keeps what can be read if it is refused, and takes it if not. -/
theorem decided (recorded : Recorded engine past session) {reply : Reply Session Unit}
    (decided : session.Decided reply) (hkeeps : event.Keeps ↔ reply.result ≠ .ok ())
    (hnone : event.status? = none) : Recorded engine (past ++ [event]) reply.next := by
  have hnext := recorded.coherent.reaches (@Reaches.decided engine session reply decided)
  cases decided with
  | accepted hresult hadjusted =>
      refine recorded.drop hnext hadjusted.solution_eq hadjusted.status_eq ?_ hnone
      simp [hkeeps, hresult]
  | refused error hresult hsame =>
      rw [hsame] at hnext ⊢
      exact recorded.keep hnext rfl rfl (by simp [hkeeps, hresult]) hnone

/-- Leaving another program is an event of its own. -/
theorem opened (recorded : Recorded engine past session) (program : Program) :
    Recorded engine (past ++ [.opened]) (session.change program) :=
  recorded.drop (Coherent.change session program) (Adjusted.program program).solution_eq rfl
    (fun hkeeps => hkeeps) rfl

theorem applyAll (recorded : Recorded engine past session)
    (settings : List (Parameter × ParameterValue)) :
    Recorded engine (past ++ session.observeSettings engine settings)
      ((contract engine).applyAll session settings).next := by
  induction settings generalizing session past with
  | nil =>
      rw [observeSettings, List.append_nil]
      exact recorded
  | cons setting rest ih =>
      obtain ⟨parameter, value⟩ := setting
      have hset : Recorded engine
          (past ++ [.configured ((contract engine).set session parameter value).result])
          ((contract engine).set session parameter value).next :=
        recorded.decided (set_decided engine session parameter value) Iff.rfl rfl
      rw [applyAll_next_cons, observeSettings]
      by_cases hgoes : goesOn ((contract engine).set session parameter value).result = true
      · have hrest := ih hset
        rw [List.append_assoc, List.singleton_append] at hrest
        rw [if_pos hgoes, if_pos hgoes]
        exact hrest
      · rw [if_neg hgoes, if_neg hgoes]
        exact hset

theorem synchronize (recorded : Recorded engine past session) :
    Recorded engine (past ++ [.synchronized session.synchronize.result])
      session.synchronize.next :=
  recorded.keep recorded.coherent.synchronize recorded.coherent.solution_synchronize
    (synchronize_status session) trivial rfl

theorem solveBy (recorded : Recorded engine past session) (method : SolveMethod) :
    Recorded engine
      (past ++ [.solved session.program ((contract engine).solve session method).result])
      ((contract engine).solve session method).next := by
  have hnext : ((contract engine).solve session method).next.Coherent :=
    recorded.coherent.reaches (.solve session method)
  have hsolution : ((contract engine).solve session method).next.solution = _ :=
    recorded.coherent.solution_solve method
  rcases recorded.coherent.solve_cases method with ⟨fault, hresult, hstatus, hnone⟩ |
    ⟨hresult, hproduced⟩
  · rw [hresult]
    rw [hnone] at hsolution
    exact recorded.drop hnext hsolution hstatus (fun hkeeps => hkeeps) rfl
  · rw [hresult]
    exact recorded.solve hnext hsolution hproduced

theorem move (recorded : Recorded engine past session) (move : Move) :
    Recorded engine (past ++ session.observe engine move) (session.move engine move) := by
  cases move with
  | leave program => exact recorded.opened program
  | call call =>
      cases call with
      | ingest ingestion =>
          exact recorded.decided (ingest_decided session ingestion) Iff.rfl rfl
      | request request =>
          cases request with
          | edit edit =>
              obtain ⟨program, hnext⟩ := edit_next engine session edit
              have hopened := recorded.opened program
              rw [← hnext] at hopened
              exact hopened
          | set parameter value =>
              exact recorded.decided (set_decided engine session parameter value) Iff.rfl rfl
          | apply settings => exact recorded.applyAll settings.entries
          | synchronize => exact recorded.synchronize
          | solve method => exact recorded.solveBy method

theorem follow (recorded : Recorded engine past session) (moves : List Move) :
    Recorded engine (past ++ session.events engine moves) (session.follow engine moves) := by
  induction moves generalizing session past with
  | nil =>
      rw [events, List.append_nil]
      exact recorded
  | cons move rest ih =>
      have hrest := ih (recorded.move move)
      rw [List.append_assoc] at hrest
      exact hrest

end Recorded

/-- Coherent sessions hand out the same if they hand out the same solutions. -/
theorem Coherent.solution_congr (hfirst : session.Coherent) (hsecond : next.Coherent)
    (hsame : ∀ solution, next.solution = .ok solution ↔ session.solution = .ok solution) :
    next.solution = session.solution := by
  cases hstored : session.stored with
  | some solution =>
      have hread : session.solution = .ok solution := by rw [hfirst.solution_eq, hstored]; rfl
      rw [hread, hsame, hread]
  | none =>
      have hunread : session.solution = .error .notSolved := solution_of_stored_eq_none hstored
      cases hother : next.stored with
      | none => rw [hunread, solution_of_stored_eq_none hother]
      | some solution =>
          have hread : next.solution = .ok solution := by rw [hsecond.solution_eq, hother]; rfl
          rw [hsame, hunread] at hread
          cases hread

/-- In every run a solution can be read if and only if the last event that does not keep
solutions is a solve that ended with values. It is then the solution that the engine
gives for the program of that solve, and further events that keep it, such as refused
changes, do not take it away. The status is always that of the last solve that ended. -/
theorem solution_follow_iff_current (engine : Engine) (program : Program) (moves : List Move) :
    let session := (start program).follow engine moves
    let events := (start program).events engine moves
    ((∃ solution, session.solution = .ok solution) ↔
      ∃ earlier held status later, events = earlier ++ .solved held (.ok status) :: later ∧
        status.hasSolution = true ∧ ∀ event ∈ later, event.Keeps) ∧
    (∀ earlier held status later, events = earlier ++ .solved held (.ok status) :: later →
      (∀ event ∈ later, event.Keeps) → ∀ solution, session.solution = .ok solution →
        solutionFor? engine held = some solution) ∧
    (∀ move, (∀ event ∈ session.observe engine move, event.Keeps) →
      (session.move engine move).solution = session.solution) ∧
    session.status = lastStatus events := by
  intro session events
  have recorded : Recorded engine events session := (Recorded.start program).follow moves
  refine ⟨⟨?_, ?_⟩, ?_, ?_, recorded.status⟩
  · rintro ⟨solution, hread⟩
    obtain ⟨earlier, held, status, later, heq, hstatus, hkeeps, -⟩ :=
      (recorded.readable solution).mp hread
    exact ⟨earlier, held, status, later, heq, hstatus, hkeeps⟩
  · rintro ⟨earlier, held, status, later, heq, hstatus, hkeeps⟩
    have hproduced := recorded.produced held status (by simp [heq]) hstatus
    obtain ⟨solution, hsolution⟩ := Option.isSome_iff_exists.mp hproduced
    exact ⟨solution, (recorded.readable solution).mpr
      ⟨earlier, held, status, later, heq, hstatus, hkeeps, hsolution⟩⟩
  · intro earlier held status later heq hkeeps solution hread
    rw [recorded.readable, heq, ← List.singleton_append, ← List.append_assoc,
      currentSolution_append_iff hkeeps, currentSolution_concat_iff] at hread
    rcases hread with ⟨hkeep, -⟩ | ⟨other, status', hevent, -, hsolution⟩
    · exact hkeep.elim
    · cases hevent
      exact hsolution
  · intro move hkeeps
    have hmoved := recorded.move move
    refine recorded.coherent.solution_congr hmoved.coherent fun solution => ?_
    rw [hmoved.readable, recorded.readable, currentSolution_append_iff hkeeps]

end LinProg.Session
