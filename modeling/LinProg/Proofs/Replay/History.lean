/-
# Codes are reported in turn

A replaying solver keeps a list of codes, a time limit, a state and a stored solution, and each
operation sets what it likes of these. The history of a run has none of them: it says only
which operations there were, whether a solve found an objective, and what each operation came
to. `Recorded` ties the two together. The time limit is the one that was accepted last. The
solves that found an objective, and that it left time, report the codes in the order of the
list, and one and the same code behind its end; the other solves take no code. The state goes
with the last operation if that was a solve of an objective; and a solution can be read exactly
while the history says so, although it stays stored for longer.

Applying a bundle of settings counts as one event for each setting. The change of a program
counts from the moment when the program is taken out.
-/
import LinProg.Proofs.Replay.Operations

namespace LinProg.Replay

/-- What happened to a replaying solver. -/
inductive Event where
  /-- The held program was taken out for a change. -/
  | opened
  /-- A value was set for a parameter, or refused. -/
  | configured (parameter : Parameter) (value : ParameterValue) (result : Except Fault Unit)
  /-- The program was synchronized, or could not be. -/
  | synchronized (result : Except Fault Unit)
  /-- A solve, of a program that has an objective or not. -/
  | solved (initialized : Bool) (result : Except Fault Status)
  deriving DecidableEq

/-- The report of a solve that found an objective, and the time limit that it had, if any. -/
structure Report where
  timeLimit? : Option Binary64
  result : Except Fault Status
  deriving DecidableEq

/-- The time limit left no time. -/
def Report.overdue (report : Report) : Bool :=
  report.timeLimit?.any fun limit => limit ≤ 0

namespace Event

/-- Events that take no solution away: synchronizations, and refused settings. -/
def Keeps : Event → Prop
  | .opened | .solved .. => False
  | .configured _ _ result => result ≠ .ok ()
  | .synchronized _ => True

/-- The time limit that was accepted. -/
def timeLimit? : Event → Option Binary64
  | .configured parameter value (.ok ()) => limitOf? parameter value
  | _ => none

/-- The report of a solve that found an objective. -/
def report? (timeLimit? : Option Binary64) : Event → Option Report
  | .solved true result => some ⟨timeLimit?, result⟩
  | _ => none

end Event

/-- The time limit that was accepted last. -/
def lastTimeLimit? (events : List Event) : Option Binary64 :=
  events.foldl (fun held event => event.timeLimit?.or held) none

/-- The reports of a history that starts with a time limit, or without one. -/
def reportsFrom (timeLimit? : Option Binary64) : List Event → List Report
  | [] => []
  | event :: rest =>
      (event.report? timeLimit?).toList ++ reportsFrom (event.timeLimit?.or timeLimit?) rest

/-- The reports of a history, the first one first. -/
def reports (events : List Event) : List Report :=
  reportsFrom none events

/-- The reports that are not due to a time limit. -/
def inTime (rules : ReplayRules) (reports : List Report) : List Report :=
  reports.filter fun report => (rules.codeFor? report.timeLimit?).isNone

/-- The last event that matters is a solve that ended with values. -/
def Current (events : List Event) : Prop :=
  ∃ earlier status later, events = earlier ++ .solved true (.ok status) :: later ∧
    status.hasSolution = true ∧ ∀ event ∈ later, event.Keeps

/-- The settings that are tried in turn. None of them ends the bundle. -/
def observeSettings (solver : Replay) : List (Parameter × ParameterValue) → List Event
  | [] => []
  | (parameter, value) :: rest =>
      let reply := contract.set solver parameter value
      .configured parameter value reply.result :: observeSettings reply.next rest

/-- The events of one move. -/
def observe (solver : Replay) : Move → List Event
  | .leave _ | .request (.edit _) => [.opened]
  | .request (.set parameter value) =>
      [.configured parameter value (contract.set solver parameter value).result]
  | .request (.apply settings) => solver.observeSettings settings.entries
  | .request .synchronize => [.synchronized solver.synchronize.result]
  | .request (.solve method) =>
      [.solved solver.program.initialized (contract.solve solver method).result]

/-- The events of a run, the first one first. -/
def events (solver : Replay) : List Move → List Event
  | [] => []
  | move :: rest => solver.observe move ++ events (solver.move move) rest

variable {rules : ReplayRules} {statuses : StatusTable} {codes : List Int}
  {past more : List Event} {event : Event} {solver next : Replay}

theorem lastTimeLimit?_concat :
    lastTimeLimit? (past ++ [event]) = event.timeLimit?.or (lastTimeLimit? past) := by
  rw [lastTimeLimit?, List.foldl_append]
  rfl

theorem exists_reports_append (past more : List Event) :
    ∃ later, reports (past ++ more) = reports past ++ later := by
  suffices hfrom : ∀ timeLimit?, ∃ later,
      reportsFrom timeLimit? (past ++ more) = reportsFrom timeLimit? past ++ later from
    hfrom none
  induction past with
  | nil => exact fun timeLimit? => ⟨reportsFrom timeLimit? more, rfl⟩
  | cons event rest ih =>
      intro timeLimit?
      obtain ⟨later, hlater⟩ := ih (event.timeLimit?.or timeLimit?)
      refine ⟨later, ?_⟩
      rw [List.cons_append, reportsFrom, hlater, reportsFrom, List.append_assoc]

/-- A solve has the time limit that was accepted last. -/
theorem reports_concat :
    reports (past ++ [event]) =
      reports past ++ (event.report? (lastTimeLimit? past)).toList := by
  suffices hfrom : ∀ timeLimit?, reportsFrom timeLimit? (past ++ [event]) =
      reportsFrom timeLimit? past ++
        (event.report? (past.foldl (fun held event => event.timeLimit?.or held)
          timeLimit?)).toList from
    hfrom none
  induction past with
  | nil => exact fun timeLimit? => by simp [reportsFrom]
  | cons first rest ih =>
      intro timeLimit?
      rw [List.cons_append, reportsFrom, ih, reportsFrom, List.append_assoc]
      rfl

theorem inTime_concat_of_some {held : List Report} {report : Report} {code : Int}
    (hcode : rules.codeFor? report.timeLimit? = some code) :
    inTime rules (held ++ [report]) = inTime rules held := by
  simp [inTime, hcode]

theorem inTime_concat_of_none {held : List Report} {report : Report}
    (hcode : rules.codeFor? report.timeLimit? = none) :
    inTime rules (held ++ [report]) = inTime rules held ++ [report] := by
  simp [inTime, hcode]

/-- The last event either keeps what was current before, or is the solve that makes it so. -/
theorem current_concat_iff :
    Current (past ++ [event]) ↔ (event.Keeps ∧ Current past) ∨
      ∃ status, event = .solved true (.ok status) ∧ status.hasSolution = true := by
  apply Iff.intro
  · rintro ⟨earlier, status, later, heq, hvalues, hkeeps⟩
    rcases List.eq_nil_or_concat later with rfl | ⟨rest, last, rfl⟩
    · obtain ⟨-, hlast⟩ := List.append_inj' heq rfl
      exact .inr ⟨status, by simpa using hlast, hvalues⟩
    · rw [List.concat_eq_append, ← List.cons_append, ← List.append_assoc] at heq
      obtain ⟨rfl, hlast⟩ := List.append_inj' heq rfl
      obtain rfl : event = last := by simpa using hlast
      exact .inl ⟨hkeeps event (by simp), earlier, status, rest, rfl, hvalues,
        fun before hmem => hkeeps before (by simp [hmem])⟩
  · rintro (⟨hkeeps, earlier, status, later, rfl, hvalues, hlater⟩ | ⟨status, rfl, hvalues⟩)
    · refine ⟨earlier, status, later ++ [event], by simp, hvalues, ?_⟩
      exact List.forall_mem_append.mpr ⟨hlater, by simpa using hkeeps⟩
    · exact ⟨past, status, [], rfl, hvalues, by simp⟩

/-- What is said of every element of a list and its position, is said of one element more. -/
theorem forall_getElem?_concat {α : Type} {holds : Nat → α → Prop} {held : List α} {last : α}
    (hheld : ∀ position element, held[position]? = some element → holds position element)
    (hlast : holds held.length last) :
    ∀ position element, (held ++ [last])[position]? = some element → holds position element := by
  intro position element helement
  rcases Nat.lt_trichotomy position held.length with hlt | rfl | hgt
  · rw [List.getElem?_append_left hlt] at helement
    exact hheld position element helement
  · rw [List.getElem?_concat_length] at helement
    cases helement
    exact hlast
  · rw [List.getElem?_eq_none (by simp; omega)] at helement
    cases helement

/-- The codes that a run reports are in the table. -/
structure Listed (rules : ReplayRules) (statuses : StatusTable) (codes : List Int)
    (events : List Event) : Prop where
  overdue : ∀ report ∈ reports events, ∀ code ∈ rules.codeFor? report.timeLimit?,
    code ∈ statuses.codes
  inTime : ∀ position < (inTime rules (reports events)).length,
    codes.getD position rules.codeAtEnd ∈ statuses.codes

theorem Listed.of_append (listed : Listed rules statuses codes (past ++ more)) :
    Listed rules statuses codes past := by
  obtain ⟨later, hlater⟩ := exists_reports_append past more
  refine ⟨fun report hmem => listed.overdue report ?_, fun position hposition => ?_⟩
  · rw [hlater]
    exact List.mem_append_left later hmem
  · apply listed.inTime
    rw [hlater, Replay.inTime, List.filter_append, List.length_append]
    exact Nat.lt_add_right _ hposition

/-! ## A solver and its history -/

/-- A solver agrees with what happened to it. -/
structure Recorded (rules : ReplayRules) (statuses : StatusTable) (codes : List Int)
    (events : List Event) (solver : Replay) : Prop where
  rules_eq : solver.rules = rules
  statuses_eq : solver.statuses = statuses
  timeLimit_eq : solver.timeLimit? = lastTimeLimit? events
  codes_eq : solver.codes = codes.drop (inTime rules (reports events)).length
  /-- Only a program with an objective is ever solved. -/
  initialized : solver.state = .solved → solver.program.initialized = true
  overdue : ∀ report ∈ reports events, ∀ code ∈ rules.codeFor? report.timeLimit?,
    statuses.Reports code report.result
  inTime : ∀ position report, (inTime rules (reports events))[position]? = some report →
    statuses.Reports (codes.getD position rules.codeAtEnd) report.result
  refused : ∀ result, .solved false result ∈ events → result = .error (.solver .notInitialized)
  state_eq : ∀ earlier result, events = earlier ++ [.solved true result] →
    solver.state = if result.isOk then .solved else .failed
  readable : solver.Readable ↔ Current events

namespace Recorded

theorem start (rules : ReplayRules) (statuses : StatusTable) (program : Program)
    (codes : List Int) :
    Recorded rules statuses codes [] (start rules statuses program codes) where
  rules_eq := rfl
  statuses_eq := rfl
  timeLimit_eq := rfl
  codes_eq := rfl
  initialized := nofun
  overdue _ hmem := by simp [reports, reportsFrom] at hmem
  inTime _ _ hreport := by simp [reports, reportsFrom, Replay.inTime] at hreport
  refused _ hmem := by simp at hmem
  state_eq _ _ heq := by simp at heq
  readable := by simp [readable_iff, Replay.start, Current]

/-- An event takes no code unless it is a solve that found an objective. What can be read
afterwards could be read before, and nothing took it away. -/
theorem pass (recorded : Recorded rules statuses codes past solver)
    (hother : ∀ initialized result, event = .solved initialized result →
      initialized = false ∧ result = .error (.solver .notInitialized))
    (hrules : next.rules = solver.rules) (hstatuses : next.statuses = solver.statuses)
    (hcodes : next.codes = solver.codes)
    (htimeLimit : next.timeLimit? = event.timeLimit?.or solver.timeLimit?)
    (hinit : next.state = .solved → next.program.initialized = true)
    (hreadable : next.Readable ↔ event.Keeps ∧ solver.Readable) :
    Recorded rules statuses codes (past ++ [event]) next := by
  have hreports : reports (past ++ [event]) = reports past := by
    rw [reports_concat]
    cases event with
    | solved initialized result =>
        obtain ⟨rfl, -⟩ := hother initialized result rfl
        exact List.append_nil _
    | _ => exact List.append_nil _
  constructor
  case rules_eq => rw [hrules, recorded.rules_eq]
  case statuses_eq => rw [hstatuses, recorded.statuses_eq]
  case timeLimit_eq => rw [htimeLimit, recorded.timeLimit_eq, lastTimeLimit?_concat]
  case codes_eq => rw [hcodes, recorded.codes_eq, hreports]
  case initialized => exact hinit
  case overdue =>
    rw [hreports]
    exact recorded.overdue
  case inTime =>
    rw [hreports]
    exact recorded.inTime
  case refused =>
    intro result hmem
    rcases List.mem_append.mp hmem with hmem | hmem
    · exact recorded.refused result hmem
    · exact (hother false result (List.mem_singleton.mp hmem).symm).2
  case state_eq =>
    intro earlier result heq
    obtain ⟨-, hlast⟩ := List.append_inj' heq rfl
    cases (hother true result (List.singleton_inj.mp hlast)).1
  case readable =>
    rw [hreadable, recorded.readable, current_concat_iff]
    refine ⟨.inl, ?_⟩
    rintro (hcurrent | ⟨status, hsolved, -⟩)
    · exact hcurrent
    · cases (hother true _ hsolved).1

/-- Whatever program is left, a change has begun. -/
theorem opened (recorded : Recorded rules statuses codes past solver) (program : Program) :
    Recorded rules statuses codes (past ++ [.opened])
      ({ solver.expectChange with program } : Replay) :=
  recorded.pass (fun _ _ => nofun) rfl rfl rfl rfl nofun
    (iff_of_false (not_readable_opened solver program) fun hkeeps => hkeeps.1)

theorem set (recorded : Recorded rules statuses codes past solver) (parameter : Parameter)
    (value : ParameterValue) :
    Recorded rules statuses codes
      (past ++ [.configured parameter value (contract.set solver parameter value).result])
      (contract.set solver parameter value).next := by
  rcases set_cases solver parameter value with ⟨hresult, hnext⟩ | ⟨⟨kind, hresult⟩, hnext⟩
  · rw [hresult, hnext]
    refine recorded.pass (fun _ _ => nofun) rfl rfl rfl rfl ?_ ?_
    · cases solver.state <;> nofun
    · exact iff_of_false (not_readable_configured solver _) fun hkeeps => hkeeps.1 rfl
  · rw [hresult, hnext]
    exact recorded.pass (fun _ _ => nofun) rfl rfl rfl rfl recorded.initialized
      (and_iff_right (show Event.Keeps (.configured _ _ (.error _)) from nofun)).symm

theorem applyAll (recorded : Recorded rules statuses codes past solver)
    (settings : List (Parameter × ParameterValue)) :
    Recorded rules statuses codes (past ++ solver.observeSettings settings)
      (contract.applyAll solver settings).next := by
  induction settings generalizing solver past with
  | nil =>
      rw [observeSettings, List.append_nil]
      exact recorded
  | cons setting rest ih =>
      have hrest := ih (recorded.set setting.1 setting.2)
      rw [List.append_assoc, List.singleton_append] at hrest
      rw [applyAll_next_cons, observeSettings]
      exact hrest

theorem synchronize (recorded : Recorded rules statuses codes past solver) :
    Recorded rules statuses codes (past ++ [.synchronized solver.synchronize.result])
      solver.synchronize.next := by
  obtain ⟨state, hnext, hsolved⟩ := synchronize_next solver
  rw [hnext]
  refine recorded.pass (fun _ _ => nofun) rfl rfl rfl rfl ?_ ?_
  · exact fun hstate => recorded.initialized (hsolved.mp hstate)
  · rw [and_iff_right (show Event.Keeps (.synchronized _) from trivial), readable_iff,
      readable_iff, hsolved]

/-- A solve without an objective leaves everything as it was, and there was nothing to read. -/
theorem solve_uninitialized (recorded : Recorded rules statuses codes past solver)
    (hinit : solver.program.initialized = false) :
    Recorded rules statuses codes
      (past ++ [.solved false (.error (.solver .notInitialized))]) solver := by
  refine recorded.pass ?_ rfl rfl rfl rfl recorded.initialized ?_
  · rintro _ _ ⟨⟩
    exact ⟨rfl, rfl⟩
  · refine iff_of_false (fun hread => ?_) fun hkeeps => hkeeps.1
    have hsolved := recorded.initialized ((readable_iff solver).mp hread).1
    rw [hinit] at hsolved
    cases hsolved

/-- The next code is one for the time limit that was accepted last, and then the list stays, or
it is the next one of those that are not yet taken. -/
theorem nextCode_cases (recorded : Recorded rules statuses codes past solver) :
    (∃ code, rules.codeFor? (lastTimeLimit? past) = some code ∧
        solver.nextCode = (code, solver.codes)) ∨
      (rules.codeFor? (lastTimeLimit? past) = none ∧
        solver.nextCode =
          (codes.getD (Replay.inTime rules (reports past)).length rules.codeAtEnd,
            solver.codes.tail)) := by
  rw [nextCode, recorded.rules_eq, recorded.timeLimit_eq]
  cases rules.codeFor? (lastTimeLimit? past) with
  | some code => exact .inl ⟨code, rfl, rfl⟩
  | none =>
      refine .inr ⟨rfl, ?_⟩
      rw [recorded.codes_eq, List.headD_eq_head?_getD, List.head?_drop,
        List.getD_eq_getElem?_getD]

/-- A solve that reported the next code. -/
theorem took (recorded : Recorded rules statuses codes past solver)
    (hinit : solver.program.initialized = true) {reply : Reply Replay Status}
    (took : solver.Took reply) :
    Recorded rules statuses codes (past ++ [.solved true reply.result]) reply.next := by
  have hreports : reports (past ++ [.solved true reply.result]) =
      reports past ++ [⟨lastTimeLimit? past, reply.result⟩] :=
    reports_concat
  have hreported := took.reports
  rw [recorded.statuses_eq] at hreported
  constructor
  case rules_eq => rw [took.rules, recorded.rules_eq]
  case statuses_eq => rw [took.statuses, recorded.statuses_eq]
  case timeLimit_eq =>
    rw [took.timeLimit, lastTimeLimit?_concat]
    exact recorded.timeLimit_eq
  case codes_eq =>
    rw [took.codes, hreports]
    rcases recorded.nextCode_cases with ⟨code, hcode, hnext⟩ | ⟨hcode, hnext⟩
    · rw [hnext, inTime_concat_of_some hcode]
      exact recorded.codes_eq
    · rw [hnext, inTime_concat_of_none hcode, List.length_append, List.length_singleton,
        recorded.codes_eq, List.tail_drop]
  case initialized =>
    rw [took.program]
    exact fun _ => hinit
  case overdue =>
    rw [hreports]
    refine List.forall_mem_append.mpr ⟨recorded.overdue, List.forall_mem_singleton.mpr ?_⟩
    intro code hcode
    rcases recorded.nextCode_cases with ⟨other, hother, hnext⟩ | ⟨hnone, -⟩
    · obtain rfl : other = code := Option.some.inj (hother.symm.trans hcode)
      rw [hnext] at hreported
      exact hreported
    · rw [hnone] at hcode
      cases hcode
  case inTime =>
    rw [hreports]
    rcases recorded.nextCode_cases with ⟨code, hcode, -⟩ | ⟨hcode, hnext⟩
    · rw [inTime_concat_of_some hcode]
      exact recorded.inTime
    · rw [inTime_concat_of_none hcode]
      rw [hnext] at hreported
      exact forall_getElem?_concat recorded.inTime hreported
  case refused =>
    intro result hmem
    rcases List.mem_append.mp hmem with hmem | hmem
    · exact recorded.refused result hmem
    · cases List.mem_singleton.mp hmem
  case state_eq =>
    intro earlier result heq
    obtain ⟨-, hlast⟩ := List.append_inj' heq rfl
    cases List.singleton_inj.mp hlast
    exact took.state
  case readable =>
    rw [took.readable, current_concat_iff]
    apply Iff.intro
    · rintro ⟨status, hok, hvalues⟩
      exact .inr ⟨status, by rw [hok], hvalues⟩
    · rintro (⟨hkeeps, -⟩ | ⟨status, hsolved, hvalues⟩)
      · exact hkeeps.elim
      · exact ⟨status, (Event.solved.inj hsolved).2, hvalues⟩

theorem solve (recorded : Recorded rules statuses codes past solver) (method : SolveMethod)
    (listed : Listed rules statuses codes (past ++
      [.solved solver.program.initialized (contract.solve solver method).result])) :
    Recorded rules statuses codes
      (past ++ [.solved solver.program.initialized (contract.solve solver method).result])
      (contract.solve solver method).next := by
  cases hinit : solver.program.initialized with
  | false =>
      rw [solve_of_uninitialized solver hinit]
      exact recorded.solve_uninitialized hinit
  | true =>
      let report : Report := ⟨lastTimeLimit? past, (contract.solve solver method).result⟩
      have hreports : reports (past ++ [.solved true report.result]) =
          reports past ++ [report] :=
        reports_concat
      rw [hinit] at listed
      apply recorded.took hinit
      apply solve_took solver hinit
      rw [recorded.statuses_eq]
      rcases recorded.nextCode_cases with ⟨code, hcode, hnext⟩ | ⟨hcode, hnext⟩
      · rw [hnext]
        refine listed.overdue report ?_ code hcode
        rw [hreports]
        exact List.mem_append_right _ List.mem_cons_self
      · rw [hnext]
        apply listed.inTime
        rw [hreports, @inTime_concat_of_none rules _ report hcode]
        simp

theorem move (recorded : Recorded rules statuses codes past solver) (move : Move)
    (listed : Listed rules statuses codes (past ++ solver.observe move)) :
    Recorded rules statuses codes (past ++ solver.observe move) (solver.move move) := by
  cases move with
  | leave program => exact recorded.opened program
  | request request =>
      cases request with
      | edit edit =>
          obtain ⟨program, hnext⟩ := edit_next solver edit
          have hopened := recorded.opened program
          rw [← hnext] at hopened
          exact hopened
      | set parameter value => exact recorded.set parameter value
      | apply settings => exact recorded.applyAll settings.entries
      | synchronize => exact recorded.synchronize
      | solve method => exact recorded.solve method listed

theorem follow (recorded : Recorded rules statuses codes past solver) (moves : List Move)
    (listed : Listed rules statuses codes (past ++ solver.events moves)) :
    Recorded rules statuses codes (past ++ solver.events moves) (solver.follow moves) := by
  induction moves generalizing solver past with
  | nil =>
      rw [events, List.append_nil]
      exact recorded
  | cons first rest ih =>
      rw [events, ← List.append_assoc] at listed ⊢
      exact ih (recorded.move first listed.of_append) listed

end Recorded

/-! ## Rules of Gurobi -/

/-- Only a report without time has a code of its own, which is that of a time limit. -/
theorem codeFor?_gurobi (parameters : ParameterTable) (report : Report) :
    ReplayRules.codeFor? { ReplayRules.gurobi with parameters } report.timeLimit? =
      if report.overdue then some 9 else none := by
  rw [Report.overdue]
  cases report.timeLimit? with
  | none => rfl
  | some limit => simp [ReplayRules.codeFor?, ReplayRules.gurobi]

theorem inTime_gurobi (parameters : ParameterTable) (reports : List Report) :
    inTime { ReplayRules.gurobi with parameters } reports =
      reports.filter fun report => !report.overdue := by
  refine List.filter_congr fun report _ => ?_
  rw [codeFor?_gurobi]
  cases report.overdue <;> rfl

/-- Two codes come from the rules, and the others from the list. -/
theorem listed_gurobi {parameters : ParameterTable} {events : List Event}
    (hoverdue : ∀ report ∈ reports events, report.overdue → 9 ∈ statuses.codes)
    (hinTime : ∀ position < ((reports events).filter fun report => !report.overdue).length,
      codes.getD position 2 ∈ statuses.codes) :
    Listed { ReplayRules.gurobi with parameters } statuses codes events := by
  refine ⟨fun report hmem code hcode => ?_, ?_⟩
  · rw [codeFor?_gurobi] at hcode
    cases hdue : report.overdue with
    | false => simp [hdue] at hcode
    | true =>
        obtain rfl : 9 = code := by simpa [hdue] using hcode
        exact hoverdue report hmem hdue
  · rw [inTime_gurobi]
    exact hinTime

/-- In every run that reports listed codes only, and whatever parameters can be set, the solves
that found an objective report the codes in turn, each by the first entry of the table for it,
and the code of an optimum once the list is used up. As long as the time limit that was accepted
last is at most zero, they report the code of a time limit instead and take no code. The other
solves are refused and take no code either. After a solve the state tells whether it ended with
a status or with a failure. A solution can be read if and only if the last solve ended with
values, and since then the program was not taken out and no setting was accepted. -/
theorem reports_follow_codes (parameters : ParameterTable) (statuses : StatusTable)
    (program : Program) (codes : List Int) (moves : List Move) :
    let first := start { ReplayRules.gurobi with parameters } statuses program codes
    let solver := first.follow moves
    let events := first.events moves
    let inTime := (reports events).filter fun report => !report.overdue
    (∀ report ∈ reports events, report.overdue → 9 ∈ statuses.codes) →
      (∀ position < inTime.length, codes.getD position 2 ∈ statuses.codes) →
        (∀ report ∈ reports events, report.overdue → statuses.Reports 9 report.result) ∧
        (∀ position report, inTime[position]? = some report →
          statuses.Reports (codes.getD position 2) report.result) ∧
        (∀ result, .solved false result ∈ events → result = .error (.solver .notInitialized)) ∧
        solver.codes = codes.drop inTime.length ∧
        (∀ earlier result, events = earlier ++ [.solved true result] →
          solver.state = if result.isOk then .solved else .failed) ∧
        ((∃ solution, solver.solution = .ok solution) ↔
          ∃ earlier status later, events = earlier ++ .solved true (.ok status) :: later ∧
            status.hasSolution = true ∧ ∀ event ∈ later, event.Keeps) := by
  intro first solver events inTime hoverdue hinTime
  have recorded : Recorded { ReplayRules.gurobi with parameters } statuses codes events solver :=
    (Recorded.start _ statuses program codes).follow moves (listed_gurobi hoverdue hinTime)
  have hinTimeEq := inTime_gurobi parameters (reports events)
  refine ⟨fun report hmem hdue => recorded.overdue report hmem 9 ?_, ?_, recorded.refused, ?_,
    recorded.state_eq, recorded.readable⟩
  · rw [codeFor?_gurobi, hdue]
    rfl
  · have hreported := recorded.inTime
    rw [hinTimeEq] at hreported
    exact hreported
  · have hleft := recorded.codes_eq
    rw [hinTimeEq] at hleft
    exact hleft

/-- A solve comes too early, one fails, one has no time and takes no code, one has the first of
two entries for its code, and one comes after the end of the list. Refused settings and a
synchronization take nothing away. -/
theorem reports_follow_codes_past_end :
    let statuses : StatusTable := ⟨"scripted", [(7, .status .suboptimalSolution),
      (10001, .failure "out of memory"), (7, .failure "too late"), (2, .status .optimal),
      (9, .status .timeOut)]⟩
    let codes : List Int := [10001, 7]
    let first := start .gurobi statuses (.empty .minimize) codes
    let moves : List Move := [.request (.solve .dual),
      .request (.edit (.setObjective ⟨[⟨0, .real⟩]⟩)), .request (.solve .standard),
      .request (.set .timeLimit (.real 0)), .request (.solve .primal),
      .request (.set .timeLimit (.real .posInf)), .request (.solve .dual),
      .request (.set .timeLimit (.integer 0)), .request (.solve .primal),
      .request (.set .verbosity (.real 0)), .request .synchronize]
    let solver := first.follow moves
    let events := first.events moves
    let inTime := (reports events).filter fun report => !report.overdue
    let failure := SolverError.engineFailure "scripted" 10001 "out of memory"
    (reports events = [⟨none, .error (.solver failure)⟩, ⟨some 0, .ok .timeOut⟩,
        ⟨some .posInf, .ok .suboptimalSolution⟩, ⟨some .posInf, .ok .optimal⟩]) ∧
      (∀ report ∈ reports events, report.overdue → 9 ∈ statuses.codes) ∧
      (∀ position < inTime.length, codes.getD position 2 ∈ statuses.codes) ∧
      (statuses.Reports 10001 (.error (.solver failure)) ∧ statuses.Reports 9 (.ok .timeOut) ∧
        statuses.Reports 7 (.ok .suboptimalSolution) ∧ statuses.Reports 2 (.ok .optimal)) ∧
      solver.codes = [] ∧ ∃ solution, solver.solution = .ok solution := by
  intro statuses codes first moves solver events inTime failure
  have hevents : events =
      [.solved false (.error (.solver .notInitialized)), .opened,
          .solved true (.error (.solver failure)), .configured .timeLimit (.real 0) (.ok ()),
          .solved true (.ok .timeOut), .configured .timeLimit (.real .posInf) (.ok ()),
          .solved true (.ok .suboptimalSolution),
          .configured .timeLimit (.integer 0)
            (.error (.solver (.unsupportedParameter .timeLimit .integer)))] ++
        .solved true (.ok .optimal) ::
          [.configured .verbosity (.real 0)
              (.error (.solver (.unsupportedParameter .verbosity .real))),
            .synchronized (.ok ())] := by
    decide +kernel
  have hreports : reports events = [⟨none, .error (.solver failure)⟩, ⟨some 0, .ok .timeOut⟩,
      ⟨some .posInf, .ok .suboptimalSolution⟩, ⟨some .posInf, .ok .optimal⟩] := by
    decide +kernel
  have hinTime : inTime = [⟨none, .error (.solver failure)⟩,
      ⟨some .posInf, .ok .suboptimalSolution⟩, ⟨some .posInf, .ok .optimal⟩] := by
    decide +kernel
  have hoverdue : ∀ report ∈ reports events, report.overdue → 9 ∈ statuses.codes := by
    simp [statuses, StatusTable.codes]
  have hlisted : ∀ position < inTime.length, codes.getD position 2 ∈ statuses.codes := by
    rw [hinTime]
    decide
  have hcurrent : Current events := ⟨_, _, _, hevents, rfl, by simp [Event.Keeps]⟩
  obtain ⟨hlate, hreported, -, hcodes, -, hreadable⟩ := reports_follow_codes
    Backend.gurobi.parameterTable statuses (.empty .minimize) codes moves hoverdue hlisted
  change ∀ position report, inTime[position]? = some report → _ at hreported
  change solver.codes = codes.drop inTime.length at hcodes
  have hmem : ⟨some 0, .ok .timeOut⟩ ∈ reports events := by
    rw [hreports]
    simp
  have htimeOut := hlate ⟨some 0, .ok .timeOut⟩ hmem (by decide +kernel)
  rw [hinTime] at hreported hcodes
  exact ⟨hreports, hoverdue, hlisted, ⟨hreported 0 _ rfl, htimeOut, hreported 1 _ rfl,
    hreported 2 _ rfl⟩, hcodes, hreadable.mpr hcurrent⟩

/-- With a time limit of zero, a solve does not report the first code and leaves it in the list.
Behind the end of the list, a solve does not report the code zero. -/
theorem reports_not_in_turn :
    let statuses : StatusTable := ⟨"scripted", [(0, .status .unbounded), (2, .status .optimal),
      (3, .status .infeasible), (9, .status .timeOut)]⟩
    let codes : List Int := [3]
    let first := start .gurobi statuses (.ofObjective .minimize [] ⟨[⟨0, .real⟩]⟩) codes
    let moves : List Move := [.request (.set .timeLimit (.real 0)), .request (.solve .standard),
      .request (.set .timeLimit (.real .posInf)), .request (.solve .primal),
      .request (.solve .dual)]
    let results := (reports (first.events moves)).map Report.result
    (∀ position < results.length, codes.getD position 0 ∈ statuses.codes) ∧
      results = [.ok .timeOut, .ok .infeasible, .ok .optimal] ∧
      ¬ statuses.Reports (codes.getD 0 0) (.ok .timeOut) ∧
      (first.follow (moves.take 2)).codes = codes ∧
      ¬ statuses.Reports (codes.getD 2 0) (.ok .optimal) := by
  intro statuses codes first moves results
  have hresults : results = [.ok .timeOut, .ok .infeasible, .ok .optimal] := by
    decide +kernel
  refine ⟨?_, hresults, ?_, ?_, ?_⟩
  · rw [hresults]
    decide
  · intro hreports
    cases hreports.status_eq
  · decide +kernel
  · intro hreports
    cases hreports.status_eq

end LinProg.Replay
