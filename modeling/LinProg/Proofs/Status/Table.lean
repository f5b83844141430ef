/-
# Status tables by their first entries

A status table is searched for a code from the front. What it reports for a code that it
lists is therefore said by the first entry for the code, whatever entries come later.
-/
import LinProg.Proofs.Lookup
import LinProg.Status.Table

namespace LinProg

/-- What is reported for a code with this meaning. A failure carries the name of the backend,
the code as it came, and the description in the table. -/
def CodeMeaning.report (backend : String) (code : Int) : CodeMeaning → Except Fault Status
  | .status ending => .ok ending
  | .failure description => .error (.solver (.engineFailure backend code description))

namespace StatusTable

variable {table : StatusTable} {code : Int}

/-- The first entry for the code reports the result. -/
def Reports (table : StatusTable) (code : Int) (result : Except Fault Status) : Prop :=
  ∃ before meaning after, table.entries = before ++ (code, meaning) :: after ∧
    (∀ entry ∈ before, entry.1 ≠ code) ∧ result = meaning.report table.backend code

/-- A listed code has a meaning. -/
theorem exists_meaning? (hlisted : code ∈ table.codes) :
    ∃ meaning, table.meaning? code = some meaning := by
  apply Option.ne_none_iff_exists'.mp
  intro hnone
  exact lookup_eq_none_iff_notMem.mp hnone hlisted

theorem status_of_meaning? {meaning : CodeMeaning} (hmeaning : table.meaning? code = some meaning) :
    table.status code = meaning.report table.backend code := by
  cases meaning <;> simp [status, statusWith, hmeaning, CodeMeaning.report]

theorem reports_of_meaning? {meaning : CodeMeaning}
    (hmeaning : table.meaning? code = some meaning) :
    table.Reports code (meaning.report table.backend code) := by
  obtain ⟨before, after, hentries, hbefore⟩ := List.lookup_eq_some_iff.mp hmeaning
  refine ⟨before, meaning, after, hentries, ?_, rfl⟩
  intro entry hmem heq
  simpa [heq] using hbefore entry hmem

/-- What is reported for a code is the status of the code. -/
theorem Reports.status_eq {result : Except Fault Status} (reports : table.Reports code result) :
    table.status code = result := by
  obtain ⟨before, meaning, after, hentries, hbefore, rfl⟩ := reports
  refine status_of_meaning? (List.lookup_eq_some_iff.mpr ⟨before, after, hentries, ?_⟩)
  intro entry hmem
  simpa using Ne.symm (hbefore entry hmem)

end StatusTable

end LinProg
