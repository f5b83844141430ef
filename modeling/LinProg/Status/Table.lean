/-
# Status tables

A backend reports how a solve ended as an integer code. Its table says what each
code means: a status, or a failure of the backend.
-/
import LinProg.Fault
import LinProg.Status.Basic

namespace LinProg

/-- What a code stands for. -/
inductive CodeMeaning where
  | status (status : Status)
  | failure (description : String)
  deriving DecidableEq

/-- The codes of one backend. -/
structure StatusTable where
  backend : String
  entries : List (Int × CodeMeaning)
  deriving DecidableEq

namespace StatusTable

/-- All codes, in table order. -/
def codes (table : StatusTable) : List Int :=
  table.entries.map Prod.fst

/-- Meaning by the first entry for a code. -/
def meaning? (table : StatusTable) (code : Int) : Option CodeMeaning :=
  table.entries.lookup code

/-- The status for a code. A failure becomes an error whose message is made from the
description in the table. -/
def statusWith (table : StatusTable) (code : Int) (describe : String → String) :
    Except Fault Status :=
  match table.meaning? code with
  | some (.status status) => .ok status
  | some (.failure description) =>
      .error (.solver (.engineFailure table.backend code (describe description)))
  | none => .error (.unlistedCode table.backend code)

/-- The status for a code. -/
def status (table : StatusTable) (code : Int) : Except Fault Status :=
  table.statusWith code fun description => description

end StatusTable

end LinProg
