/-
# Parameter tables

A table says under which key a backend knows a parameter, which kind of value is
offered for it, and which kind the backend stores.
-/
import LinProg.SolverError

namespace LinProg

/-- How a backend identifies a parameter. -/
inductive EngineKey where
  | name (text : String)
  | number (id : Int)
  deriving DecidableEq

/-- The entry of a supported parameter. -/
structure ParameterKey where
  key : EngineKey
  /-- Kind of the values that callers offer. -/
  offered : ValueKind
  /-- Kind of the values that the backend stores. -/
  stored : ValueKind
  deriving DecidableEq

namespace ParameterKey

/-- Integers, stored as integers. -/
def integer (key : EngineKey) : ParameterKey :=
  ⟨key, .integer, .integer⟩

/-- Real numbers, stored as real numbers. -/
def real (key : EngineKey) : ParameterKey :=
  ⟨key, .real, .real⟩

/-- Integers, stored as real numbers. -/
def integerAsReal (key : EngineKey) : ParameterKey :=
  ⟨key, .integer, .real⟩

end ParameterKey

/-- The parameters of one backend. -/
structure ParameterTable where
  backend : String
  key? : Parameter → Option ParameterKey

namespace ParameterTable

/-- A table without parameters. -/
def empty (backend : String) : ParameterTable :=
  ⟨backend, fun _ => none⟩

/-- Add a parameter, or replace its entry. -/
def insert (table : ParameterTable) (parameter : Parameter) (key : ParameterKey) :
    ParameterTable :=
  { table with key? := fun asked => if asked = parameter then some key else table.key? asked }

/-- The entries in order, later ones replacing earlier ones. -/
def ofList (backend : String) (entries : List (Parameter × ParameterKey)) : ParameterTable :=
  entries.foldl (fun table (parameter, key) => table.insert parameter key) (empty backend)

/-- The entry of a parameter for values of a kind. -/
def lookup (table : ParameterTable) (parameter : Parameter) (kind : ValueKind) :
    Except SolverError ParameterKey :=
  match table.key? parameter with
  | some key =>
      if key.offered = kind then .ok key else .error (.unsupportedParameter parameter kind)
  | none => .error (.unsupportedParameter parameter kind)

/-- Whether values of a kind can be set. -/
def supports (table : ParameterTable) (parameter : Parameter) (kind : ValueKind) : Bool :=
  (table.lookup parameter kind).isOk

/-- All supported parameters with their entries. -/
def supported (table : ParameterTable) : List (Parameter × ParameterKey) :=
  Parameter.all.filterMap fun parameter => (table.key? parameter).map fun key => (parameter, key)

end ParameterTable

end LinProg
