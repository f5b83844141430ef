/-
# Settings

A bundle of values for parameters, at most one for each. It keeps the order in which
the parameters were first set.
-/
import LinProg.Parameter.Basic

namespace LinProg

/-- Values for parameters, in the order of their first setting. -/
structure Settings where
  entries : List (Parameter × ParameterValue)
  deriving DecidableEq

namespace Settings

/-- No values. -/
def empty : Settings :=
  ⟨[]⟩

/-- Replace the value of a parameter in its place, or put it last. -/
def assign (parameter : Parameter) (value : ParameterValue) :
    List (Parameter × ParameterValue) → List (Parameter × ParameterValue)
  | [] => [(parameter, value)]
  | (other, held) :: rest =>
      if other = parameter then (other, value) :: rest
      else (other, held) :: assign parameter value rest

/-- Set a parameter. -/
def set (settings : Settings) (parameter : Parameter) (value : ParameterValue) : Settings :=
  ⟨assign parameter value settings.entries⟩

/-- Set parameters one after the other. -/
def ofList (assignments : List (Parameter × ParameterValue)) : Settings :=
  assignments.foldl (fun settings (parameter, value) => settings.set parameter value) empty

/-- The value of a parameter, if it is set. -/
def get? (settings : Settings) (parameter : Parameter) : Option ParameterValue :=
  settings.entries.lookup parameter

/-- The same parameters in the same order, with equal values. -/
def isSame (left right : Settings) : Bool :=
  left.entries == right.entries

instance : BEq Settings where
  beq := isSame

end Settings

end LinProg
