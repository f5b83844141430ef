/-
# Objectives

An objective lists, for each variable, its coefficient and its type, so there is
always one type for one coefficient.
-/
import LinProg.Program.Variable
import LinProg.Listing

namespace LinProg

/-- The coefficient of a variable in the objective, and its type. -/
structure ObjectiveTerm where
  coefficient : Binary64
  type : VariableType
  deriving DecidableEq

/-- Equal coefficients and the same type. -/
def ObjectiveTerm.isSame (left right : ObjectiveTerm) : Bool :=
  left.coefficient == right.coefficient && left.type == right.type

instance : BEq ObjectiveTerm where
  beq := ObjectiveTerm.isSame

/-- The term that a new variable starts with. -/
def ObjectiveTerm.absent : ObjectiveTerm :=
  ⟨0, .real⟩

/-- One term for each variable. -/
structure Objective where
  terms : List ObjectiveTerm
  deriving DecidableEq

namespace Objective

/-- An objective without variables. -/
def empty : Objective :=
  ⟨[]⟩

/-- An objective over real variables. -/
def ofReals (coefficients : List Binary64) : Objective :=
  ⟨coefficients.map fun coefficient => ⟨coefficient, .real⟩⟩

/-- Pair coefficients with types, of which there have to be equally many. -/
def ofLists? (coefficients : List Binary64) (types : List VariableType) :
    Except InputError Objective :=
  if coefficients.length = types.length then
    .ok ⟨coefficients.zipWith ObjectiveTerm.mk types⟩
  else
    .error (.lengthMismatch coefficients.length types.length)

/-- Coefficients by variable. -/
def coefficients (objective : Objective) : List Binary64 :=
  objective.terms.map ObjectiveTerm.coefficient

/-- Types by variable. -/
def types (objective : Objective) : List VariableType :=
  objective.terms.map ObjectiveTerm.type

/-- Number of variables. -/
def size (objective : Objective) : Nat :=
  objective.terms.length

/-- Replace the coefficient of a variable, if there is such a variable. -/
def setCoefficient? (objective : Objective) (position : Nat) (coefficient : Binary64) :
    Option Objective :=
  objective.terms[position]?.map fun term =>
    ⟨objective.terms.set position { term with coefficient }⟩

/-- Replace the type of a variable, if there is such a variable. -/
def setType? (objective : Objective) (position : Nat) (type : VariableType) :
    Option Objective :=
  objective.terms[position]?.map fun term => ⟨objective.terms.set position { term with type }⟩

/-- Equal terms in the same order. -/
def isSame (left right : Objective) : Bool :=
  left.terms == right.terms

instance : BEq Objective where
  beq := isSame

/-- Coefficients with types, in brackets. -/
def text (objective : Objective) : String :=
  bracketed (objective.terms.map fun term => s!"{term.coefficient.text} {term.type.text}")

end Objective

end LinProg
