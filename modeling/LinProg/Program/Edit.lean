/-
# Edits of programs

Every change of a program is one `Edit`. An edit either happens as a whole or is
refused and changes nothing. It is refused for a position that the program does not
have, and where its data breaks a rule of the program.
-/
import LinProg.Program.Basic

namespace LinProg

/-- A change of a program. -/
inductive Edit where
  /-- Change nothing. -/
  | touch
  | setSense (sense : Sense)
  /-- Append variables that are real and absent from the objective. -/
  | addVariables (added : List Variable)
  /-- Take a variable out, with its objective term and its column. -/
  | removeVariable (position : Nat)
  | setVariable (position : Nat) (bounds : Variable)
  | addConstraints (added : List Constraint)
  | removeConstraint (position : Nat)
  /-- Take several constraints out at once; repeated positions count once. -/
  | removeConstraints (positions : List Nat)
  | setConstraint (position : Nat) (constraint : Constraint)
  | setRange (position : Nat) (lower upper : Binary64)
  /-- Store a further term in the row of a constraint. -/
  | pushTerm (position : Nat) (index : Nat) (value : Binary64)
  /-- Replace a stored coefficient, given by its place in storage order. -/
  | setTerm (position : Nat) (place : Nat) (value : Binary64)
  /-- Replace the objective and append nonnegative variables for its further terms. -/
  | setObjective (objective : Objective)
  | setCoefficient (position : Nat) (coefficient : Binary64)
  | setType (position : Nat) (type : VariableType)
  deriving DecidableEq

/-- Why an edit was refused. -/
inductive EditError where
  /-- The data of the edit breaks a rule. -/
  | invalid (error : InputError)
  /-- The program has nothing at the position. -/
  | outOfRange
  deriving DecidableEq

namespace Program

/-- Change one constraint, if there is such a constraint. -/
def modifyConstraint (program : Program) (position : Nat)
    (change : Constraint → Except EditError Constraint) : Except EditError Program :=
  match program.constraints[position]? with
  | none => .error .outOfRange
  | some constraint =>
      (change constraint).map fun changed =>
        { program with constraints := program.constraints.set position changed }

/-- Append variables that are real and absent from the objective. -/
def addVariables (program : Program) (added : List Variable) : Program :=
  { program with
    vars := program.vars ++ added
    objective := ⟨program.objective.terms ++ List.replicate added.length .absent⟩ }

/-- Append constraints. -/
def addConstraints (program : Program) (added : List Constraint) : Program :=
  { program with constraints := program.constraints ++ added }

/-- Take a variable out. In the rows, later variables move down by one. -/
def removeVariable (program : Program) (position : Nat) : Except EditError Program :=
  if position < program.vars.length then
    .ok { program with
      vars := program.vars.eraseIdx position
      objective := ⟨program.objective.terms.eraseIdx position⟩
      constraints := program.constraints.map fun constraint =>
        { constraint with row := constraint.row.removeIndex position } }
  else .error .outOfRange

/-- Take one constraint out. -/
def removeConstraint (program : Program) (position : Nat) : Except EditError Program :=
  if position < program.constraints.length then
    .ok { program with constraints := program.constraints.eraseIdx position }
  else .error .outOfRange

/-- Elements whose positions are not listed. -/
def dropPositions {α : Type} (elements : List α) (positions : List Nat) : List α :=
  (elements.zipIdx.filter fun (_, position) => !positions.contains position).map Prod.fst

/-- Take several constraints out by a function that deletes at increasing positions, all of
them counted before the removal. The last of these tells whether there are so many. -/
def removeConstraintsBy (delete : List Constraint → List Nat → List Constraint)
    (program : Program) (positions : List Nat) : Except EditError Program :=
  let listed := increasing positions
  if listed.getLast?.all fun last => last < program.constraints.length then
    .ok { program with constraints := delete program.constraints listed }
  else .error .outOfRange

/-- Take several constraints out. -/
def removeConstraints (program : Program) (positions : List Nat) : Except EditError Program :=
  program.removeConstraintsBy dropPositions positions

/-- Replace the objective. It must not be shorter than the list of variables, which
grows to its length by nonnegative variables. -/
def setObjective (program : Program) (objective : Objective) : Except InputError Program :=
  if objective.size < program.vars.length then
    .error (.lengthMismatch program.vars.length objective.size)
  else
    .ok { program with
      objective, initialized := true
      vars := program.vars ++
        List.replicate (objective.size - program.vars.length) .nonnegative }

/-- The objective changed in one term, if the program has that term. -/
def withObjective (program : Program) (objective : Option Objective) :
    Except EditError Program :=
  match objective with
  | some objective => .ok { program with objective }
  | none => .error .outOfRange

/-- Carry out an edit. -/
def edit (program : Program) : Edit → Except EditError Program
  | .touch => .ok program
  | .setSense sense => .ok { program with sense }
  | .addVariables added => .ok (program.addVariables added)
  | .removeVariable position => program.removeVariable position
  | .setVariable position bounds =>
      if position < program.vars.length then
        .ok { program with vars := program.vars.set position bounds }
      else .error .outOfRange
  | .addConstraints added => .ok (program.addConstraints added)
  | .removeConstraint position => program.removeConstraint position
  | .removeConstraints positions => program.removeConstraints positions
  | .setConstraint position constraint =>
      program.modifyConstraint position fun _ => .ok constraint
  | .setRange position lower upper =>
      program.modifyConstraint position fun constraint => .ok { constraint with lower, upper }
  | .pushTerm position index value =>
      program.modifyConstraint position fun constraint =>
        match constraint.row.push? index value with
        | .ok row => .ok { constraint with row }
        | .error error => .error (.invalid error)
  | .setTerm position place value =>
      program.modifyConstraint position fun constraint =>
        match constraint.row.setValue? place value with
        | some row => .ok { constraint with row }
        | none => .error .outOfRange
  | .setObjective objective =>
      match program.setObjective objective with
      | .ok changed => .ok changed
      | .error error => .error (.invalid error)
  | .setCoefficient position coefficient =>
      program.withObjective (program.objective.setCoefficient? position coefficient)
  | .setType position type =>
      program.withObjective (program.objective.setType? position type)

end Program

end LinProg
