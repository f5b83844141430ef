/-
# Lists in text

Every list that this library writes is bracketed, its elements separated by a
comma and a space.
-/

namespace LinProg

/-- Elements in brackets. -/
def bracketed (elements : List String) : String :=
  "[" ++ ", ".intercalate elements ++ "]"

/-- Lines that each end with a line break. -/
def lines (texts : List String) : String :=
  String.join (texts.map fun text => text ++ "\n")

end LinProg
