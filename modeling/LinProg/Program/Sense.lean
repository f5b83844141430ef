/-
# Direction of optimization
-/

namespace LinProg

/-- Whether small or large objective values are wanted. -/
inductive Sense where
  | minimize
  | maximize
  deriving DecidableEq

/-- Word in messages. -/
def Sense.text : Sense → String
  | .minimize => "minimize"
  | .maximize => "maximize"

end LinProg
