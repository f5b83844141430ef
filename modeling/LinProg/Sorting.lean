/-
# Lists in order

Elements are sorted by a number that each of them has as its key. Numbers in order have
their repetitions side by side, where they are easily dropped.
-/

namespace LinProg

/-- Put an element before the first one with a key that is not smaller. -/
def insertByKey {α : Type} (key : α → Nat) (element : α) : List α → List α
  | [] => [element]
  | first :: rest =>
      if key element ≤ key first then element :: first :: rest
      else first :: insertByKey key element rest

/-- The elements by increasing keys. -/
def sortByKey {α : Type} (key : α → Nat) (elements : List α) : List α :=
  elements.foldr (insertByKey key) []

/-- One of each run of equal neighbours. -/
def dropRepeats : List Nat → List Nat
  | first :: second :: rest =>
      if first = second then dropRepeats (second :: rest)
      else first :: dropRepeats (second :: rest)
  | numbers => numbers

/-- The numbers by size, each of them once. -/
def increasing (numbers : List Nat) : List Nat :=
  dropRepeats (sortByKey id numbers)

end LinProg
