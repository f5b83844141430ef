/-
# Sparse entries

An entry is one row or column of a matrix: the terms that are stored, each an index
with its value, in the order in which they were given. An index that is not stored
stands for zero. Well-formed entries store every index at most once; the checked
operations keep this, and two entries are equal when they store the same values at
the same indices, in any order.
-/
import LinProg.InputError
import LinProg.Listing
import LinProg.Sorting

namespace LinProg

/-- The element whose second occurrence comes first, given the elements seen so far. -/
def firstRepeated? (seen : List Nat) : List Nat → Option Nat
  | [] => none
  | index :: rest => if index ∈ seen then some index else firstRepeated? (index :: seen) rest

/-- Stored terms of a row or a column. -/
structure Entry (α : Type) where
  terms : List (Nat × α)
  deriving DecidableEq

namespace Entry

variable {α : Type}

/-- An entry without terms. -/
def empty : Entry α :=
  ⟨[]⟩

/-- Indices in storage order. -/
def indices (entry : Entry α) : List Nat :=
  entry.terms.map Prod.fst

/-- Values in storage order. -/
def values (entry : Entry α) : List α :=
  entry.terms.map Prod.snd

/-- Number of stored terms. -/
def size (entry : Entry α) : Nat :=
  entry.terms.length

/-- No index is stored twice. -/
def Distinct (entry : Entry α) : Prop :=
  entry.indices.Nodup

/-- Pair values with indices. Lists of different lengths are refused first, then a
repeated index. -/
def ofLists? (values : List α) (indices : List Nat) : Except InputError (Entry α) :=
  if values.length ≠ indices.length then
    .error (.lengthMismatch values.length indices.length)
  else
    match firstRepeated? [] indices with
    | some index => .error (.repeatedIndex index)
    | none => .ok ⟨indices.zip values⟩

/-- The value stored at an index. -/
def get? (entry : Entry α) (index : Nat) : Option α :=
  entry.terms.lookup index

/-- The value at an index, zero where nothing is stored. -/
def get [OfNat α 0] (entry : Entry α) (index : Nat) : α :=
  (entry.get? index).getD 0

/-- Store a term last, whether or not its index is new. -/
def append (entry : Entry α) (index : Nat) (value : α) : Entry α :=
  ⟨entry.terms ++ [(index, value)]⟩

/-- Store a term last, unless its index is stored already. -/
def push? (entry : Entry α) (index : Nat) (value : α) : Except InputError (Entry α) :=
  if index ∈ entry.indices then .error (.repeatedIndex index)
  else .ok (entry.append index value)

/-- Replace the value of the term at a storage position. -/
def setValue? (entry : Entry α) (position : Nat) (value : α) : Option (Entry α) :=
  entry.terms[position]?.map fun term => ⟨entry.terms.set position (term.1, value)⟩

/-- Delete a position by moving the last element into it. -/
def swapRemove {β : Type} (elements : List β) (position : Nat) : List β :=
  match elements.getLast? with
  | none => []
  | some last => (elements.set position last).dropLast

/-- Take an index out of the numbering: its term is dropped, if it is stored, and all
larger indices move down by one. -/
def removeIndex (entry : Entry α) (index : Nat) : Entry α :=
  let kept :=
    match entry.indices.idxOf? index with
    | some position => swapRemove entry.terms position
    | none => entry.terms
  ⟨kept.map fun (stored, value) => (if index < stored then stored - 1 else stored, value)⟩

/-- Smallest stored value. Read in storage order, a value replaces the one held so far
only if it is smaller, so the first of several equal values is kept and values that
cannot be compared count as equal. -/
def lowerBound? [LT α] [DecidableLT α] (entry : Entry α) : Option α :=
  match entry.values with
  | [] => none
  | value :: rest =>
      some (rest.foldl (fun least next => if next < least then next else least) value)

/-- Largest stored value. Read in storage order, a value replaces the one held so far
unless it is smaller, so the last of several equal values is kept and values that
cannot be compared count as equal. -/
def upperBound? [LT α] [DecidableLT α] (entry : Entry α) : Option α :=
  match entry.values with
  | [] => none
  | value :: rest =>
      some (rest.foldl (fun greatest next => if next < greatest then greatest else next) value)

/-- Terms by increasing indices. -/
def sortedTerms (entry : Entry α) : List (Nat × α) :=
  sortByKey Prod.fst entry.terms

/-- Equal numbers of terms, and by increasing indices one equal term after the other. -/
def isSame [BEq α] (left right : Entry α) : Bool :=
  left.size == right.size && left.sortedTerms == right.sortedTerms

instance [BEq α] : BEq (Entry α) where
  beq := isSame

/-- Terms in brackets, in storage order. -/
def textWith (valueText : α → String) (entry : Entry α) : String :=
  bracketed (entry.terms.map fun (index, value) =>
    s!"({naturalText index} {valueText value})")

end Entry

/-- A coefficient row in messages. -/
def Entry.text (entry : Entry Binary64) : String :=
  entry.textWith Binary64.text

end LinProg
