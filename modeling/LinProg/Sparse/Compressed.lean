/-
# Compressed entries

Many entries in three flat lists: all values, all indices, and the offset at which
each segment starts, with a last offset at the end of the values. Only lists that
describe such segments are accepted, so taking them apart never runs over an end.
-/
import LinProg.Sparse.Entry

namespace LinProg

/-- Concatenated entries. -/
structure CompressedEntries (α : Type) where
  values : List α
  offsets : List Nat
  indices : List Nat
  deriving DecidableEq

namespace CompressedEntries

variable {α : Type}

/-- The elements from one position up to another. -/
def slice {β : Type} (elements : List β) (start stop : Nat) : List β :=
  (elements.drop start).take (stop - start)

/-- Neighbouring offsets, the ends of each segment. -/
def ranges (offsets : List Nat) : List (Nat × Nat) :=
  offsets.zip offsets.tail

/-- Values and indices of all segments. -/
def segments (compressed : CompressedEntries α) : List (List α × List Nat) :=
  (ranges compressed.offsets).map fun (start, stop) =>
    (slice compressed.values start stop, slice compressed.indices start stop)

/-- Number of segments. -/
def segmentCount (compressed : CompressedEntries α) : Nat :=
  compressed.offsets.length - 1

/-- One segment, if there are so many. -/
def segment? (compressed : CompressedEntries α) (position : Nat) : Option (List α × List Nat) :=
  compressed.segments[position]?

/-- The first position whose offset lies below the one before it. -/
def firstDecrease? (offsets : List Nat) : Option Nat :=
  ((ranges offsets).findIdx? fun (start, stop) => stop < start).map (· + 1)

/-- The first offset that does not fit a list of this length. -/
def badOffset? (length : Nat) (offsets : List Nat) : Option Nat :=
  if offsets.head? ≠ some 0 then some 0
  else
    match firstDecrease? offsets with
    | some position => some position
    | none => if offsets.getLast? ≠ some length then some (offsets.length - 1) else none

/-- Accept three lists that describe segments without repeated indices. The lengths are
checked first, then the offsets, then the segments in order. -/
def ofLists? (values : List α) (offsets indices : List Nat) :
    Except InputError (CompressedEntries α) :=
  if values.length ≠ indices.length then
    .error (.lengthMismatch values.length indices.length)
  else
    match badOffset? values.length offsets with
    | some position => .error (.badOffset position)
    | none =>
        let compressed : CompressedEntries α := ⟨values, offsets, indices⟩
        match compressed.segments.findSome? fun segment => firstRepeated? [] segment.2 with
        | some index => .error (.repeatedIndex index)
        | none => .ok compressed

/-- Largest index of any segment. -/
def maxIndex? (compressed : CompressedEntries α) : Option Nat :=
  compressed.indices.max?

/-- Require one lower and one upper bound for each segment. -/
def checkBounds {β : Type} (compressed : CompressedEntries α) (lower upper : List β) :
    Except InputError Unit :=
  if lower.length ≠ compressed.segmentCount then
    .error (.lengthMismatch compressed.segmentCount lower.length)
  else if upper.length ≠ compressed.segmentCount then
    .error (.lengthMismatch compressed.segmentCount upper.length)
  else .ok ()

/-- One entry for each segment. -/
def entries (compressed : CompressedEntries α) : List (Entry α) :=
  compressed.segments.map fun (values, indices) => ⟨indices.zip values⟩

/-- Equal lists, element by element. -/
def isSame [BEq α] (left right : CompressedEntries α) : Bool :=
  left.values == right.values && left.offsets == right.offsets && left.indices == right.indices

instance [BEq α] : BEq (CompressedEntries α) where
  beq := isSame

end CompressedEntries

end LinProg
