/-
# Text of doubles

Three written forms. The positional form never has an exponent and writes whole
numbers without a point. The listed form, used inside lists of values, always
shows a point or an exponent. The fixed form rounds the exact value to a number of
decimal places. A reader for decimal text rounds to the nearest double.
-/
import LinProg.Binary64.Shortest

namespace LinProg

/-- Decimal digits of a natural number. -/
def decimalDigits (value : Nat) : List Char :=
  Nat.toDigits 10 value

/-- Decimal text of a natural number. -/
def naturalText (value : Nat) : String :=
  String.ofList (decimalDigits value)

/-- Decimal text of an integer. -/
def integerText (value : Int) : String :=
  String.ofList ((if value < 0 then ['-'] else []) ++ decimalDigits value.natAbs)

namespace Binary64

/-- How a finite double is written. -/
structure Layout where
  /-- What follows the digits of a whole number. -/
  wholeEnding : List Char
  /-- Whether a number is written without an exponent, by the power of ten of its
  leading digit. -/
  isPositional : Int → Bool

/-- Whole numbers stay bare and no number has an exponent. -/
def Layout.plain : Layout where
  wholeEnding := []
  isPositional := fun _ => true

/-- Whole numbers show one decimal; very small and very large numbers have an
exponent. -/
def Layout.listed : Layout where
  wholeEnding := ['.', '0']
  isPositional := fun leading => decide (-4 ≤ leading ∧ leading < 16)

/-- Digits with the last `places` of them after a point. -/
def pointed (digits : List Char) (places : Nat) : List Char :=
  let padded := List.replicate (places + 1 - digits.length) '0' ++ digits
  padded.take (padded.length - places) ++ '.' :: padded.drop (padded.length - places)

/-- A decimal without an exponent. -/
def positional (layout : Layout) (decimal : Decimal) : List Char :=
  let digits := decimalDigits decimal.digits
  match decimal.exponent with
  | .ofNat zeros => digits ++ List.replicate zeros '0' ++ layout.wholeEnding
  | .negSucc places => pointed digits (places + 1)

/-- A decimal with one digit before the point and an exponent. -/
def scientific (decimal : Decimal) : List Char :=
  let digits := decimalDigits decimal.digits
  let leading := decimal.exponent + (digits.length - 1 : Nat)
  let significand :=
    if digits.length ≤ 1 then digits else digits.take 1 ++ '.' :: digits.drop 1
  significand ++ 'e' :: (integerText leading).toList

/-- The text of a double in a layout. -/
def textIn (layout : Layout) : Binary64 → String
  | .nan => "NaN"
  | .infinity negative => if negative then "-inf" else "inf"
  | .finite negative steps _ =>
      let body :=
        if steps = 0 then positional layout ⟨0, 0⟩
        else
          let decimal := shortest steps
          let leading := decimal.exponent + ((decimalDigits decimal.digits).length - 1 : Nat)
          if layout.isPositional leading then positional layout decimal else scientific decimal
      String.ofList ((if negative then ['-'] else []) ++ body)

/-- The form of messages and of coefficients. -/
def text : Binary64 → String :=
  textIn .plain

/-- The form of values inside a list. -/
def listedText : Binary64 → String :=
  textIn .listed

/-- The exact value rounded to a positive number of decimal places, ties to even. A
result that is zero has no sign. -/
def fixedText (places : Nat) : Binary64 → String
  | .finite negative steps _ =>
      let scaled := roundHalfEven (steps * Nat.pow 10 places) stepsInOne
      let sign := if negative ∧ scaled ≠ 0 then ['-'] else []
      String.ofList (sign ++ pointed (decimalDigits scaled) places)
  | value => value.text

/-- A run of decimal digits with its value, and what follows it. -/
def takeDigits (text : List Char) : List Char × List Char :=
  (text.takeWhile Char.isDigit, text.dropWhile Char.isDigit)

/-- Value of a run of decimal digits. -/
def digitsValue (digits : List Char) : Nat :=
  digits.foldl (fun value digit => 10 * value + (digit.toNat - '0'.toNat)) 0

/-- Split off a leading sign; true stands for minus. -/
def takeSign : List Char → Bool × List Char
  | '-' :: rest => (true, rest)
  | '+' :: rest => (false, rest)
  | text => (false, text)

/-- The exponent after a decimal, zero when nothing follows. -/
def readExponent? : List Char → Option Int
  | [] => some 0
  | mark :: rest =>
      if mark = 'e' ∨ mark = 'E' then
        let (negative, digits) := takeSign rest
        if digits.isEmpty ∨ ¬ digits.all Char.isDigit then none
        else some (signed negative (digitsValue digits))
      else none

/-- The double nearest to an unsigned decimal text. -/
def readMagnitude? (negative : Bool) (text : List Char) : Option Binary64 := do
  let (whole, rest) := takeDigits text
  let (fraction, rest) :=
    match rest with
    | '.' :: rest => takeDigits rest
    | _ => ([], rest)
  if whole.isEmpty ∧ fraction.isEmpty then none
  let exponent ← readExponent? rest
  return ofDecimal negative (digitsValue (whole ++ fraction)) (exponent - fraction.length)

/-- Read a decimal, an infinity or the undefined value, with an optional sign. Words
may be in capitals. -/
def ofText? (text : String) : Option Binary64 :=
  let (negative, magnitude) := takeSign text.toList
  match String.ofList (magnitude.map Char.toLower) with
  | "nan" => some .nan
  | "inf" | "infinity" => some (.infinity negative)
  | _ => readMagnitude? negative magnitude

end Binary64

end LinProg
