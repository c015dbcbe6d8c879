import MailTemplate.Number.Decimal

/-!
The decimal number with the fewest digits that reads back as a given floating-point number, and of
those the nearest one. For each count of digits the two neighbours of the number on the decimal
grid are read back; the first grid with a neighbour that does wins.

In rendered text whole numbers below `10 ^ 21` have all their digits, and any other finite number
the fewest that read back, never with an exponent.
-/

namespace MailTemplate

inductive TieRule where
  | upward
  | toEven
  deriving DecidableEq, Repr

namespace Double

def absolute (number : Double) : Double :=
  .ofParts false number.size

/-- The exponent of ten of the first significant digit. Ten to the power 324 is the first power
that takes the least positive number to one or more. -/
def decimalExponent (number : Double) : Int :=
  let scaled := number.units * Nat.pow 10 324 / unitsPerOne
  (Nat.toDigits 10 scaled).length - 325

def quotientAt (number : Double) (exponent : Int) : Nat × Nat :=
  if 0 ≤ exponent then (number.units, unitsPerOne * Nat.pow 10 exponent.toNat)
  else (number.units * Nat.pow 10 (-exponent).toNat, unitsPerOne)

/-- The neighbour on the grid of `10 ^ exponent` that reads back, the nearer one if both do. -/
def neighbour? (tie : TieRule) (number : Double) (exponent : Int) : Option Decimal :=
  let (dividend, divisor) := number.quotientAt exponent
  let below : Decimal := ⟨false, dividend / divisor, exponent⟩
  let above : Decimal := ⟨false, dividend / divisor + 1, exponent⟩
  let twice := 2 * (dividend % divisor)
  let belowFirst := twice < divisor ||
    (twice = divisor && (tie = .toEven && below.digits % 2 = 0))
  let candidates := if belowFirst then [below, above] else [above, below]
  candidates.find? fun decimal => decimal.toDouble = number.absolute

def exactDecimal (number : Double) : Decimal :=
  ⟨false, number.units * Nat.pow 5 1074, -1074⟩

def shortest (tie : TieRule) (number : Double) : Decimal :=
  let first := number.decimalExponent
  let found := (List.range 17).findSome? fun (count : Nat) =>
    number.neighbour? tie (first - count)
  found.getD number.exactDecimal

end Double

namespace Decimal

def normalize (decimal : Decimal) : Decimal :=
  let digits := Nat.toDigits 10 decimal.digits
  let zeros := (digits.reverse.takeWhile (· = '0')).length
  if decimal.digits = 0 then ⟨decimal.negative, 0, 0⟩
  else ⟨decimal.negative, decimal.digits / Nat.pow 10 zeros, decimal.exponent + zeros⟩

def positionalDigits (decimal : Decimal) : Text × Text :=
  let digits := Nat.toDigits 10 decimal.digits
  if 0 ≤ decimal.exponent then (digits ++ List.replicate decimal.exponent.toNat '0', [])
  else
    let places := (-decimal.exponent).toNat
    let padded := List.replicate (places + 1 - digits.length) '0' ++ digits
    padded.splitAt (padded.length - places)

def positional (decimal : Decimal) : Text :=
  match decimal.positionalDigits with
  | (whole, []) => whole
  | (whole, fraction) => whole ++ '.' :: fraction

end Decimal

namespace Double

def wholeLimit : Nat := Nat.pow 10 21

def isWhole (number : Double) : Bool :=
  number.units % unitsPerOne = 0

def digitsText (number : Double) : Text :=
  if number.isWhole && number.units < wholeLimit * unitsPerOne then
    Nat.toDigits 10 (number.units / unitsPerOne)
  else (number.shortest .upward).normalize.positional

def text (number : Double) : Text :=
  if number.isNaN then ['N', 'a', 'N']
  else if number.isZero then ['0']
  else
    let sign := if number.isNegative then ['-'] else []
    if number.isInfinite then sign ++ ['I', 'n', 'f', 'i', 'n', 'i', 't', 'y']
    else sign ++ number.digitsText

end Double

end MailTemplate
