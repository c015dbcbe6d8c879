import MailTemplate.Number.Double
import MailTemplate.Text

/-!
Decimal numbers and the numerals that write them: a sign, digits with at most one point among them,
and an exponent.
-/

namespace MailTemplate

structure Decimal where
  negative : Bool
  digits : Nat
  exponent : Int
  deriving DecidableEq, Repr

namespace Decimal

/-- The nearest floating-point number. The powers of ten that would be out of all bounds are not
computed: such a number lies beyond the greatest finite one or below half of the least one. -/
def toDouble (decimal : Decimal) : Double :=
  if decimal.digits = 0 then .ofParts decimal.negative 0
  else if 310 < decimal.exponent then .ofParts decimal.negative Double.infiniteSize
  else if decimal.exponent < -(400 + Nat.log2 decimal.digits) then .ofParts decimal.negative 0
  else if 0 ≤ decimal.exponent then
    .ofQuotient decimal.negative (decimal.digits * Nat.pow 10 decimal.exponent.toNat) 1
  else .ofQuotient decimal.negative decimal.digits (Nat.pow 10 (-decimal.exponent).toNat)

def takeDigits (text : Text) : Text × Text :=
  (text.takeWhile Char.isDigit, text.dropWhile Char.isDigit)

def digitsValue (digits : Text) : Nat :=
  Nat.ofDigitChars 10 digits 0

def takeSign : Text → Bool × Text
  | '-' :: rest => (true, rest)
  | '+' :: rest => (false, rest)
  | rest => (false, rest)

def takeFraction : Text → Option Text × Text
  | '.' :: rest =>
      let (digits, rest) := takeDigits rest
      (some digits, rest)
  | rest => (none, rest)

def takeExponent? : Text → Option (Option Int × Text)
  | [] => some (none, [])
  | c :: rest =>
      if c = 'e' ∨ c = 'E' then
        let (negative, rest) := takeSign rest
        let (digits, rest) := takeDigits rest
        if digits.isEmpty then none
        else
          let size : Int := digitsValue digits
          some (some (if negative then -size else size), rest)
      else some (none, c :: rest)

def ofParts (negative : Bool) (whole : Text) (fraction : Option Text) (exponent : Option Int) :
    Decimal :=
  let fraction := fraction.getD []
  ⟨negative, digitsValue (whole ++ fraction), exponent.getD 0 - fraction.length⟩

/-- Reads a text that is a numeral as a whole. The digits on either side of the point may be
missing, but not both. -/
def ofText? (text : Text) : Option Decimal := do
  let (negative, rest) := takeSign text
  let (whole, rest) := takeDigits rest
  let (fraction, rest) := takeFraction rest
  let (exponent, rest) ← takeExponent? rest
  guard (rest.isEmpty ∧ ¬(whole.isEmpty ∧ (fraction.getD []).isEmpty))
  pure (ofParts negative whole fraction exponent)

end Decimal

end MailTemplate
