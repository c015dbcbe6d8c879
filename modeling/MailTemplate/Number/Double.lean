/-!
Binary floating-point numbers of 64 bits, kept as their bit patterns. A finite number is a whole
multiple of the least positive one, so its size is a natural number of such units and rounding a
quotient to the nearest number needs no fractions.
-/

namespace MailTemplate

structure Double where
  bits : UInt64
  deriving DecidableEq, Repr

namespace Double

def numbersPerExponent : Nat := Nat.pow 2 52

def patternsPerSign : Nat := Nat.pow 2 63

def infiniteSize : Nat := 2047 * numbersPerExponent

def ofParts (negative : Bool) (size : Nat) : Double :=
  ⟨UInt64.ofNat (if negative then patternsPerSign + size else size)⟩

def isNegative (number : Double) : Bool :=
  patternsPerSign ≤ number.bits.toNat

def size (number : Double) : Nat :=
  number.bits.toNat % patternsPerSign

def isNaN (number : Double) : Bool :=
  infiniteSize < number.size

def isInfinite (number : Double) : Bool :=
  number.size = infiniteSize

def isFinite (number : Double) : Bool :=
  number.size < infiniteSize

def isZero (number : Double) : Bool :=
  number.size = 0

def zero : Double := ofParts false 0

def one : Double := ofParts false (1023 * numbersPerExponent)

def unitsPerOne : Nat := Nat.pow 2 1074

def units (number : Double) : Nat :=
  let exponent := number.size / numbersPerExponent
  let fraction := number.size % numbersPerExponent
  if exponent = 0 then fraction
  else (numbersPerExponent + fraction) * Nat.pow 2 (exponent - 1)

def roundQuotient (dividend divisor : Nat) : Nat :=
  let quotient := dividend / divisor
  let twice := 2 * (dividend % divisor)
  if twice < divisor then quotient
  else if divisor < twice then quotient + 1
  else quotient + quotient % 2

/-- The size bits of the number nearest to a quotient. A result with 53 significant bits takes the
next exponent by carrying into it. -/
def sizeOfQuotient (dividend divisor : Nat) : Nat :=
  let scaled := dividend * unitsPerOne
  let shift := Nat.log2 (scaled / divisor) - 52
  min (shift * numbersPerExponent + roundQuotient scaled (divisor * Nat.pow 2 shift)) infiniteSize

def ofQuotient (negative : Bool) (dividend divisor : Nat) : Double :=
  ofParts negative (sizeOfQuotient dividend divisor)

def ofInt (value : Int) : Double :=
  ofQuotient (value < 0) value.natAbs 1

/-- The place of a number on the line that runs from the negative patterns up to minus zero and on
from plus zero to the positive patterns. -/
def rank (number : Double) : Nat :=
  if number.isNegative then patternsPerSign - 1 - number.size else patternsPerSign + number.size

def stepsTo (first second : Double) : Nat :=
  (second.rank + 2 * patternsPerSign - first.rank) % (2 * patternsPerSign)

def near (first second : Double) : Bool :=
  first.stepsTo second ≤ 2 || second.stepsTo first ≤ 2

end Double

end MailTemplate
