import MailTemplate.Toml

/-!
TOML values that are written without brackets and quotes: truth values, numbers, dates and times.
-/

namespace MailTemplate
namespace Toml

def digitGroups? (isDigit : Char → Bool) (text : Text) : Option Text :=
  let digits := text.filter (· ≠ '_')
  let pairs := text.zip (text.drop 1)
  if digits.isEmpty || !digits.all isDigit || text.head? = some '_' ||
      text.getLast? = some '_' || pairs.any (fun pair => pair.1 = '_' && pair.2 = '_') then none
  else some digits

def wholeDigits? (text : Text) : Option Text := do
  let digits ← digitGroups? Char.isDigit text
  if digits.length > 1 ∧ digits.head? = some '0' then none else some digits

def digitValue (c : Char) : Nat :=
  if c.isDigit then c.toNat - '0'.toNat
  else if c.isUpper then c.toNat - 'A'.toNat + 10
  else c.toNat - 'a'.toNat + 10

def isDigitIn (base : Nat) (c : Char) : Bool :=
  (c.isDigit || ('a' ≤ c && c ≤ 'f') || ('A' ≤ c && c ≤ 'F')) && digitValue c < base

def valueIn (base : Nat) (digits : Text) : Nat :=
  digits.foldl (fun value c => base * value + digitValue c) 0

/-- Integers within these bounds are read, be they in use or not. -/
def inIntegerRange (value : Int) : Bool :=
  -Nat.pow 2 127 ≤ value && value < Nat.pow 2 128

def basedInteger? (base : Nat) (text : Text) : Option Int :=
  (digitGroups? (isDigitIn base) text).map fun digits => (valueIn base digits : Int)

def integer? (text : Text) : Option Int :=
  let value : Option Int :=
    match text with
    | '0' :: 'x' :: digits => basedInteger? 16 digits
    | '0' :: 'o' :: digits => basedInteger? 8 digits
    | '0' :: 'b' :: digits => basedInteger? 2 digits
    | _ =>
        let (negative, digits) := Decimal.takeSign text
        (wholeDigits? digits).map fun digits =>
          let size : Int := Decimal.digitsValue digits
          if negative then -size else size
  value.filter inIntegerRange

def isExponentMark (c : Char) : Bool :=
  c = 'e' || c = 'E'

def exponent? (text : Text) : Option Int :=
  let (negative, digits) := Decimal.takeSign text
  (digitGroups? Char.isDigit digits).map fun digits =>
    let size : Int := Decimal.digitsValue digits
    if negative then -size else size

def decimal? (text : Text) : Option Double := do
  let (negative, unsigned) := Decimal.takeSign text
  let mantissa := unsigned.takeWhile fun c => !isExponentMark c
  let scale := unsigned.dropWhile fun c => !isExponentMark c
  let whole ← wholeDigits? (mantissa.takeWhile (· ≠ '.'))
  let fraction : Option Text ←
    match mantissa.dropWhile (· ≠ '.') with
    | [] => pure none
    | _ :: digits => (digitGroups? Char.isDigit digits).map some
  let exponent : Option Int ←
    match scale with
    | [] => pure none
    | _ :: written => (exponent? written).map some
  if fraction.isNone ∧ exponent.isNone then none
  else
    let number := (Decimal.ofParts negative whole fraction exponent).toDouble
    if number.isFinite then some number else none

def special? (text : Text) : Option Double :=
  let (negative, word) := Decimal.takeSign text
  if word = ['i', 'n', 'f'] then some (.ofParts negative Double.infiniteSize)
  else if word = ['n', 'a', 'n'] then some (.ofParts negative (Double.infiniteSize + Nat.pow 2 51))
  else none

def ofWord? (word : Text) : Option Toml :=
  if word = ['t', 'r', 'u', 'e'] then some (.bool true)
  else if word = ['f', 'a', 'l', 's', 'e'] then some (.bool false)
  else
    match integer? word with
    | some value => some (.integer value)
    | none =>
    match decimal? word with
    | some value => some (.float value)
    | none =>
    match special? word with
    | some value => some (.float value)
    | none => (Moment.ofText? word).map .moment

def isWordChar (c : Char) : Bool :=
  c.isAlphanum || c = '_' || c = '+' || c = '-' || c = '.' || c = ':'

def takeWord (text : Text) : Text × Text :=
  let word := text.takeWhile isWordChar
  match text.dropWhile isWordChar with
  | ' ' :: rest =>
      let joined := word ++ ' ' :: rest.takeWhile isWordChar
      if (Moment.ofText? joined).isSome then (joined, rest.dropWhile isWordChar)
      else (word, ' ' :: rest)
  | rest => (word, rest)

end Toml
end MailTemplate
