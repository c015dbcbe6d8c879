import MailTemplate.Json
import MailTemplate.Number.Shortest

/-!
Writing JSON text without white space. Strings escape only what has to be escaped, and numbers that
are not whole have the fewest digits that read back.
-/

namespace MailTemplate

namespace JsonNumber

def leastPositional : Int := -5

def greatestPositional : Int := 15

def scientific (digits : Text) (exponent : Int) : Text :=
  let mantissa :=
    match digits with
    | [] => ['0']
    | [digit] => [digit]
    | digit :: rest => digit :: '.' :: rest
  let sign := if exponent < 0 then '-' else '+'
  mantissa ++ 'e' :: sign :: Nat.toDigits 10 exponent.natAbs

/-- The absolute value of a finite number. It never looks like a whole number. -/
def sizeText (number : Double) : Text :=
  let decimal := (number.shortest .toEven).normalize
  let digits := Nat.toDigits 10 decimal.digits
  let exponent := decimal.exponent + digits.length - 1
  if leastPositional ≤ exponent ∧ exponent ≤ greatestPositional then
    decimal.positional ++ (if 0 ≤ decimal.exponent then ['.', '0'] else [])
  else scientific digits exponent

def text : JsonNumber → Text
  | .integer value =>
      (if value < 0 then ['-'] else []) ++ Nat.toDigits 10 value.natAbs
  | .double value =>
      (if value.isNegative then ['-'] else []) ++
        (if value.isZero then ['0', '.', '0'] else sizeText value)

end JsonNumber

namespace Json

def hexDigit (value : Nat) : Char :=
  Nat.digitChar (value % 16)

def escapeChar (c : Char) : Text :=
  if c = '\x22' then ['\\', '\x22']
  else if c = '\\' then ['\\', '\\']
  else if c = '\x08' then ['\\', 'b']
  else if c = '\x0c' then ['\\', 'f']
  else if c = '\n' then ['\\', 'n']
  else if c = '\r' then ['\\', 'r']
  else if c = '\t' then ['\\', 't']
  else if c.toNat < 0x20 then
    ['\\', 'u', '0', '0', hexDigit (c.toNat / 16), hexDigit c.toNat]
  else [c]

def stringText (value : Text) : Text :=
  '\x22' :: value.flatMap escapeChar ++ ['\x22']

mutual

def text : Json → Text
  | .null => ['n', 'u', 'l', 'l']
  | .bool true => ['t', 'r', 'u', 'e']
  | .bool false => ['f', 'a', 'l', 's', 'e']
  | .number value => value.text
  | .string value => stringText value
  | .array items => '[' :: itemsText items ++ [']']
  | .object members => '{' :: membersText members ++ ['}']

def itemsText : List Json → Text
  | [] => []
  | [item] => item.text
  | item :: items => item.text ++ ',' :: itemsText items

def membersText : List (Text × Json) → Text
  | [] => []
  | [(name, value)] => stringText name ++ ':' :: value.text
  | (name, value) :: members =>
      stringText name ++ ':' :: value.text ++ ',' :: membersText members

end

end Json
end MailTemplate
