import MailTemplate.Number.Shortest

/-!
Values of template variables. They are flat: nothing, truth values, numbers, strings and lists of
strings.
-/

namespace MailTemplate

inductive Value where
  | null
  | bool (value : Bool)
  | number (value : Double)
  | string (value : Text)
  | array (items : List Text)
  deriving DecidableEq, Repr

namespace Value

/-- The text of a literal that stands for a number: a numeral with white space around it, whose
nearest number is finite. -/
def readNumber? (literal : Text) : Option Double :=
  ((Decimal.ofText? literal.trim).map Decimal.toDouble).filter Double.isFinite

def trueWord : Text := ['t', 'r', 'u', 'e']

def falseWord : Text := ['f', 'a', 'l', 's', 'e']

def nullWord : Text := ['n', 'u', 'l', 'l']

def undefinedWord : Text := ['u', 'n', 'd', 'e', 'f', 'i', 'n', 'e', 'd']

def equals : Value → Value → Bool
  | .null, .null => true
  | .bool first, .bool second => first = second
  | .number first, .number second => first.near second
  | .string first, .string second => first = second
  | .array first, .array second => first = second
  | _, _ => false

def isTruthy : Value → Bool
  | .null => false
  | .bool value => value
  | .number value => !value.isZero && !value.isNaN
  | .string value => !value.isEmpty && value ≠ nullWord && value ≠ undefinedWord
  | .array items => !items.isEmpty

def strictEq (literal : Text) : Value → Bool
  | .string value => value = literal
  | _ => false

def looseEq (literal : Text) : Value → Bool
  | .null => false
  | .bool value =>
      let (word, digit) := if value then (trueWord, Double.one) else (falseWord, Double.zero)
      literal = word || (readNumber? literal).any digit.near
  | .number value => (readNumber? literal).any value.near
  | .string value => value = literal
  | .array items => Text.joinWith [','] items = literal

def text : Value → Text
  | .null => []
  | .bool value => if value then trueWord else falseWord
  | .number value => value.text
  | .string value => value
  | .array items => Text.joinWith [','] items

/-- The value of text without a type, such as an argument: words and numerals keep their meaning,
any other text is a string. -/
def ofText (raw : Text) : Value :=
  if raw = trueWord then .bool true
  else if raw = falseWord then .bool false
  else if raw = nullWord then .null
  else match readNumber? raw with
    | some read => .number read
    | none => .string raw

def ofInt (value : Int) : Value :=
  .number (.ofInt value)

def ofOption : Option Value → Value
  | none => .null
  | some value => value

end Value

end MailTemplate
