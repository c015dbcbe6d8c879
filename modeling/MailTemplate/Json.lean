import MailTemplate.Entries
import MailTemplate.Number.Decimal

/-!
JSON values. The members of an object stand in the order of their text, repeated names included;
the canonical form has them in ascending order, each name once, with its last value.
-/

namespace MailTemplate

/-- A number is whole if it is written so and fits 64 bits, and else a floating-point number. -/
inductive JsonNumber where
  | integer (value : Int)
  | double (value : Double)
  deriving DecidableEq, Repr

namespace JsonNumber

def toDouble : JsonNumber → Double
  | .integer value => .ofInt value
  | .double value => value

end JsonNumber

inductive Json where
  | null
  | bool (value : Bool)
  | number (value : JsonNumber)
  | string (value : Text)
  | array (items : List Json)
  | object (members : List (Text × Json))
  deriving Repr

namespace Json

mutual

/-- The value with the members of every object in ascending order and each name once. -/
def canonical : Json → Json
  | .array items => .array (canonicalItems items)
  | .object members => .object (canonicalMembers members)
  | .null => .null
  | .bool value => .bool value
  | .number value => .number value
  | .string value => .string value

def canonicalItems : List Json → List Json
  | [] => []
  | item :: items => item.canonical :: canonicalItems items

def canonicalMembers : List (Text × Json) → List (Text × Json)
  | [] => []
  | (name, value) :: members =>
      Entries.insert false name value.canonical (canonicalMembers members)

end

end Json

end MailTemplate
