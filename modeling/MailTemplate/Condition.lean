import MailTemplate.Context

/-!
Conditions of blocks: a variable alone, or a variable compared with a literal. The comparison signs
are looked for in a fixed order, the longer ones first, because the shorter ones occur in them.
-/

namespace MailTemplate

inductive Comparison where
  | strictEq
  | strictNe
  | looseEq
  | looseNe
  deriving DecidableEq, Repr

namespace Comparison

def symbol : Comparison → Text
  | .strictEq => ['=', '=', '=']
  | .strictNe => ['!', '=', '=']
  | .looseEq => ['=', '=']
  | .looseNe => ['!', '=']

def all : List Comparison := [.strictEq, .strictNe, .looseEq, .looseNe]

def firstIn? (text : Text) : Option (Comparison × Text × Text) :=
  all.findSome? fun comparison =>
    (Text.breakAt? comparison.symbol text).map fun sides => (comparison, sides)

def compare (comparison : Comparison) (value : Value) (literal : Text) : Bool :=
  match comparison with
  | .strictEq => value.strictEq literal
  | .strictNe => !value.strictEq literal
  | .looseEq => value.looseEq literal
  | .looseNe => !value.looseEq literal

end Comparison

inductive ConditionError where
  | empty
  | malformedComparison (comparison : Comparison)
  deriving DecidableEq, Repr

namespace ConditionError

def message : ConditionError → String
  | .empty => "the condition is empty"
  | .malformedComparison comparison =>
      "`" ++ String.ofList comparison.symbol ++
        "` needs exactly one variable on the left and one value on the right"

end ConditionError

inductive Condition where
  | truthy (name : Text)
  | compared (sign : Comparison) (name literal : Text)
  deriving DecidableEq, Repr

namespace Condition

def insideQuotes? (quote : Char) : Text → Option Text
  | [] => none
  | first :: rest =>
      match rest.reverse with
      | [] => none
      | last :: inside => if first = quote ∧ last = quote then some inside.reverse else none

def unquote (text : Text) : Text :=
  (insideQuotes? '\x22' text <|> insideQuotes? '\x27' text).getD text

/-- Reads the text of a condition. Without a comparison sign it is the name of a variable. -/
def parse (text : Text) : Except ConditionError Condition :=
  let text := text.trim
  if text = [] then .error .empty
  else
    match Comparison.firstIn? text with
    | none => .ok (.truthy text)
    | some (sign, left, right) =>
        if (Text.breakAt? sign.symbol right).isSome ∨ left.trim = [] ∨ right.trim = [] then
          .error (.malformedComparison sign)
        else .ok (.compared sign left.trim (unquote right.trim))

def name : Condition → Text
  | .truthy name => name
  | .compared _ name _ => name

def holds (context : Context) : Condition → Bool
  | .truthy name => (context.lookup name).isTruthy
  | .compared sign name literal => sign.compare (context.lookup name) literal

/-- The truth of the condition that a text writes. A text that writes none counts as false. -/
def textHolds (text : Text) (context : Context) : Bool :=
  match parse text with
  | .ok condition => condition.holds context
  | .error _ => false

end Condition

end MailTemplate
