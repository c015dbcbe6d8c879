import MailTemplate.Template.Diagnostic

/-!
Events for a log: what reading, expanding and substituting note on their way, with a level, a
message and named fields.
-/

namespace MailTemplate

inductive Level where
  | warn
  | debug
  | trace
  deriving DecidableEq, Repr

namespace Level

def severity : Level → Nat
  | .warn => 2
  | .debug => 1
  | .trace => 0

def name : Level → String
  | .warn => "warn"
  | .debug => "debug"
  | .trace => "trace"

end Level

inductive Event where
  | strayKept (point : Point)
  | tagUnterminated (kind : BlockKind) (point : Point)
  | blockUnclosed (kind : BlockKind) (condition : Text) (point : Point)
  | closerAccepted (kind closer : BlockKind) (condition : Text) (point : Point)
  | closerRejected (kind closer : BlockKind) (condition : Text) (point : Point)
  | nestingTooDeep (kind : BlockKind) (point : Point)
  /-- A condition that cannot be read counts as false; `point` is its block, if it has one. -/
  | conditionInvalid (condition : Text) (reason : ConditionError) (point : Option Point)
  | blockExpanded (kind : BlockKind) (condition : Text) (selected : Bool)
  | variableUndefined (name : Text)
  /-- A context with so many variables was loaded and is kept until `expiry`, in milliseconds. -/
  | contextReloaded (size : Nat) (expiry : Option Nat)
  deriving DecidableEq, Repr

namespace Event

def level : Event → Level
  | .tagUnterminated _ _ | .blockUnclosed _ _ _ | .closerAccepted _ _ _ _
  | .closerRejected _ _ _ _ | .nestingTooDeep _ _ | .conditionInvalid _ _ _ => .warn
  | .strayKept _ | .blockExpanded _ _ _ | .contextReloaded _ _ => .debug
  | .variableUndefined _ => .trace

def message : Event → String
  | .strayKept _ => "keeping stray tag as literal text"
  | .tagUnterminated kind _ =>
      "`" ++ kind.name ++ "` tag is never terminated; keeping the rest of the text as literal"
  | .blockUnclosed kind _ _ =>
      "`" ++ kind.name ++ "` block is never closed; keeping the rest of the text as literal"
  | .closerAccepted kind closer _ _ =>
      "`" ++ kind.name ++ "` block closed by `" ++ closer.closingName ++
        "`; accepting it as the terminator"
  | .closerRejected kind closer _ _ =>
      "`" ++ kind.name ++ "` block closed by `" ++ closer.closingName ++
        "` in strict mode; keeping the rest of the text as literal"
  | .nestingTooDeep kind _ =>
      "`" ++ kind.name ++ "` block is nested too deeply; keeping it as literal text"
  | .conditionInvalid _ _ _ => "invalid condition evaluates to false"
  | .blockExpanded _ _ _ => "expanding block"
  | .variableUndefined _ => "undefined variable substituted with an empty string"
  | .contextReloaded _ _ => "reloaded context"

def placeFields (point : Point) : List (String × String) :=
  [("line", toString point.line), ("column", toString point.column)]

def conditionField (condition : Text) : String × String :=
  ("condition", String.ofList condition)

def pointText (point : Point) : String :=
  "Point \x7b line: " ++ toString point.line ++ ", column: " ++ toString point.column ++
    ", offset: " ++ toString point.offset ++ " \x7d"

def expiryText : Option Nat → String
  | none => "None"
  | some milliseconds => "Some(" ++ toString milliseconds ++ ")"

def fields : Event → List (String × String)
  | .strayKept point => [("point", pointText point)]
  | .tagUnterminated _ point => placeFields point
  | .blockUnclosed _ condition point => conditionField condition :: placeFields point
  | .closerAccepted _ _ condition point => conditionField condition :: placeFields point
  | .closerRejected _ _ condition point => conditionField condition :: placeFields point
  | .nestingTooDeep _ point => placeFields point ++ [("limit", toString maxNestingDepth)]
  | .conditionInvalid condition reason point =>
      conditionField condition :: (point.map placeFields).getD [] ++ [("error", reason.message)]
  | .blockExpanded kind condition selected =>
      [ ("kind", kind.name), conditionField condition,
        ("selected", if selected then "branch" else "nothing") ]
  | .variableUndefined name => [("name", String.ofList name)]
  | .contextReloaded size expiry =>
      [("variables", toString size), ("expires_at_unix_ms", expiryText expiry)]

def ofCondition (text : Text) : List Event :=
  match Condition.parse text with
  | .ok _ => []
  | .error reason => [.conditionInvalid text.trim reason none]

def atLeast (level : Level) (events : List Event) : List Event :=
  events.filter fun event => level.severity ≤ event.level.severity

end Event

end MailTemplate
