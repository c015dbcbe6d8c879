import MailTemplate.Condition
import MailTemplate.Markup.Match
import MailTemplate.Position

/-!
Problems found in a template. None of them stops rendering: the markup concerned is kept as text
or, for a closing tag of the other kind that is accepted, taken as it is.
-/

namespace MailTemplate

/-- Blocks nested deeper than this are kept as text. -/
def maxNestingDepth : Nat := 128

inductive Diagnostic where
  | unterminatedTag (kind : BlockKind) (point : Point)
  | unclosedBlock (kind : BlockKind) (condition : Text) (point : Point)
  | mismatchedClose (expected found : BlockKind) (condition : Text) (accepted : Bool)
      (point : Point)
  | strayClose (kind : BlockKind) (point : Point)
  | strayElse (point : Point)
  | invalidCondition (condition : Text) (reason : ConditionError) (point : Point)
  | nestingTooDeep (kind : BlockKind) (point : Point)
  deriving DecidableEq, Repr

namespace BlockKind

def name (kind : BlockKind) : String :=
  String.ofList kind.word

def closingName (kind : BlockKind) : String :=
  String.ofList kind.closingLiteral

end BlockKind

namespace Diagnostic

def point : Diagnostic → Point
  | .unterminatedTag _ point => point
  | .unclosedBlock _ _ point => point
  | .mismatchedClose _ _ _ _ point => point
  | .strayClose _ point => point
  | .strayElse point => point
  | .invalidCondition _ _ point => point
  | .nestingTooDeep _ point => point

def placeText (point : Point) : String :=
  toString point.line ++ ":" ++ toString point.column

def message : Diagnostic → String
  | .unterminatedTag kind point =>
      "opening `" ++ kind.name ++ "` tag at " ++ placeText point ++
        " is never terminated with `\x7d\x7d`"
  | .unclosedBlock kind condition point =>
      "`" ++ kind.name ++ "` block `" ++ String.ofList condition ++ "` opened at " ++
        placeText point ++ " is never closed"
  | .mismatchedClose expected found condition _ point =>
      "`" ++ expected.name ++ "` block `" ++ String.ofList condition ++ "` is closed by `" ++
        found.closingName ++ "` at " ++ placeText point
  | .strayClose kind point =>
      "`" ++ kind.closingName ++ "` at " ++ placeText point ++ " does not belong to any block"
  | .strayElse point =>
      "`" ++ String.ofList dividerLiteral ++ "` at " ++ placeText point ++
        " does not belong to any block"
  | .invalidCondition condition reason point =>
      "invalid condition `" ++ String.ofList condition ++ "` at " ++ placeText point ++ ": " ++
        reason.message
  | .nestingTooDeep kind point =>
      "`" ++ kind.name ++ "` block at " ++ placeText point ++ " is nested more than " ++
        toString maxNestingDepth ++ " levels deep"

def code : Diagnostic → String
  | .unterminatedTag _ _ => "blockmail::unterminated_tag"
  | .unclosedBlock _ _ _ => "blockmail::unclosed_block"
  | .mismatchedClose _ _ _ _ _ => "blockmail::mismatched_close"
  | .strayClose _ _ | .strayElse _ => "blockmail::stray_tag"
  | .invalidCondition _ _ _ => "blockmail::invalid_condition"
  | .nestingTooDeep _ _ => "blockmail::nesting_too_deep"

def help : Diagnostic → String
  | .unterminatedTag kind _ =>
      "close the tag, e.g. `" ++ String.ofList kind.openingLiteral ++ " condition\x7d\x7d`"
  | .unclosedBlock kind _ _ => "add `" ++ kind.closingName ++ "` to close this block"
  | .mismatchedClose expected _ _ _ _ =>
      "close the block with `" ++ expected.closingName ++ "`"
  | .strayClose _ _ | .strayElse _ => "remove the tag or add the block it belongs to"
  | .invalidCondition _ _ _ =>
      "conditions look like `name`, `name === 'value'`, `name !== 'value'`, " ++
        "`name == value` or `name != value`"
  | .nestingTooDeep _ _ => "flatten the template; the block is rendered as literal text"

end Diagnostic

end MailTemplate
