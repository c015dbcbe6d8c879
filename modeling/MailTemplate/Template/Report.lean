import MailTemplate.Event
import MailTemplate.Template.Tree

/-!
What reading a template reports: problems for its author, and events for a log. Each place that
finds something adds to both.
-/

namespace MailTemplate

structure Report where
  diagnostics : List Diagnostic
  events : List Event
  deriving DecidableEq, Repr

namespace Report

def empty : Report := ⟨[], []⟩

instance : Append Report where
  append first second :=
    ⟨first.diagnostics ++ second.diagnostics, first.events ++ second.events⟩

@[simp] theorem diagnostics_append (first second : Report) :
    (first ++ second).diagnostics = first.diagnostics ++ second.diagnostics := rfl

@[simp] theorem events_append (first second : Report) :
    (first ++ second).events = first.events ++ second.events := rfl

def ofStrays (start : Point) : List Token → Report
  | [] => empty
  | token :: tokens =>
      let later := ofStrays (start.advance token.source) tokens
      match token with
      | .closing kind => ⟨[.strayClose kind start], [.strayKept start]⟩ ++ later
      | .divider => ⟨[.strayElse start], [.strayKept start]⟩ ++ later
      | .text _ | .opening _ _ | .unterminated _ _ => later

/-- An opening tag at `start` that starts no block. A refused closing tag is reported where it
stands itself. -/
def ofMalformed (start : Point) : Malformed → Report
  | .unterminatedTag kind => ⟨[.unterminatedTag kind start], [.tagUnterminated kind start]⟩
  | .unclosed kind written =>
      ⟨[.unclosedBlock kind written.trim start], [.blockUnclosed kind written.trim start]⟩
  | .mismatchedClose kind written content found =>
      let inside := start.advance (Token.opening kind written).source
      let point := inside.advance (Token.sources content)
      ⟨[.mismatchedClose kind found written.trim false point],
        [.closerRejected kind found written.trim point]⟩

def ofTooDeep (start : Point) (kind : BlockKind) : Report :=
  ⟨[.nestingTooDeep kind start], [.nestingTooDeep kind start]⟩

/-- A condition that cannot be read. It is logged each time it is evaluated, not here. -/
def ofCondition (head : BlockHead) : Report :=
  match head.test with
  | .ok _ => empty
  | .error reason => ⟨[.invalidCondition head.condition reason head.position.start], []⟩

def ofCloser (head : BlockHead) (closer : BlockKind) (point : Point) : Report :=
  if head.kind = closer then empty
  else
    ⟨[.mismatchedClose head.kind closer head.condition true point],
      [.closerAccepted head.kind closer head.condition point]⟩

end Report

end MailTemplate
