import MailTemplate.Markup.Block

/-!
Blocks as byte ranges of the source: the first block at or after a cursor, for callers that work
on the text itself.
-/

namespace MailTemplate

structure Span where
  start : Nat
  stop : Nat
  deriving DecidableEq, Repr

def Span.ofText (start : Nat) (text : Text) : Span :=
  ⟨start, start + text.byteSize⟩

structure MatchedBlock where
  kind : BlockKind
  written : Text
  opening : Span
  consequent : Span
  alternative : Option Span
  closing : Span
  closer : BlockKind
  deriving DecidableEq, Repr

def MatchedBlock.isMismatched (block : MatchedBlock) : Bool :=
  block.kind != block.closer

inductive MalformedReason where
  | unterminatedTag
  | unclosed
  | mismatchedClose (expected found : BlockKind)
  deriving DecidableEq, Repr

def Malformed.summary : Malformed → MalformedReason
  | .unterminatedTag _ => .unterminatedTag
  | .unclosed _ _ => .unclosed
  | .mismatchedClose kind _ _ found => .mismatchedClose kind found

inductive BlockMatch where
  | literal
  | malformed (start : Nat) (reason : MalformedReason)
  | block (block : MatchedBlock)
  deriving DecidableEq, Repr

def FoundBlock.locate (start : Nat) (block : FoundBlock) : MatchedBlock :=
  let opening := Span.ofText start block.openingTag.source
  let consequent := Span.ofText opening.stop (Token.sources block.branches.consequent)
  let alternative := block.branches.alternative.map fun tokens =>
    Span.ofText (consequent.stop + dividerLiteral.byteSize) (Token.sources tokens)
  let contentEnd := (alternative.getD consequent).stop
  { kind := block.kind
    written := block.written
    opening
    consequent
    alternative
    closing := Span.ofText contentEnd block.closingTag.source
    closer := block.closer }

def Scan.locate (cursor : Nat) : Scan → BlockMatch
  | .literal => .literal
  | .malformed before reason =>
      .malformed (cursor + (Token.sources before).byteSize) reason.summary
  | .block before found _ => .block (found.locate (cursor + (Token.sources before).byteSize))

/-- The first block of `source` at or after the byte `cursor`. A cursor past the end or inside a
character has only literal text after it. -/
def matchBlock (options : Options) (source : Text) (cursor : Nat) : BlockMatch :=
  match source.cutAt? cursor with
  | none => .literal
  | some (_, rest) => (Scan.ofTokens options (Token.tokenize rest)).locate cursor

end MailTemplate
