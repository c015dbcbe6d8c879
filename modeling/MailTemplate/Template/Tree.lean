import MailTemplate.Condition
import MailTemplate.Markup.Block
import MailTemplate.Position

/-!
Templates as trees: literal text and blocks in the order of the source, each block with the trees of
its branches.
-/

namespace MailTemplate

structure BlockHead where
  kind : BlockKind
  written : Text
  position : Position
  deriving DecidableEq, Repr

namespace BlockHead

def condition (head : BlockHead) : Text :=
  head.written.trim

def test (head : BlockHead) : Except ConditionError Condition :=
  Condition.parse head.condition

def isSatisfied (head : BlockHead) (context : Context) : Bool :=
  match head.kind with
  | .ifTrue => Condition.textHolds head.condition context
  | .unlessTrue => !Condition.textHolds head.condition context

end BlockHead

inductive Tree where
  | empty
  | literal (content : Text) (next : Tree)
  | block (head : BlockHead) (consequent next : Tree)
  | choice (head : BlockHead) (consequent alternative next : Tree)
  deriving DecidableEq, Repr

namespace Tree

/-- The tree with `content` before it, which is no node of its own when it is empty. -/
def withText (content : Text) (next : Tree) : Tree :=
  if content.isEmpty then next else .literal content next

def ofText (content : Text) : Tree :=
  withText content .empty

end Tree

end MailTemplate
