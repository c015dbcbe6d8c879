import MailTemplate.Proofs.Markup.Balanced
import MailTemplate.Proofs.Markup.Lexed

/-!
Documents: templates as their authors mean them, without places and without malformed markup. What
a document prints is split into exactly the tokens that the document stands for.
-/

namespace MailTemplate

inductive Document where
  | empty
  | literal (content : Text) (next : Document)
  | block (kind : BlockKind) (written : Text) (consequent next : Document)
  | choice (kind : BlockKind) (written : Text) (consequent alternative next : Document)
  deriving DecidableEq, Repr

namespace Document

def print : Document → Text
  | .empty => []
  | .literal content next => content ++ next.print
  | .block kind written consequent next =>
      kind.openingLiteral ++ written ++ tagEnd ++ consequent.print ++ kind.closingLiteral ++
        next.print
  | .choice kind written consequent alternative next =>
      kind.openingLiteral ++ written ++ tagEnd ++ consequent.print ++ dividerLiteral ++
        alternative.print ++ kind.closingLiteral ++ next.print

def nesting : Document → Nat
  | .empty => 0
  | .literal _ next => next.nesting
  | .block _ _ consequent next => max (consequent.nesting + 1) next.nesting
  | .choice _ _ consequent alternative next =>
      max (max consequent.nesting alternative.nesting + 1) next.nesting

def StartsWithLiteral : Document → Prop
  | .literal _ _ => True
  | .empty | .block _ _ _ _ | .choice _ _ _ _ _ => False

/-- No literal is empty, holds a tag literal or stands next to another literal, and every condition
can be written in a tag. -/
def Printable : Document → Prop
  | .empty => True
  | .literal content next =>
      content ≠ [] ∧ content.Plain ∧ ¬next.StartsWithLiteral ∧ next.Printable
  | .block _ written consequent next =>
      written.Writable ∧ consequent.Printable ∧ next.Printable
  | .choice _ written consequent alternative next =>
      written.Writable ∧ consequent.Printable ∧ alternative.Printable ∧ next.Printable

instance decidableStartsWithLiteral (document : Document) :
    Decidable document.StartsWithLiteral :=
  match document with
  | .literal _ _ => isTrue trivial
  | .empty | .block _ _ _ _ | .choice _ _ _ _ _ => isFalse id

instance decidablePrintable : (document : Document) → Decidable document.Printable
  | .empty => isTrue trivial
  | .literal content next =>
      have := decidablePrintable next
      inferInstanceAs (Decidable
        (content ≠ [] ∧ content.Plain ∧ ¬next.StartsWithLiteral ∧ next.Printable))
  | .block _ written consequent next =>
      have := decidablePrintable consequent
      have := decidablePrintable next
      inferInstanceAs (Decidable (written.Writable ∧ consequent.Printable ∧ next.Printable))
  | .choice _ written consequent alternative next =>
      have := decidablePrintable consequent
      have := decidablePrintable alternative
      have := decidablePrintable next
      inferInstanceAs (Decidable
        (written.Writable ∧ consequent.Printable ∧ alternative.Printable ∧ next.Printable))

def tokens : Document → List Token
  | .empty => []
  | .literal content next => .text content :: next.tokens
  | .block kind written consequent next =>
      .opening kind written :: consequent.tokens ++ .closing kind :: next.tokens
  | .choice kind written consequent alternative next =>
      .opening kind written :: (consequent.tokens ++ .divider :: alternative.tokens) ++
        .closing kind :: next.tokens

theorem sources_tokens (document : Document) : Token.sources document.tokens = document.print := by
  induction document with
  | empty => rfl
  | literal content next ih => simp [tokens, print, Token.source, ih]
  | block kind written consequent next inside later =>
      simp [tokens, print, Token.source, inside, later]
  | choice kind written consequent alternative next inside otherwise later =>
      simp [tokens, print, Token.source, inside, otherwise, later]

theorem undivided_tokens (document : Document) : Token.Undivided document.tokens := by
  induction document with
  | empty => exact .nil
  | literal content next ih => exact .text ih
  | block kind written consequent next inside later => exact .block inside.balanced later
  | choice kind written consequent alternative next inside otherwise later =>
      exact .block (inside.balanced.append (.divider otherwise.balanced)) later

theorem isTag_of_mem_head? {document : Document} (apart : ¬document.StartsWithLiteral) :
    ∀ token ∈ document.tokens.head?, token.IsTag := by
  cases document with
  | empty => simp [tokens]
  | literal content next => exact absurd trivial apart
  | block kind written consequent next =>
      rintro token ⟨⟩
      exact trivial
  | choice kind written consequent alternative next =>
      rintro token ⟨⟩
      exact trivial

end Document

namespace Token

theorem Balanced.ends {tokens : List Token} (balanced : Balanced tokens) :
    ∀ token ∈ tokens, ∀ kind remainder, token ≠ .unterminated kind remainder := by
  induction balanced with
  | nil => simp
  | text _ ih => simpa using ih
  | divider _ ih => simpa using ih
  | block _ _ inside later =>
      simp only [List.mem_append, List.mem_cons]
      rintro token ((rfl | member) | rfl | member) kind remainder
      · simp
      · exact inside token member kind remainder
      · simp
      · exact later token member kind remainder

theorem Lexed.append_tag {first second : List Token} {tag : Token} (lexed : Lexed first)
    (balanced : Balanced first) (isTag : tag.IsTag) (later : Lexed (tag :: second)) :
    Lexed (first ++ tag :: second) := by
  refine ⟨?_, List.isChain_append.mpr ⟨lexed.2, later.2, ?_⟩⟩
  · rw [List.forall_mem_append]
    exact ⟨lexed.1, later.1⟩
  · rintro last member next ⟨⟩
    have ends := balanced.ends last (List.mem_of_getLast? member)
    cases last with
    | unterminated kind remainder => exact absurd rfl (ends kind remainder)
    | text content => exact isTag
    | opening kind written => exact trivial
    | divider => exact trivial
    | closing kind => exact trivial

theorem Lexed.cons_tag {tag : Token} {tokens : List Token} (lexed : Lexed tokens)
    (isTag : tag.IsTag) (ends : ∀ kind remainder, tag ≠ .unterminated kind remainder)
    (here : tag.IsLexed) : Lexed (tag :: tokens) :=
  (lexed_cons_iff _ _).mpr ⟨here, fun _ _ => isTag.mayPrecede_of_not_unterminated ends, lexed⟩

theorem Lexed.divided {first second : List Token} (lexed : Lexed first) (balanced : Balanced first)
    (later : Lexed second) : Lexed (first ++ .divider :: second) := by
  have divider : Lexed (.divider :: second) := later.cons_tag trivial (by simp) trivial
  exact lexed.append_tag balanced trivial divider

theorem Lexed.enclosed {kind closer : BlockKind} {written : Text} {content rest : List Token}
    (lexed : Lexed content) (balanced : Balanced content) (writable : written.Writable)
    (later : Lexed rest) : Lexed (.opening kind written :: content ++ .closing closer :: rest) := by
  have closed : Lexed (.closing closer :: rest) := later.cons_tag trivial (by simp) trivial
  have inside : Lexed (content ++ .closing closer :: rest) :=
    lexed.append_tag balanced trivial closed
  exact inside.cons_tag trivial (by simp) writable

end Token

namespace Document

theorem Printable.lexed_tokens {document : Document} (printable : document.Printable) :
    Token.Lexed document.tokens := by
  induction document with
  | empty => exact Token.lexed_nil
  | literal content next ih =>
      obtain ⟨nonempty, plain, apart, rest⟩ := printable
      exact (Token.lexed_cons_iff _ _).mpr
        ⟨⟨nonempty, plain⟩, isTag_of_mem_head? apart, ih rest⟩
  | block kind written consequent next inside later =>
      obtain ⟨writable, first, rest⟩ := printable
      exact (inside first).enclosed consequent.undivided_tokens.balanced writable (later rest)
  | choice kind written consequent alternative next inside otherwise later =>
      obtain ⟨writable, first, second, rest⟩ := printable
      have front := consequent.undivided_tokens.balanced
      have whole := front.append (.divider alternative.undivided_tokens.balanced)
      exact ((inside first).divided front (otherwise second)).enclosed whole writable (later rest)

theorem Printable.tokenize_print {document : Document} (printable : document.Printable) :
    Token.tokenize document.print = document.tokens := by
  rw [← sources_tokens]
  exact Token.tokenize_sources printable.lexed_tokens

end Document

end MailTemplate
