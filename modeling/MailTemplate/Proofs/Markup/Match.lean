import MailTemplate.Markup.Match
import MailTemplate.Proofs.Markup.Lexed
import MailTemplate.Proofs.Text.Slice

/-!
What the ranges of a found block are ranges of: each cuts out the text of the tokens it was computed
from, and together they cover the block without a gap.
-/

namespace MailTemplate

open Token (sources tokenize)

namespace FoundBlock

def branch (block : FoundBlock) (first : Bool) : List Token :=
  if first then block.branches.consequent else block.branches.alternative.getD []

theorem branch_part (block : FoundBlock) (first : Bool) :
    block.branch first <:+: block.branches.content := by
  unfold branch Branches.content
  cases block.branches.alternative with
  | none =>
      cases first with
      | false => exact List.nil_infix
      | true => exact List.infix_rfl
  | some second =>
      cases first with
      | false => exact ⟨block.branches.consequent ++ [.divider], [], by simp⟩
      | true => exact ⟨[], .divider :: second, rfl⟩

theorem branch_part_tokens (block : FoundBlock) (first : Bool) :
    block.branch first <:+: block.tokens := by
  have content : block.branches.content <:+: block.tokens :=
    ⟨[block.openingTag], [block.closingTag], rfl⟩
  exact (block.branch_part first).trans content

theorem byteSize_branch_lt (block : FoundBlock) (first : Bool) :
    (sources (block.branch first)).byteSize < (sources block.tokens).byteSize := by
  have opening : 0 < block.openingTag.source.byteSize := by
    have positive := ('{').utf8Size_pos
    simp only [openingTag, Token.source, BlockKind.openingLiteral, Text.byteSize_append,
      List.cons_append, Text.byteSize_cons]
    omega
  obtain ⟨front, back, content⟩ := block.branch_part first
  simp only [tokens, ← content, List.cons_append, Token.sources_cons, Token.sources_append,
    Text.byteSize_append]
  omega

@[simp] theorem locate_opening_start (block : FoundBlock) (start : Nat) :
    (block.locate start).opening.start = start := rfl

theorem locate_closing_start (block : FoundBlock) (start : Nat) :
    (block.locate start).closing.start =
      (block.locate start).opening.stop + (sources block.branches.content).byteSize := by
  unfold locate Branches.content
  cases block.branches.alternative with
  | none => simp [Span.ofText]
  | some second => simp [Span.ofText, Token.source, Nat.add_assoc]

theorem locate_closing_stop (block : FoundBlock) (start : Nat) :
    (block.locate start).closing.stop = start + (sources block.tokens).byteSize := by
  unfold locate tokens Branches.content
  cases block.branches.alternative with
  | none => simp [Span.ofText, Nat.add_assoc]
  | some second => simp [Span.ofText, Token.source, Nat.add_assoc]

section

variable {text front back : Text} {block : FoundBlock}

theorem slice?_locate (split : text = front ++ sources block.tokens ++ back) :
    text.slice? (block.locate front.byteSize).opening.start
      (block.locate front.byteSize).closing.stop = some (sources block.tokens) :=
  Text.slice?_of_split split rfl (locate_closing_stop block front.byteSize).symm

theorem slice?_opening (split : text = front ++ sources block.tokens ++ back) :
    text.slice? (block.locate front.byteSize).opening.start
      (block.locate front.byteSize).opening.stop = some block.openingTag.source := by
  have parts : text = front ++ block.openingTag.source ++
      (sources (block.branches.content ++ [block.closingTag]) ++ back) := by
    rw [split, tokens]
    simp
  exact Text.slice?_of_split parts rfl rfl

theorem slice?_content (split : text = front ++ sources block.tokens ++ back) :
    text.slice? (block.locate front.byteSize).opening.stop
      (block.locate front.byteSize).closing.start = some (sources block.branches.content) := by
  have parts : text = (front ++ block.openingTag.source) ++ sources block.branches.content ++
      (block.closingTag.source ++ back) := by
    rw [split, tokens]
    simp
  apply Text.slice?_of_split parts
  · exact Text.byteSize_append _ _
  · rw [locate_closing_start, Text.byteSize_append]
    rfl

theorem slice?_closing (split : text = front ++ sources block.tokens ++ back) :
    text.slice? (block.locate front.byteSize).closing.start
      (block.locate front.byteSize).closing.stop = some block.closingTag.source := by
  have parts : text = (front ++ block.openingTag.source ++ sources block.branches.content) ++
      block.closingTag.source ++ back := by
    rw [split, tokens]
    simp
  have start : (front ++ block.openingTag.source ++ sources block.branches.content).byteSize =
      (block.locate front.byteSize).closing.start := by
    rw [locate_closing_start, Text.byteSize_append, Text.byteSize_append]
    rfl
  apply Text.slice?_of_split parts start
  rw [start]
  rfl

theorem slice?_consequent (split : text = front ++ sources block.tokens ++ back) :
    text.slice? (block.locate front.byteSize).consequent.start
      (block.locate front.byteSize).consequent.stop = some (sources block.branches.consequent) := by
  obtain ⟨after, content⟩ : block.branches.consequent <+: block.branches.content := by
    unfold Branches.content
    cases block.branches.alternative with
    | none => exact List.prefix_rfl
    | some second => exact List.prefix_append _ _
  have parts : text = (front ++ block.openingTag.source) ++ sources block.branches.consequent ++
      (sources (after ++ [block.closingTag]) ++ back) := by
    rw [split, tokens, ← content]
    simp
  apply Text.slice?_of_split parts
  · exact Text.byteSize_append _ _
  · simp [locate, Span.ofText]

theorem slice?_alternative {second : List Token} {span : Span}
    (split : text = front ++ sources block.tokens ++ back)
    (double : block.branches.alternative = some second)
    (located : (block.locate front.byteSize).alternative = some span) :
    text.slice? span.start span.stop = some (sources second) := by
  have parts : text = (front ++ block.openingTag.source ++ sources block.branches.consequent ++
      dividerLiteral) ++ sources second ++ (block.closingTag.source ++ back) := by
    rw [split, tokens, Branches.content, double]
    simp [Token.source]
  simp only [locate, double, Option.map_some, Option.some.injEq] at located
  subst located
  apply Text.slice?_of_split parts
  · simp [Span.ofText, Nat.add_assoc]
  · simp [Span.ofText, Nat.add_assoc]

theorem slice?_divider {second : List Token} {span : Span}
    (split : text = front ++ sources block.tokens ++ back)
    (double : block.branches.alternative = some second)
    (located : (block.locate front.byteSize).alternative = some span) :
    text.slice? (block.locate front.byteSize).consequent.stop span.start = some dividerLiteral := by
  have parts : text = (front ++ block.openingTag.source ++ sources block.branches.consequent) ++
      dividerLiteral ++ (sources second ++ block.closingTag.source ++ back) := by
    rw [split, tokens, Branches.content, double]
    simp [Token.source]
  simp only [locate, double, Option.map_some, Option.some.injEq] at located
  subst located
  apply Text.slice?_of_split parts
  · simp [locate, Span.ofText, Nat.add_assoc]
  · simp [Span.ofText, Nat.add_assoc]

end

end FoundBlock

namespace Scan

variable {options : Options} {text behind ahead : Text} {before rest : List Token}
variable {found : FoundBlock}

theorem eq_append_of_block (split : text = behind ++ ahead)
    (scanned : ofTokens options (tokenize ahead) = .block before found rest) :
    text = (behind ++ sources before ++ sources found.tokens) ++ sources rest := by
  rw [split, ← Token.sources_tokenize ahead, tokens_of_block scanned]
  simp

theorem tokenize_rest_of_block
    (scanned : ofTokens options (tokenize ahead) = .block before found rest) :
    tokenize (sources rest) = rest := by
  have part : rest <:+: tokenize ahead := by
    refine ⟨before ++ found.tokens, [], ?_⟩
    rw [tokens_of_block scanned, List.append_nil]
  exact Token.tokenize_sources_of_part part

theorem tokenize_branch_of_block
    (scanned : ofTokens options (tokenize ahead) = .block before found rest) (first : Bool) :
    tokenize (sources (found.branch first)) = found.branch first := by
  have whole : found.tokens <:+: tokenize ahead := ⟨before, rest, (tokens_of_block scanned).symm⟩
  exact Token.tokenize_sources_of_part ((found.branch_part_tokens first).trans whole)

end Scan

theorem matchBlock_of_split {text behind ahead : Text} (options : Options)
    (split : text = behind ++ ahead) :
    matchBlock options text behind.byteSize =
      (Scan.ofTokens options (tokenize ahead)).locate behind.byteSize := by
  have cut : text.cutAt? behind.byteSize = some (behind, ahead) :=
    (Text.cutAt?_eq_some_iff _ _ _ _).mpr ⟨split, rfl⟩
  simp only [matchBlock, cut]

theorem exists_of_matchBlock {options : Options} {text : Text} {cursor : Nat} {block : MatchedBlock}
    (matched : matchBlock options text cursor = .block block) :
    ∃ front, ∃ found : FoundBlock, ∃ rest, text = front ++ sources found.tokens ++ sources rest ∧
      cursor ≤ front.byteSize ∧ block = found.locate front.byteSize := by
  unfold matchBlock at matched
  split at matched
  · cases matched
  · rename_i behind ahead cut
    obtain ⟨split, size⟩ := (Text.cutAt?_eq_some_iff _ _ _ _).mp cut
    cases scanned : Scan.ofTokens options (tokenize ahead) with
    | literal =>
        rw [scanned] at matched
        cases matched
    | malformed before reason =>
        rw [scanned] at matched
        cases matched
    | block before found rest =>
        rw [scanned] at matched
        cases matched
        refine ⟨behind ++ sources before, found, rest, ?_, ?_, ?_⟩
        · exact Scan.eq_append_of_block split scanned
        · rw [Text.byteSize_append]
          omega
        · rw [Text.byteSize_append, size]

end MailTemplate
