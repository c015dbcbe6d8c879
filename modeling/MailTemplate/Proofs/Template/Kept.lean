import MailTemplate.Proofs.Markup.Enclosing
import MailTemplate.Proofs.Markup.Finding
import MailTemplate.Proofs.Markup.Standing
import MailTemplate.Template.Report

/-!
What a problem is about: the token that it names, and the stretch of tokens that is kept as text
because of it.
-/

namespace MailTemplate

open Token (sources Balanced Stands)

def TokenSort.stray? (point : Point) : TokenSort → Option Diagnostic
  | .divider => some (.strayElse point)
  | .closing kind => some (.strayClose kind point)
  | .text | .opening _ _ => none

namespace Diagnostic

def isStray : Diagnostic → Bool
  | .strayClose _ _ | .strayElse _ => true
  | .unterminatedTag _ _ | .unclosedBlock _ _ _ | .mismatchedClose _ _ _ _ _
  | .invalidCondition _ _ _ | .nestingTooDeep _ _ => false

def keepsText : Diagnostic → Bool
  | .unterminatedTag _ _ | .unclosedBlock _ _ _ | .nestingTooDeep _ _ => true
  | .mismatchedClose _ _ _ accepted _ => !accepted
  | .strayClose _ _ | .strayElse _ | .invalidCondition _ _ _ => false

def Names : Diagnostic → TokenSort → Prop
  | .unterminatedTag kind _, sort => sort = .opening kind none
  | .unclosedBlock kind condition _, sort =>
      ∃ written, sort = .opening kind (some written) ∧ condition = written.trim
  | .mismatchedClose _ found _ _ _, sort => sort = .closing found
  | .strayClose kind _, sort => sort = .closing kind
  | .strayElse _, sort => sort = .divider
  | .invalidCondition condition _ _, sort =>
      ∃ kind written, sort = .opening kind (some written) ∧ condition = written.trim
  | .nestingTooDeep kind _, sort => ∃ written, sort = .opening kind (some written)

theorem Names.stray? {diagnostic : Diagnostic} {sort : TokenSort}
    (names : diagnostic.Names sort) (stray : diagnostic.isStray = true) :
    sort.stray? diagnostic.point = some diagnostic := by
  cases diagnostic with
  | strayClose kind point =>
      cases names
      rfl
  | strayElse point =>
      cases names
      rfl
  | unterminatedTag kind point => cases stray
  | unclosedBlock kind condition point => cases stray
  | mismatchedClose expected found condition accepted point => cases stray
  | invalidCondition condition reason point => cases stray
  | nestingTooDeep kind point => cases stray

end Diagnostic

theorem TokenSort.eq_of_stray? {sort : TokenSort} {point : Point} {diagnostic : Diagnostic}
    (stray : sort.stray? point = some diagnostic) :
    diagnostic.point = point ∧ diagnostic.Names sort ∧ diagnostic.isStray = true ∧
      diagnostic.keepsText = false := by
  cases sort with
  | text => cases stray
  | opening kind written => cases stray
  | divider =>
      cases stray
      exact ⟨rfl, rfl, rfl, rfl⟩
  | closing kind =>
      cases stray
      exact ⟨rfl, rfl, rfl, rfl⟩

inductive Abandons (start : Point) : List Token → Diagnostic → Prop
  | unterminated {kind remainder rest} :
      Abandons start (.unterminated kind remainder :: rest) (.unterminatedTag kind start)
  | unclosed {kind written rest} :
      Abandons start (.opening kind written :: rest) (.unclosedBlock kind written.trim start)
  | refused {kind written content found rest} (inside : Balanced content) :
      Abandons start (.opening kind written :: content ++ .closing found :: rest)
        (.mismatchedClose kind found written.trim false
          ((start.advance (Token.opening kind written).source).advance (sources content)))

/-- The stretches of tokens that are kept as text, each with the problem that is the reason.
`endings` are the literals that end a branch. -/
inductive Keeps (start : Point) (endings : List Span) : List Token → Diagnostic → Span → Prop
  /-- From an opening tag up to the end of its branch. -/
  | abandoned {before kept rest diagnostic opening ending}
      (opened : opening = start.advance (sources before))
      (abandons : Abandons opening kept diagnostic) (last : ending ∈ endings)
      (holds : ending.start ≤ opening.offset)
      (stops : ending.stop = opening.offset + (sources kept).byteSize) :
      Keeps start endings (before ++ kept ++ rest) diagnostic
        (.ofText opening.offset (sources kept))
  /-- From the opening tag of a block up to its closing tag. -/
  | tooDeep {before block rest kind written content closer opening}
      (opened : opening = start.advance (sources before))
      (shape : block = .opening kind written :: content ++ [.closing closer])
      (inside : Balanced content) :
      Keeps start endings (before ++ block ++ rest) (.nestingTooDeep kind opening)
        (.ofText opening.offset (sources block))

section

variable {start : Point} {endings : List Span} {tokens : List Token} {diagnostic : Diagnostic}
  {span : Span}

theorem Abandons.named (abandons : Abandons start tokens diagnostic) :
    diagnostic.keepsText = true ∧
      ∃ token, Stands start tokens token diagnostic.point ∧ diagnostic.Names token.sort := by
  cases abandons with
  | unterminated => exact ⟨rfl, _, ⟨[], _, rfl, rfl⟩, rfl⟩
  | unclosed => exact ⟨rfl, _, ⟨[], _, rfl, rfl⟩, _, rfl, rfl⟩
  | refused inside =>
      refine ⟨rfl, _, ⟨_, _, rfl, ?_⟩, rfl⟩
      simp [Diagnostic.point]

theorem Keeps.named (keeps : Keeps start endings tokens diagnostic span) :
    diagnostic.keepsText = true ∧
      ∃ token, Stands start tokens token diagnostic.point ∧ diagnostic.Names token.sort := by
  cases keeps with
  | abandoned opened abandons last holds stops =>
      obtain ⟨keepsText, token, stands, names⟩ := abandons.named
      refine ⟨keepsText, token, ?_, names⟩
      rw [List.append_assoc, Token.stands_append_iff, Token.stands_append_iff]
      exact .inr (.inl (opened ▸ stands))
  | tooDeep opened shape inside =>
      subst shape
      exact ⟨rfl, _, ⟨_, _, List.append_assoc _ _ _, opened⟩, _, rfl⟩

theorem Keeps.bounds (keeps : Keeps start endings tokens diagnostic span) :
    start.offset ≤ span.start ∧ span.stop ≤ start.offset + (sources tokens).byteSize := by
  cases keeps with
  | abandoned opened abandons last holds stops =>
      subst opened
      simp only [Span.ofText, Point.advance_offset, Token.sources_append, Text.byteSize_append]
      omega
  | tooDeep opened shape inside =>
      subst opened
      simp only [Span.ofText, Point.advance_offset, Token.sources_append, Text.byteSize_append]
      omega

theorem Keeps.of_part {inner : Point} {front back whole : List Token} {more : List Span}
    (keeps : Keeps inner endings tokens diagnostic span)
    (split : whole = front ++ tokens ++ back) (joins : inner = start.advance (sources front))
    (subset : endings ⊆ more) : Keeps start more whole diagnostic span := by
  subst joins
  cases keeps with
  | @abandoned before kept rest _ opening ending opened abandons last holds stops =>
      have around : whole = (front ++ before) ++ kept ++ (rest ++ back) := by simp [split]
      rw [around]
      exact .abandoned (by simp [opened]) abandons (subset last) holds stops
  | @tooDeep before block rest kind written content closer opening opened shape inside =>
      have around : whole = (front ++ before) ++ block ++ (rest ++ back) := by simp [split]
      rw [around]
      exact .tooDeep (by simp [opened]) shape inside

theorem Abandons.keeps (abandons : Abandons start tokens diagnostic) {ending : Span}
    (last : ending ∈ endings) (holds : ending.start ≤ start.offset)
    (stops : ending.stop = start.offset + (sources tokens).byteSize) :
    Keeps start endings tokens diagnostic (.ofText start.offset (sources tokens)) := by
  have whole : Keeps start endings ([] ++ tokens ++ []) diagnostic _ :=
    .abandoned (Point.advance_nil start).symm abandons last holds stops
  rwa [List.nil_append, List.append_nil] at whole

theorem FoundBlock.keeps {found : FoundBlock} (inside : Balanced found.branches.content)
    (start : Point) :
    Keeps start [] found.tokens (.nestingTooDeep found.kind start)
      (.ofText start.offset (sources found.tokens)) := by
  have whole : Keeps start [] ([] ++ found.tokens ++ []) (.nestingTooDeep found.kind start) _ :=
    .tooDeep (Point.advance_nil start).symm rfl inside
  rwa [List.nil_append, List.append_nil] at whole

end

namespace Scan

variable {options : Options} {tokens before : List Token}

theorem balanced_of_block {found : FoundBlock} {rest : List Token} (lexed : Token.Lexed tokens)
    (scanned : ofTokens options tokens = .block before found rest) :
    Balanced found.branches.content := by
  cases finds_of_eq scanned with
  | block flat read accepted =>
      have after := lexed.right.of_part (List.suffix_cons _ _).isInfix
      rw [Branches.content_split]
      exact ((Body.read?_eq_some_iff after _).mp read).2

theorem abandons_of_malformed {reason : Malformed} (lexed : Token.Lexed tokens)
    (scanned : ofTokens options tokens = .malformed before reason) (start : Point) :
    ∃ kept diagnostic, tokens = before ++ kept ∧ (∀ token ∈ before, ¬OpensBlock token) ∧
      (Report.ofMalformed start reason).diagnostics = [diagnostic] ∧
        Abandons start kept diagnostic := by
  cases finds_of_eq scanned with
  | unterminated flat => exact ⟨_, _, rfl, flat, rfl, .unterminated⟩
  | unclosed flat endless => exact ⟨_, _, rfl, flat, rfl, .unclosed⟩
  | refused flat read strict other =>
      have after := lexed.right.of_part (List.suffix_cons _ _).isInfix
      obtain ⟨rfl, inside⟩ := (Body.read?_eq_some_iff after _).mp read
      exact ⟨_, _, rfl, flat, rfl, .refused inside⟩

end Scan

end MailTemplate
