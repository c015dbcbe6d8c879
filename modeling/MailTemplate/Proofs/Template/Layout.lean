import MailTemplate.Proofs.Markup.Finding
import MailTemplate.Proofs.Markup.Lexed
import MailTemplate.Proofs.Template.Reading

/-!
Layouts: the tokens of a template in the places that reading gives them, wherever the template may
stand. What is read is the tree and the report of a layout.
-/

namespace MailTemplate

open Token (sources)

namespace FoundBlock

def single (kind : BlockKind) (written : Text) (consequent : List Token) (closer : BlockKind) :
    FoundBlock :=
  ⟨kind, written, ⟨consequent, none⟩, closer⟩

def double (kind : BlockKind) (written : Text) (consequent alternative : List Token)
    (closer : BlockKind) : FoundBlock :=
  ⟨kind, written, ⟨consequent, some alternative⟩, closer⟩

theorem sources_tokens_ne_nil (found : FoundBlock) : sources found.tokens ≠ [] := by
  simp [tokens, openingTag, Token.source, BlockKind.openingLiteral]

theorem eq_single {found : FoundBlock} (single : found.branches.alternative = none) :
    found = .single found.kind found.written found.branches.consequent found.closer := by
  obtain ⟨kind, written, ⟨consequent, alternative⟩, closer⟩ := found
  cases single
  rfl

theorem eq_double {found : FoundBlock} {second : List Token}
    (double : found.branches.alternative = some second) :
    found = .double found.kind found.written found.branches.consequent second found.closer := by
  obtain ⟨kind, written, ⟨consequent, alternative⟩, closer⟩ := found
  cases double
  rfl

end FoundBlock

inductive Layout where
  | flat (tokens : List Token)
  /-- The end of a branch that is kept as text from an opening tag on. -/
  | malformed (before : List Token) (reason : Malformed) (kept : List Token)
  /-- A block that is kept as text because of where it stands. -/
  | tooDeep (before : List Token) (found : FoundBlock) (next : Layout)
  | block (before : List Token) (kind : BlockKind) (written : Text) (consequent : Layout)
      (closer : BlockKind) (next : Layout)
  | choice (before : List Token) (kind : BlockKind) (written : Text)
      (consequent alternative : Layout) (closer : BlockKind) (next : Layout)

namespace Layout

def tokens : Layout → List Token
  | .flat tokens => tokens
  | .malformed before _ kept => before ++ kept
  | .tooDeep before found next => before ++ found.tokens ++ next.tokens
  | .block before kind written consequent closer next =>
      before ++ (FoundBlock.single kind written consequent.tokens closer).tokens ++ next.tokens
  | .choice before kind written consequent alternative closer next =>
      before ++
        (FoundBlock.double kind written consequent.tokens alternative.tokens closer).tokens ++
          next.tokens

def parsed (start : Point) : Layout → Parsed
  | .flat tokens => ⟨.ofText (sources tokens), .ofStrays start tokens⟩
  | .malformed before reason kept =>
      ⟨.ofText (sources (before ++ kept)),
        .ofStrays start before ++ .ofMalformed (start.advance (sources before)) reason⟩
  | .tooDeep before found next =>
      let opening := start.advance (sources before)
      let later := next.parsed (opening.advance (sources found.tokens))
      ⟨.withText (sources before) (.literal (sources found.tokens) later.tree),
        .ofStrays start before ++
            ⟨[.nestingTooDeep found.kind opening], [.nestingTooDeep found.kind opening]⟩ ++
          later.report⟩
  | .block before kind written consequent closer next =>
      let found := FoundBlock.single kind written consequent.tokens closer
      let opening := start.advance (sources before)
      let head := found.headAt opening
      let inside := consequent.parsed head.position.stop
      let later := next.parsed (opening.advance (sources found.tokens))
      ⟨.withText (sources before) (.block head inside.tree later.tree),
        .ofStrays start before ++ .ofCondition head ++
          .ofCloser head closer
            (head.position.stop.advance (sources found.branches.content)) ++
          inside.report ++ later.report⟩
  | .choice before kind written consequent alternative closer next =>
      let found := FoundBlock.double kind written consequent.tokens alternative.tokens closer
      let opening := start.advance (sources before)
      let head := found.headAt opening
      let inside := consequent.parsed head.position.stop
      let middle := head.position.stop.advance (sources consequent.tokens)
      let other := alternative.parsed (middle.advance dividerLiteral)
      let later := next.parsed (opening.advance (sources found.tokens))
      ⟨.withText (sources before) (.choice head inside.tree other.tree later.tree),
        .ofStrays start before ++ .ofCondition head ++
          .ofCloser head closer
            (head.position.stop.advance (sources found.branches.content)) ++
          inside.report ++ other.report ++ later.report⟩

def template (source : Text) (layout : Layout) : Template :=
  ⟨source, (layout.parsed .origin).tree, (layout.parsed .origin).report⟩

/-- How tokens are laid out, with one case for each outcome of looking for a block. -/
inductive Lays (options : Options) : Option Nat → List Token → Layout → Prop
  | flat {room tokens} (scanned : Scan.ofTokens options tokens = .literal) :
      Lays options room tokens (.flat tokens)
  | malformed {room before reason kept}
      (scanned : Scan.ofTokens options (before ++ kept) = .malformed before reason) :
      Lays options room (before ++ kept) (.malformed before reason kept)
  | tooDeep {tokens before found rest next}
      (scanned : Scan.ofTokens options tokens = .block before found rest)
      (later : Lays options (some 0) rest next) :
      Lays options (some 0) tokens (.tooDeep before found next)
  | block {room tokens before found rest consequent next}
      (scanned : Scan.ofTokens options tokens = .block before found rest)
      (single : found.branches.alternative = none) (shallow : room ≠ some 0)
      (inside : Lays options (room.map (· - 1)) found.branches.consequent consequent)
      (later : Lays options room rest next) :
      Lays options room tokens
        (.block before found.kind found.written consequent found.closer next)
  | choice {room tokens before found rest second consequent alternative next}
      (scanned : Scan.ofTokens options tokens = .block before found rest)
      (double : found.branches.alternative = some second) (shallow : room ≠ some 0)
      (inside : Lays options (room.map (· - 1)) found.branches.consequent consequent)
      (otherwise : Lays options (room.map (· - 1)) second alternative)
      (later : Lays options room rest next) :
      Lays options room tokens
        (.choice before found.kind found.written consequent alternative found.closer next)

variable {options : Options} {room : Option Nat} {tokens : List Token} {layout : Layout}

theorem Lays.tokens_eq (lays : Lays options room tokens layout) : layout.tokens = tokens := by
  induction lays with
  | flat scanned => rfl
  | malformed scanned => rfl
  | tooDeep scanned later ih => rw [Layout.tokens, ih, Scan.tokens_of_block scanned]
  | block scanned single shallow inside later insideIh laterIh =>
      rw [Layout.tokens, insideIh, laterIh, ← FoundBlock.eq_single single,
        Scan.tokens_of_block scanned]
  | choice scanned double shallow inside otherwise later insideIh otherwiseIh laterIh =>
      rw [Layout.tokens, insideIh, otherwiseIh, laterIh, ← FoundBlock.eq_double double,
        Scan.tokens_of_block scanned]

theorem exists_lays_of_reads {start : Point} {parsed : Parsed}
    (reads : Parsed.Reads options room start tokens parsed) :
    ∃ layout, Lays options room tokens layout := by
  induction reads with
  | literal scanned => exact ⟨_, .flat scanned⟩
  | malformed scanned =>
      obtain ⟨kept, rfl⟩ := Scan.prefix_of_malformed scanned
      exact ⟨_, .malformed scanned⟩
  | tooDeep scanned later ih =>
      obtain ⟨next, lays⟩ := ih
      exact ⟨_, .tooDeep scanned lays⟩
  | block scanned single shallow opened headed inside later insideIh laterIh =>
      obtain ⟨consequent, first⟩ := insideIh
      obtain ⟨next, last⟩ := laterIh
      exact ⟨_, .block scanned single shallow first last⟩
  | choice scanned double shallow opened headed inside otherwise later insideIh otherwiseIh laterIh =>
      obtain ⟨consequent, first⟩ := insideIh
      obtain ⟨alternative, second⟩ := otherwiseIh
      obtain ⟨next, last⟩ := laterIh
      exact ⟨_, .choice scanned double shallow first second last⟩

theorem exists_lays (options : Options) (room : Option Nat) (tokens : List Token) :
    ∃ layout, Lays options room tokens layout :=
  exists_lays_of_reads (Parsed.reads_ofTokens options room .origin tokens)

theorem Lays.reads (lays : Lays options room tokens layout) (start : Point) :
    Parsed.Reads options room start tokens (layout.parsed start) := by
  induction lays generalizing start with
  | flat scanned => exact .literal scanned
  | malformed scanned => exact .malformed scanned
  | tooDeep scanned later ih =>
      rw [parsed, ← Tree.withText_of_ne_nil (FoundBlock.sources_tokens_ne_nil _)]
      exact .tooDeep scanned (ih _)
  | block scanned single shallow inside later insideIh laterIh =>
      have same := FoundBlock.eq_single single
      rw [← inside.tokens_eq] at same
      simp only [parsed, ← same]
      exact .block scanned single shallow rfl rfl (insideIh _) (laterIh _)
  | choice scanned double shallow inside otherwise later insideIh otherwiseIh laterIh =>
      have same := FoundBlock.eq_double double
      rw [← inside.tokens_eq, ← otherwise.tokens_eq] at same
      simp only [parsed, ← same]
      rw [inside.tokens_eq]
      exact .choice scanned double shallow rfl rfl (insideIh _) (otherwiseIh _) (laterIh _)

theorem Lays.template_eq {source : Text} (lays : Lays options room (Token.tokenize source) layout) :
    Template.parseWithin room options source = layout.template source := by
  rw [Template.parseWithin, (lays.reads .origin).ofTokens_eq, template]

end Layout

end MailTemplate
