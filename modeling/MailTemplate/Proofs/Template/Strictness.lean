import MailTemplate.Proofs.Template.Layout
import MailTemplate.Proofs.Template.Variables

/-!
What strictness changes. Looking for a block depends on it only at a closing tag of the other kind.
Where such a tag is reported nowhere, a strict reading is also a lenient one, and a lenient reading
renders as a strict one does.
-/

namespace MailTemplate

def Diagnostic.isMismatch : Diagnostic → Bool
  | .mismatchedClose _ _ _ _ _ => true
  | _ => false

namespace Report

def Matched (report : Report) : Prop :=
  ∀ diagnostic ∈ report.diagnostics, diagnostic.isMismatch = false

@[simp] theorem matched_append_iff (first second : Report) :
    (first ++ second).Matched ↔ first.Matched ∧ second.Matched :=
  List.forall_mem_append

theorem Matched.closer {head : BlockHead} {closer : BlockKind} {point : Point}
    (matched : (ofCloser head closer point).Matched) : head.kind = closer := by
  unfold ofCloser at matched
  split at matched
  · assumption
  · exact absurd (matched _ List.mem_cons_self) (by simp [Diagnostic.isMismatch])

theorem matched_empty : empty.Matched := by
  simp [Matched, empty]

theorem matched_ofCloser {head : BlockHead} {closer : BlockKind} (same : head.kind = closer)
    (point : Point) : (ofCloser head closer point).Matched := by
  rw [ofCloser, if_pos same]
  exact matched_empty

theorem matched_ofCondition (head : BlockHead) : (ofCondition head).Matched := by
  unfold ofCondition
  split
  · exact matched_empty
  · intro diagnostic member
    cases List.mem_singleton.mp member
    rfl

end Report

namespace Scan

def Matched : Scan → Prop
  | .literal | .malformed _ (.unterminatedTag _) | .malformed _ (.unclosed _ _) => True
  | .malformed _ (.mismatchedClose _ _ _ _) => False
  | .block _ found _ => found.kind = found.closer

theorem matched_push_iff (token : Token) (scan : Scan) : (scan.push token).Matched ↔ scan.Matched := by
  cases scan with
  | literal => exact Iff.rfl
  | malformed before reason => cases reason <;> exact Iff.rfl
  | block before found rest => exact Iff.rfl

theorem ofBody_of_matched {options : Options} {kind : BlockKind} {written : Text} {body : Body}
    (matched : (ofBody options kind written body).Matched) (other : Options) :
    ofBody other kind written body = ofBody options kind written body := by
  have same : kind = body.closer := by
    unfold ofBody at matched
    split at matched
    · exact matched.elim
    · exact matched
  simp [ofBody, same]

theorem ofTokens_of_matched {options : Options} {tokens : List Token}
    (matched : (ofTokens options tokens).Matched) (other : Options) :
    ofTokens other tokens = ofTokens options tokens := by
  induction tokens with
  | nil => rfl
  | cons token tokens ih =>
      have later (matched : ((ofTokens options tokens).push token).Matched) :
          (ofTokens other tokens).push token = (ofTokens options tokens).push token := by
        rw [ih ((matched_push_iff token _).mp matched)]
      cases token with
      | text content => exact later matched
      | divider => exact later matched
      | closing kind => exact later matched
      | unterminated kind remainder => rfl
      | opening kind written =>
          simp only [ofTokens] at matched ⊢
          cases read : Body.read? 0 tokens with
          | none => rfl
          | some body =>
              rw [read] at matched
              exact ofBody_of_matched matched other

theorem ofTokens_eq_of_matched {options : Options} {tokens : List Token} {scan : Scan}
    (scanned : ofTokens options tokens = scan) (matched : scan.Matched) (other : Options) :
    ofTokens other tokens = scan := by
  subst scanned
  exact ofTokens_of_matched matched other

theorem matched_malformed {start : Point} {reason : Malformed}
    (quiet : (Report.ofMalformed start reason).Matched) (before : List Token) :
    (malformed before reason).Matched := by
  cases reason with
  | unterminatedTag kind => exact trivial
  | unclosed kind written => exact trivial
  | mismatchedClose kind written content found =>
      exact absurd (quiet _ List.mem_cons_self) (by simp [Diagnostic.isMismatch])

end Scan

namespace Parsed

open Token (sources)

variable {options : Options} {room : Option Nat} {start : Point} {tokens : List Token}
  {parsed : Parsed}

theorem Reads.of_strict (reads : Reads options room start tokens parsed)
    (strict : options.strictClosers = true) (matched : parsed.report.Matched) (other : Options) :
    Reads other room start tokens parsed := by
  induction reads with
  | literal scanned => exact .literal (Scan.ofTokens_eq_of_matched scanned trivial other)
  | malformed scanned =>
      rw [Report.matched_append_iff] at matched
      exact .malformed
        (Scan.ofTokens_eq_of_matched scanned (Scan.matched_malformed matched.2 _) other)
  | tooDeep scanned later ih =>
      -- The report is silent about the closing tag of such a block: it is strictness that says it.
      have own := Scan.closer_of_block scanned strict
      simp only [Report.matched_append_iff] at matched
      exact .tooDeep (Scan.ofTokens_eq_of_matched scanned own other) (ih matched.2)
  | block scanned single shallow opened headed inside later insideIh laterIh =>
      have own := Scan.closer_of_block scanned strict
      simp only [Report.matched_append_iff] at matched
      exact .block (Scan.ofTokens_eq_of_matched scanned own other) single shallow opened headed
        (insideIh matched.1.2) (laterIh matched.2)
  | choice scanned double shallow opened headed inside otherwise later insideIh otherwiseIh laterIh =>
      have own := Scan.closer_of_block scanned strict
      simp only [Report.matched_append_iff] at matched
      exact .choice (Scan.ofTokens_eq_of_matched scanned own other) double shallow opened headed
        (insideIh matched.1.1.2) (otherwiseIh matched.1.2) (laterIh matched.2)

theorem Reads.text_expand_of_no_room (reads : Reads options room start tokens parsed)
    (none : room = some 0) (context : Context) :
    (parsed.tree.expand context).text = sources tokens := by
  induction reads with
  | literal scanned => exact Tree.text_expand_ofText context _
  | malformed scanned => exact Tree.text_expand_ofText context _
  | tooDeep scanned later ih =>
      rw [Tree.text_expand_withText, Tree.text_expand_withText, ih none,
        Scan.tokens_of_block scanned]
      simp
  | block scanned single shallow opened headed inside later => exact absurd none shallow
  | choice scanned double shallow opened headed inside otherwise later => exact absurd none shallow

theorem Reads.text_expand_of_matched (reads : Reads options room start tokens parsed)
    (matched : parsed.report.Matched) (other : Options) (context : Context) :
    ((ofTokens other room start tokens).tree.expand context).text =
      (parsed.tree.expand context).text := by
  induction reads with
  | literal scanned =>
      rw [ofTokens_of_literal (Scan.ofTokens_eq_of_matched scanned trivial other)]
  | malformed scanned =>
      rw [Report.matched_append_iff] at matched
      rw [ofTokens_of_malformed
        (Scan.ofTokens_eq_of_matched scanned (Scan.matched_malformed matched.2 _) other)]
  | tooDeep scanned later =>
      -- Here the two trees may differ, but nothing of either of them is left out or resolved.
      have otherwise := reads_ofTokens other (some 0)
      rw [(otherwise _ _).text_expand_of_no_room rfl]
      exact ((Reads.tooDeep scanned later).text_expand_of_no_room rfl context).symm
  | block scanned single shallow opened headed inside later insideIh laterIh =>
      simp only [Report.matched_append_iff] at matched
      subst opened headed
      have scannedOther := Scan.ofTokens_eq_of_matched scanned matched.1.1.2.closer other
      rw [ofTokens_of_block scannedOther single shallow]
      simp only [Tree.text_expand_withText, Tree.text_expand_block, insideIh matched.1.2,
        laterIh matched.2]
  | choice scanned double shallow opened headed inside otherwise later insideIh otherwiseIh laterIh =>
      simp only [Report.matched_append_iff] at matched
      subst opened headed
      have scannedOther := Scan.ofTokens_eq_of_matched scanned matched.1.1.1.2.closer other
      rw [ofTokens_of_choice scannedOther double shallow]
      simp only [Tree.text_expand_withText, Tree.text_expand_choice, insideIh matched.1.1.2,
        otherwiseIh matched.1.2, laterIh matched.2]

end Parsed

namespace Layout

open Token (sources)

def enclose (layout : Layout) : Layout :=
  .block [] .ifTrue [' ', 'a'] layout .ifTrue (.flat [])

def nest (layout : Layout) : Nat → Layout
  | 0 => layout
  | levels + 1 => (layout.nest levels).enclose

section

variable {options : Options} {room : Nat} {layout first second : Layout}

theorem tokens_enclose (layout : Layout) :
    layout.enclose.tokens =
      .opening .ifTrue [' ', 'a'] :: layout.tokens ++ .closing .ifTrue :: [] := by
  simp [enclose, tokens, FoundBlock.tokens, FoundBlock.openingTag, FoundBlock.closingTag,
    FoundBlock.single, Branches.content]

theorem tokens_nest (same : first.tokens = second.tokens) (levels : Nat) :
    (first.nest levels).tokens = (second.nest levels).tokens := by
  induction levels with
  | zero => exact same
  | succ levels ih => rw [nest, nest, tokens_enclose, tokens_enclose, ih]

theorem undivided_nest (undivided : Token.Undivided layout.tokens) (levels : Nat) :
    Token.Undivided (layout.nest levels).tokens := by
  induction levels with
  | zero => exact undivided
  | succ levels ih =>
      rw [nest, tokens_enclose]
      exact .block ih.balanced .nil

theorem lexed_nest (undivided : Token.Undivided layout.tokens) (lexed : Token.Lexed layout.tokens)
    (levels : Nat) : Token.Lexed (layout.nest levels).tokens := by
  induction levels with
  | zero => exact lexed
  | succ levels ih =>
      have writable : Text.Writable [' ', 'a'] := by decide
      rw [nest, tokens_enclose]
      exact ih.enclosed (undivided_nest undivided levels).balanced writable Token.lexed_nil

theorem Lays.nest (undivided : Token.Undivided layout.tokens)
    (lays : Lays options (some room) layout.tokens layout) (levels : Nat) :
    Lays options (some (room + levels)) (layout.nest levels).tokens (layout.nest levels) := by
  induction levels with
  | zero => exact lays
  | succ levels ih =>
      have inner := undivided_nest undivided levels
      have scanned := Scan.ofTokens_undivided inner options .ifTrue [' ', 'a'] []
      rw [← tokens_enclose] at scanned
      exact .block scanned rfl (by simp) ih (.flat rfl)

theorem tree_nest_ne (differ : ∀ start, (first.parsed start).tree ≠ (second.parsed start).tree)
    (levels : Nat) (start : Point) :
    ((first.nest levels).parsed start).tree ≠ ((second.nest levels).parsed start).tree := by
  induction levels generalizing start with
  | zero => exact differ start
  | succ levels ih =>
      intro same
      simp only [nest, enclose, parsed, Token.sources_nil, Tree.withText_nil,
        Tree.block.injEq] at same
      exact ih _ same.2.1

theorem matched_nest (matched : ∀ start, (layout.parsed start).report.Matched) (levels : Nat)
    (start : Point) : ((layout.nest levels).parsed start).report.Matched := by
  induction levels generalizing start with
  | zero => exact matched start
  | succ levels ih =>
      simp only [nest, enclose, parsed, Report.matched_append_iff]
      refine ⟨⟨⟨⟨Report.matched_empty, Report.matched_ofCondition _⟩, ?_⟩, ih _⟩,
        Report.matched_empty⟩
      exact Report.matched_ofCloser rfl _

end

/-- A block with a closing tag of the other kind, where no block may be opened. -/
def accepted : Layout :=
  .tooDeep [] ⟨.ifTrue, [' ', 'x'], ⟨[], none⟩, .unlessTrue⟩ (.flat [.text ['!']])

def refused : Layout :=
  .malformed [] (.mismatchedClose .ifTrue [' ', 'x'] [] .unlessTrue) accepted.tokens

def deepSource : Text :=
  sources (accepted.nest maxNestingDepth).tokens

theorem parse_deepSource {options : Options} {layout : Layout}
    (same : layout.tokens = accepted.tokens)
    (lays : Lays options (some 0) layout.tokens layout) :
    Template.parse options deepSource = (layout.nest maxNestingDepth).template deepSource := by
  have undivided : Token.Undivided accepted.tokens := .block .nil (.text .nil)
  have lexed : Token.Lexed accepted.tokens := by
    have writable : Text.Writable [' ', 'x'] := by decide
    have plain : Text.Plain ['!'] := by decide
    simp [accepted, tokens, FoundBlock.tokens, FoundBlock.openingTag, FoundBlock.closingTag,
      Branches.content, Token.lexed_cons_iff, Token.lexed_nil, Token.IsLexed, Token.MayPrecede,
      writable, plain]
  have tokens : Token.tokenize deepSource = (layout.nest maxNestingDepth).tokens := by
    rw [deepSource, Token.tokenize_sources (lexed_nest undivided lexed _), tokens_nest same]
  have nested := lays.nest (same ▸ undivided) maxNestingDepth
  rw [Nat.zero_add, ← tokens] at nested
  exact nested.template_eq

end Layout

namespace Template

open Document (partialTags)
open Layout (accepted refused deepSource)

/-- A strict reading that reports no closing tag of the other kind is the lenient one, and a lenient
reading that reports none renders like the strict one. -/
theorem strict_agrees_lenient (source : Text) :
    ((∀ diagnostic ∈ (parse .strict source).diagnostics, diagnostic.isMismatch = false) →
        parse .strict source = parse .lenient source) ∧
      ((∀ diagnostic ∈ (parse .lenient source).diagnostics, diagnostic.isMismatch = false) →
        ∀ context, (parse .strict source).expand context = (parse .lenient source).expand context ∧
          (parse .strict source).render context = (parse .lenient source).render context) := by
  constructor
  · intro matched
    have reads := Parsed.reads_ofTokens .strict (some maxNestingDepth) .origin
      (Token.tokenize source)
    have same := (reads.of_strict rfl matched .lenient).ofTokens_eq
    rw [parse, parse, parseWithin, parseWithin, same]
  · intro matched context
    have reads := Parsed.reads_ofTokens .lenient (some maxNestingDepth) .origin
      (Token.tokenize source)
    have same : (parse .strict source).expand context = (parse .lenient source).expand context :=
      reads.text_expand_of_matched matched .strict context
    exact ⟨same, by rw [render_eq, render_eq, same]⟩

/-- The trees may differ where no block may be opened. -/
theorem strict_agrees_lenient_deepSource :
    ((∀ diagnostic ∈ (parse .strict partialTags.print).diagnostics,
          diagnostic.isMismatch = false) ∧
        parse .strict partialTags.print = parse .lenient partialTags.print) ∧
      (∀ diagnostic ∈ (parse .lenient deepSource).diagnostics, diagnostic.isMismatch = false) ∧
        (parse .strict deepSource).tree ≠ (parse .lenient deepSource).tree ∧
        ∀ context,
          (parse .strict deepSource).expand context = (parse .lenient deepSource).expand context ∧
          (parse .strict deepSource).render context =
            (parse .lenient deepSource).render context := by
  have flat : ∀ diagnostic ∈ (parse .strict partialTags.print).diagnostics,
      diagnostic.isMismatch = false := by
    rw [Document.parse_eq_of_printable .strict (by decide) (by decide)]
    decide
  have lenient : parse .lenient deepSource = (accepted.nest maxNestingDepth).template deepSource :=
    Layout.parse_deepSource rfl (.tooDeep rfl (.flat rfl))
  have strict : parse .strict deepSource = (refused.nest maxNestingDepth).template deepSource :=
    Layout.parse_deepSource rfl (.malformed rfl)
  have matched : ∀ diagnostic ∈ (parse .lenient deepSource).diagnostics,
      diagnostic.isMismatch = false := by
    rw [lenient]
    refine Layout.matched_nest (fun start diagnostic member => ?_) _ _
    cases List.mem_singleton.mp member
    rfl
  refine ⟨⟨flat, (strict_agrees_lenient partialTags.print).1 flat⟩, matched, ?_,
    (strict_agrees_lenient deepSource).2 matched⟩
  rw [strict, lenient]
  refine Layout.tree_nest_ne (fun start same => ?_) _ _
  injection same with _ none
  cases none

end Template

end MailTemplate
