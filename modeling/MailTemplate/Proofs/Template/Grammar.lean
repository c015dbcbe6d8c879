import MailTemplate.Proofs.Condition
import MailTemplate.Proofs.Markup.Finding
import MailTemplate.Proofs.Template.Printing

/-!
The grammar of templates without problems, and the result that checking a template accepts exactly
this grammar, with or without strictness.
-/

namespace MailTemplate

def Text.Readable (written : Text) : Prop :=
  ∃ condition, Condition.parse written = .ok condition

inductive Derived : Nat → List Token → Prop
  | empty : Derived 0 []
  | text {nesting content tokens} : Derived nesting tokens →
      Derived nesting (.text content :: tokens)
  | block {inner nesting kind written content tokens} : written.Readable →
      Derived inner content → Derived nesting tokens →
      Derived (max (inner + 1) nesting)
        (.opening kind written :: content ++ .closing kind :: tokens)
  | choice {first second nesting kind written content other tokens} : written.Readable →
      Derived first content → Derived second other → Derived nesting tokens →
      Derived (max (max first second + 1) nesting)
        (.opening kind written :: (content ++ .divider :: other) ++ .closing kind :: tokens)

theorem BlockHead.complaint?_eq_none_iff (head : BlockHead) :
    head.complaint? = none ↔ head.written.Readable := by
  rw [complaint?, Condition.parse_trim, Text.Readable]
  cases Condition.parse head.written <;> simp

theorem Text.Readable.complaint?_after {written : Text} (readable : written.Readable)
    (before : Text) (kind : BlockKind) : (BlockHead.after before kind written).complaint? = none :=
  (BlockHead.complaint?_eq_none_iff _).mpr readable

namespace Report

theorem readable_of_ofCondition {head : BlockHead}
    (clean : (ofCondition head).diagnostics = []) : head.written.Readable := by
  rw [ofCondition_eq, Option.toList_eq_nil_iff] at clean
  exact (BlockHead.complaint?_eq_none_iff head).mp clean

theorem kind_of_ofCloser {head : BlockHead} {closer : BlockKind} {point : Point}
    (clean : (ofCloser head closer point).diagnostics = []) : head.kind = closer := by
  unfold ofCloser at clean
  split at clean
  · assumption
  · simp at clean

end Report

namespace FoundBlock

theorem tokens_single {found : FoundBlock} (single : found.branches.alternative = none)
    (closed : found.kind = found.closer) (rest : List Token) :
    found.tokens ++ rest =
      .opening found.kind found.written :: found.branches.consequent ++
        .closing found.kind :: rest := by
  simp [tokens, openingTag, closingTag, Branches.content, single, closed]

theorem tokens_double {found : FoundBlock} {second : List Token}
    (double : found.branches.alternative = some second) (closed : found.kind = found.closer)
    (rest : List Token) :
    found.tokens ++ rest =
      .opening found.kind found.written :: (found.branches.consequent ++ .divider :: second) ++
        .closing found.kind :: rest := by
  simp [tokens, openingTag, closingTag, Branches.content, double, closed]

end FoundBlock

theorem nesting_le_of_below {room : Option Nat} {inner nesting : Nat} (shallow : room ≠ some 0)
    (below : ∀ limit ∈ room.map (· - 1), inner ≤ limit) (bound : ∀ limit ∈ room, nesting ≤ limit) :
    ∀ limit ∈ room, max (inner + 1) nesting ≤ limit := by
  rintro limit ⟨⟩
  have positive : limit ≠ 0 := by
    rintro rfl
    exact shallow rfl
  have inside := below (limit - 1) rfl
  have outside := bound limit rfl
  omega

namespace Derived

/-- A derivation is a document in which every condition can be read. -/
theorem exists_document {nesting : Nat} {tokens : List Token} (derived : Derived nesting tokens)
    (lexed : Token.Lexed tokens) :
    ∃ document : Document, document.tokens = tokens ∧ document.nesting = nesting ∧
      document.Printable ∧
        ∀ before, (document.tree before).heads.filterMap BlockHead.complaint? = [] := by
  induction derived with
  | empty => exact ⟨.empty, rfl, rfl, trivial, fun _ => rfl⟩
  | text _ ih =>
      obtain ⟨here, follows, later⟩ := (Token.lexed_cons_iff _ _).mp lexed
      obtain ⟨next, rfl, rfl, printable, quiet⟩ := ih later
      have apart : ¬next.StartsWithLiteral := by
        cases next with
        | literal content next => exact fun _ => follows _ rfl
        | empty => exact id
        | block kind written consequent next => exact id
        | choice kind written consequent alternative next => exact id
      exact ⟨.literal _ next, rfl, rfl, ⟨here.1, here.2, apart, printable⟩,
        fun before => quiet _⟩
  | block readable _ _ inside later =>
      obtain ⟨writable, _, within⟩ := (Token.lexed_cons_iff _ _).mp lexed.left
      obtain ⟨_, _, after⟩ := (Token.lexed_cons_iff _ _).mp lexed.right
      obtain ⟨consequent, rfl, rfl, first, firstQuiet⟩ := inside within
      obtain ⟨next, rfl, rfl, rest, restQuiet⟩ := later after
      refine ⟨.block _ _ consequent next, rfl, rfl, ⟨writable, first, rest⟩, ?_⟩
      intro before
      simp [Document.tree, Tree.heads, readable.complaint?_after, firstQuiet, restQuiet]
  | choice readable _ _ _ inside otherwise later =>
      obtain ⟨writable, _, within⟩ := (Token.lexed_cons_iff _ _).mp lexed.left
      obtain ⟨_, _, between⟩ := (Token.lexed_cons_iff _ _).mp within.right
      obtain ⟨_, _, after⟩ := (Token.lexed_cons_iff _ _).mp lexed.right
      obtain ⟨consequent, rfl, rfl, first, firstQuiet⟩ := inside within.left
      obtain ⟨alternative, rfl, rfl, second, secondQuiet⟩ := otherwise between
      obtain ⟨next, rfl, rfl, rest, restQuiet⟩ := later after
      refine ⟨.choice _ _ consequent alternative next, rfl, rfl, ⟨writable, first, second, rest⟩, ?_⟩
      intro before
      simp [Document.tree, Tree.heads, readable.complaint?_after, firstQuiet, secondQuiet,
        restQuiet]

theorem after_flat {nesting : Nat} {before tokens : List Token} (derived : Derived nesting tokens)
    (flat : ∀ token ∈ before, ¬Scan.OpensBlock token) (start : Point)
    (clean : (Report.ofStrays start before).diagnostics = []) :
    Derived nesting (before ++ tokens) := by
  induction before generalizing start with
  | nil => exact derived
  | cons token before ih =>
      rw [List.forall_mem_cons] at flat
      cases token with
      | text content => exact .text (ih flat.2 _ clean)
      | opening kind written => exact absurd trivial flat.1
      | unterminated kind remainder => exact absurd trivial flat.1
      | divider => simp [Report.ofStrays] at clean
      | closing kind => simp [Report.ofStrays] at clean

theorem of_reads {options : Options} {room : Option Nat} {start : Point} {tokens : List Token}
    {parsed : Parsed} (reads : Parsed.Reads options room start tokens parsed)
    (clean : parsed.report.diagnostics = []) :
    ∃ nesting, Derived nesting tokens ∧ ∀ limit ∈ room, nesting ≤ limit := by
  induction reads with
  | literal scanned =>
      cases Scan.finds_of_eq scanned with
      | literal flat =>
          have derived := Derived.empty.after_flat flat _ clean
          rw [List.append_nil] at derived
          exact ⟨0, derived, fun limit _ => Nat.zero_le limit⟩
  | malformed scanned =>
      -- Every reason is reported itself, so nothing is left out here.
      rename_i reason
      cases reason <;> simp [Report.ofMalformed] at clean
  | tooDeep scanned later => simp [Report.ofTooDeep] at clean
  | block scanned single shallow opened headed inside later insideIh laterIh =>
      simp only [Report.diagnostics_append, List.append_eq_nil_iff] at clean
      obtain ⟨⟨⟨⟨strays, readable⟩, matched⟩, quiet⟩, rest⟩ := clean
      obtain ⟨inner, content, innerBound⟩ := insideIh quiet
      obtain ⟨nesting, derived, bound⟩ := laterIh rest
      subst headed
      have closed := Report.kind_of_ofCloser matched
      refine ⟨max (inner + 1) nesting, ?_, nesting_le_of_below shallow innerBound bound⟩
      rw [Scan.tokens_of_block scanned, List.append_assoc, FoundBlock.tokens_single single closed]
      exact (Derived.block (Report.readable_of_ofCondition readable) content derived).after_flat
        (Scan.flat_of_block scanned) _ strays
  | choice scanned double shallow opened headed inside otherwise later insideIh otherwiseIh laterIh =>
      simp only [Report.diagnostics_append, List.append_eq_nil_iff] at clean
      obtain ⟨⟨⟨⟨⟨strays, readable⟩, matched⟩, quiet⟩, otherQuiet⟩, rest⟩ := clean
      obtain ⟨first, content, firstBound⟩ := insideIh quiet
      obtain ⟨second, other, secondBound⟩ := otherwiseIh otherQuiet
      obtain ⟨nesting, derived, bound⟩ := laterIh rest
      subst headed
      have closed := Report.kind_of_ofCloser matched
      have below : ∀ limit ∈ Option.map (· - 1) _, max first second ≤ limit :=
        fun limit member => Nat.max_le.mpr ⟨firstBound limit member, secondBound limit member⟩
      refine ⟨max (max first second + 1) nesting, ?_, nesting_le_of_below shallow below bound⟩
      rw [Scan.tokens_of_block scanned, List.append_assoc, FoundBlock.tokens_double double closed]
      exact (Derived.choice (Report.readable_of_ofCondition readable) content other
        derived).after_flat (Scan.flat_of_block scanned) _ strays

end Derived

theorem Template.check_eq_ok_iff_diagnostics (template : Template) :
    template.check = .ok () ↔ template.diagnostics = [] := by
  unfold check
  cases template.diagnostics <;> simp

/-- Checking accepts the templates of the grammar, and strictness has no part in it. -/
theorem Template.check_eq_ok_iff_derived (options other : Options) (source : Text) :
    ((parse options source).check = .ok () ↔
        ∃ nesting ≤ 128, Derived nesting (Token.tokenize source)) ∧
      ((parse options source).check = .ok () ↔ (parse other source).check = .ok ()) := by
  have grammar (options : Options) : (parse options source).check = .ok () ↔
      ∃ nesting ≤ 128, Derived nesting (Token.tokenize source) := by
    rw [check_eq_ok_iff_diagnostics]
    constructor
    · intro clean
      have reads := Parsed.reads_ofTokens options (some maxNestingDepth) .origin
        (Token.tokenize source)
      obtain ⟨nesting, derived, bound⟩ := Derived.of_reads reads clean
      exact ⟨nesting, bound _ rfl, derived⟩
    · rintro ⟨nesting, bound, derived⟩
      obtain ⟨document, same, rfl, printable, quiet⟩ :=
        derived.exists_document (Token.lexed_tokenize source)
      have fits : document.Fits (some maxNestingDepth) := Document.fits_of_le bound
      have parsed := Document.ofTokens_tokens options printable fits []
      rw [same, Point.advance_nil] at parsed
      simp only [parse, parseWithin, diagnostics, parsed, quiet]
  exact ⟨grammar options, (grammar options).trans (grammar other).symm⟩

end MailTemplate
