import MailTemplate.Proofs.Position
import MailTemplate.Proofs.Template.Document
import MailTemplate.Proofs.Template.Reading

/-!
Reading what documents print. The tree that is read has the blocks and literals of the document,
each at its place, and the report tells only of conditions that cannot be read.
-/

namespace MailTemplate

namespace BlockHead

def complaint? (head : BlockHead) : Option Diagnostic :=
  match Condition.parse head.written.trim with
  | .ok _ => none
  | .error reason => some (.invalidCondition head.written.trim reason head.position.start)

/-- The head of a block whose opening tag stands right after the text of `before`. -/
def after (before : Text) (kind : BlockKind) (written : Text) : BlockHead :=
  ⟨kind, written, .behind before, .behind (before ++ kind.openingLiteral ++ written ++ tagEnd)⟩

theorem filterMap_complaint?_cons (head : BlockHead) (heads : List BlockHead) :
    (head :: heads).filterMap complaint? = head.complaint?.toList ++ heads.filterMap complaint? := by
  rw [List.filterMap_cons]
  cases head.complaint? <;> rfl

@[simp] theorem stop_after (before : Text) (kind : BlockKind) (written : Text) :
    (after before kind written).position.stop =
      Point.origin.advance (before ++ kind.openingLiteral ++ written ++ tagEnd) :=
  (Point.advance_origin _).symm

end BlockHead

namespace Tree

def heads : Tree → List BlockHead
  | .empty => []
  | .literal _ next => next.heads
  | .block head consequent next => head :: consequent.heads ++ next.heads
  | .choice head consequent alternative next =>
      head :: consequent.heads ++ alternative.heads ++ next.heads

end Tree

namespace Document

def tree (before : Text) : Document → Tree
  | .empty => .empty
  | .literal content next => .literal content (next.tree (before ++ content))
  | .block kind written consequent next =>
      let inside := before ++ kind.openingLiteral ++ written ++ tagEnd
      .block (.after before kind written) (consequent.tree inside)
        (next.tree (inside ++ consequent.print ++ kind.closingLiteral))
  | .choice kind written consequent alternative next =>
      let inside := before ++ kind.openingLiteral ++ written ++ tagEnd
      let middle := inside ++ consequent.print ++ dividerLiteral
      .choice (.after before kind written) (consequent.tree inside) (alternative.tree middle)
        (next.tree (middle ++ alternative.print ++ kind.closingLiteral))

end Document

namespace Report

theorem empty_append (report : Report) : empty ++ report = report := rfl

theorem append_empty (report : Report) : report ++ empty = report := by
  cases report with
  | mk diagnostics events =>
      change Report.mk (diagnostics ++ []) (events ++ []) = _
      simp

theorem ofStrays_nil (start : Point) : ofStrays start [] = empty := rfl

theorem ofStrays_text (start : Point) (content : Text) (tokens : List Token) :
    ofStrays start (.text content :: tokens) = ofStrays (start.advance content) tokens := rfl

theorem ofCondition_eq (head : BlockHead) :
    ofCondition head = ⟨head.complaint?.toList, []⟩ := by
  unfold ofCondition BlockHead.complaint? BlockHead.test BlockHead.condition
  cases Condition.parse head.written.trim <;> rfl

theorem ofCloser_after (before : Text) (kind : BlockKind) (written : Text) (point : Point) :
    ofCloser (.after before kind written) kind point = empty := by
  simp [ofCloser, BlockHead.after]

theorem quiet_append (first second : List Diagnostic) :
    Report.mk first [] ++ Report.mk second [] = ⟨first ++ second, []⟩ := rfl

end Report

theorem FoundBlock.headAt_advance (kind closer : BlockKind) (written : Text)
    (branches : Branches) (before : Text) :
    headAt ⟨kind, written, branches, closer⟩ (.advance .origin before) =
      .after before kind written := by
  simp [headAt, BlockHead.after, openingTag, Token.source, ← Point.advance_origin]

namespace Parsed

open Token (sources)

theorem ofTokens_text {options : Options} {content : Text} {tokens : List Token}
    (nonempty : content ≠ [])
    (front : tokens = [] ∨ ∃ found rest, Scan.ofTokens options tokens = .block [] found rest)
    (room : Option Nat) (start : Point) :
    ofTokens options room start (.text content :: tokens) =
      ⟨.literal content (ofTokens options room (start.advance content) tokens).tree,
        (ofTokens options room (start.advance content) tokens).report⟩ := by
  have alone : sources [.text content] = content := by simp [Token.source]
  rcases front with rfl | ⟨found, rest, scanned⟩
  · have flat : Scan.ofTokens options [.text content] = .literal := rfl
    have none : Scan.ofTokens options [] = .literal := rfl
    rw [ofTokens_of_literal flat, ofTokens_of_literal none, alone, Tree.ofText,
      Tree.withText_of_ne_nil nonempty]
    rfl
  · have longer : Scan.ofTokens options (.text content :: tokens) =
        .block [.text content] found rest := by
      simp [Scan.ofTokens, scanned, Scan.push]
    by_cases deep : room = some 0
    · subst deep
      rw [ofTokens_of_tooDeep longer, ofTokens_of_tooDeep scanned]
      simp [alone, Tree.withText_of_ne_nil nonempty, Report.ofStrays_text]
    · cases branch : found.branches.alternative with
      | none =>
          rw [ofTokens_of_block longer branch deep, ofTokens_of_block scanned branch deep]
          simp [alone, Tree.withText_of_ne_nil nonempty, Report.ofStrays_text]
      | some second =>
          rw [ofTokens_of_choice longer branch deep, ofTokens_of_choice scanned branch deep]
          simp [alone, Tree.withText_of_ne_nil nonempty, Report.ofStrays_text]

end Parsed

namespace Document

open Token (sources)

def Fits (document : Document) (room : Option Nat) : Prop :=
  ∀ limit ∈ room, document.nesting ≤ limit

theorem Fits.down {document outer : Document} {room : Option Nat} (fits : outer.Fits room)
    (below : document.nesting < outer.nesting) : document.Fits (room.map (· - 1)) := by
  intro limit member
  obtain ⟨whole, here, rfl⟩ := Option.map_eq_some_iff.mp member
  have bound := fits whole here
  omega

theorem Fits.mono {document outer : Document} {room : Option Nat} (fits : outer.Fits room)
    (bound : document.nesting ≤ outer.nesting) : document.Fits room :=
  fun limit member => Nat.le_trans bound (fits limit member)

theorem Fits.ne_some_zero {document : Document} {room : Option Nat} (fits : document.Fits room)
    (deep : 0 < document.nesting) : room ≠ some 0 := by
  rintro rfl
  have bound := fits 0 rfl
  omega

theorem fits_of_le {document : Document} {limit : Nat} (bound : document.nesting ≤ limit) :
    document.Fits (some limit) := by
  rintro other ⟨⟩
  exact bound

theorem scan_block (options : Options) (kind : BlockKind) (written : Text)
    (consequent next : Document) :
    Scan.ofTokens options (block kind written consequent next).tokens =
      .block [] ⟨kind, written, ⟨consequent.tokens, none⟩, kind⟩ next.tokens :=
  Scan.ofTokens_undivided consequent.undivided_tokens options kind written next.tokens

theorem scan_choice (options : Options) (kind : BlockKind) (written : Text)
    (consequent alternative next : Document) :
    Scan.ofTokens options (choice kind written consequent alternative next).tokens =
      .block [] ⟨kind, written, ⟨consequent.tokens, some alternative.tokens⟩, kind⟩
        next.tokens :=
  Scan.ofTokens_divided consequent.undivided_tokens alternative.undivided_tokens.balanced options
    kind written next.tokens

theorem sources_block (kind : BlockKind) (written : Text) (consequent : Document) :
    sources (FoundBlock.tokens ⟨kind, written, ⟨consequent.tokens, none⟩, kind⟩) =
      kind.openingLiteral ++ written ++ tagEnd ++ consequent.print ++ kind.closingLiteral := by
  simp [FoundBlock.tokens, FoundBlock.openingTag, FoundBlock.closingTag, Token.source,
    Branches.content, sources_tokens]

theorem sources_choice (kind : BlockKind) (written : Text) (consequent alternative : Document) :
    sources (FoundBlock.tokens
        ⟨kind, written, ⟨consequent.tokens, some alternative.tokens⟩, kind⟩) =
      kind.openingLiteral ++ written ++ tagEnd ++ consequent.print ++ dividerLiteral ++
        alternative.print ++ kind.closingLiteral := by
  simp [FoundBlock.tokens, FoundBlock.openingTag, FoundBlock.closingTag, Token.source,
    Branches.content, sources_tokens]

theorem ofTokens_tokens (options : Options) {document : Document}
    (printable : document.Printable) {room : Option Nat} (fits : document.Fits room)
    (before : Text) :
    Parsed.ofTokens options room (.advance .origin before) document.tokens =
      ⟨document.tree before, (document.tree before).heads.filterMap BlockHead.complaint?, []⟩ := by
  -- A branch has one level less room than its block, and what follows the block has as much.
  induction document generalizing room before with
  | empty =>
      have none : Scan.ofTokens options [] = .literal := rfl
      rw [tokens, Parsed.ofTokens_of_literal none]
      rfl
  | literal content next ih =>
      obtain ⟨nonempty, _, apart, rest⟩ := printable
      have front : next.tokens = [] ∨
          ∃ found rest, Scan.ofTokens options next.tokens = .block [] found rest := by
        cases next with
        | empty => exact .inl rfl
        | literal content next => exact absurd trivial apart
        | block kind written consequent next =>
            exact .inr ⟨_, _, scan_block options kind written consequent next⟩
        | choice kind written consequent alternative next =>
            exact .inr ⟨_, _, scan_choice options kind written consequent alternative next⟩
      rw [tokens, Parsed.ofTokens_text nonempty front, ← Point.advance_append,
        ih rest fits (before ++ content)]
      rfl
  | block kind written consequent next inside later =>
      obtain ⟨_, first, rest⟩ := printable
      have scanned := scan_block options kind written consequent next
      have shallow : room ≠ some 0 := fits.ne_some_zero (by rw [nesting]; omega)
      have first := inside first (fits.down (by rw [nesting]; omega))
        (before ++ kind.openingLiteral ++ written ++ tagEnd)
      have rest := later rest (fits.mono (by rw [nesting]; omega))
        (before ++ kind.openingLiteral ++ written ++ tagEnd ++ consequent.print ++
          kind.closingLiteral)
      rw [Parsed.ofTokens_of_block scanned rfl shallow]
      simp only [Token.sources_nil, Point.advance_nil, FoundBlock.headAt_advance,
        BlockHead.stop_after, sources_block, ← Point.advance_append, ← List.append_assoc, first, rest]
      rw [Report.ofStrays_nil, Report.empty_append, Report.ofCloser_after, Report.append_empty,
        Report.ofCondition_eq]
      simp [Report.quiet_append, BlockHead.filterMap_complaint?_cons, tree, Tree.heads]
  | choice kind written consequent alternative next inside otherwise later =>
      obtain ⟨_, first, second, rest⟩ := printable
      have scanned := scan_choice options kind written consequent alternative next
      have shallow : room ≠ some 0 := fits.ne_some_zero (by rw [nesting]; omega)
      have first := inside first (fits.down (by rw [nesting]; omega))
        (before ++ kind.openingLiteral ++ written ++ tagEnd)
      have second := otherwise second (fits.down (by rw [nesting]; omega))
        (before ++ kind.openingLiteral ++ written ++ tagEnd ++ consequent.print ++ dividerLiteral)
      have rest := later rest (fits.mono (by rw [nesting]; omega))
        (before ++ kind.openingLiteral ++ written ++ tagEnd ++ consequent.print ++
          dividerLiteral ++ alternative.print ++ kind.closingLiteral)
      rw [Parsed.ofTokens_of_choice scanned rfl shallow]
      simp only [Token.sources_nil, Point.advance_nil, FoundBlock.headAt_advance,
        BlockHead.stop_after, sources_tokens, sources_choice,
        ← Point.advance_append, ← List.append_assoc, first, second, rest]
      rw [Report.ofStrays_nil, Report.empty_append, Report.ofCloser_after, Report.append_empty,
        Report.ofCondition_eq]
      simp [Report.quiet_append, BlockHead.filterMap_complaint?_cons, tree, Tree.heads]

theorem parse_eq_of_printable (options : Options) {document : Document}
    (printable : document.Printable) (shallow : document.nesting ≤ maxNestingDepth) :
    Template.parse options document.print =
      ⟨document.print, document.tree [],
        (document.tree []).heads.filterMap BlockHead.complaint?, []⟩ := by
  have parsed := ofTokens_tokens options printable (fits_of_le shallow) []
  rw [Point.advance_nil] at parsed
  simp only [Template.parse, Template.parseWithin, printable.tokenize_print, parsed]

/-- Reading what a document prints gives the tree of the document, the test of each block is its
trimmed condition read, and the only problems are the conditions that cannot be read. -/
theorem parse_print (options : Options) (document : Document) (printable : document.Printable)
    (shallow : document.nesting ≤ 128) :
    (Template.parse options document.print).tree = document.tree [] ∧
      (∀ head ∈ (Template.parse options document.print).tree.heads,
        head.condition = head.written.trim ∧ head.test = Condition.parse head.written.trim) ∧
      (Template.parse options document.print).diagnostics =
        (document.tree []).heads.filterMap BlockHead.complaint? := by
  have parsed := parse_eq_of_printable options printable shallow
  refine ⟨?_, fun head _ => ⟨rfl, rfl⟩, ?_⟩
  · rw [parsed]
  · rw [parsed]
    rfl

def partialTags : Document :=
  .literal ['{', '{', '#', 'i', '{']
    (.choice .unlessTrue [' ', '{', '{', '/', 'i', 'f', ' ']
      (.block .ifTrue [' '] .empty (.literal ['{', '{', 'e', 'l', 's', 'e', '}'] .empty)) .empty
      (.literal ['{', '{'] .empty))

theorem parse_print_partialTags :
    partialTags.Printable ∧ partialTags.nesting ≤ 128 ∧
      (Template.parse .lenient partialTags.print).tree = partialTags.tree [] ∧
        (Template.parse .lenient partialTags.print).tree.heads.map BlockHead.test =
          [.ok (.truthy ['{', '{', '/', 'i', 'f']), .error .empty] ∧
        (Template.parse .lenient partialTags.print).diagnostics =
          [.invalidCondition [] .empty ⟨1, 24, 23⟩] := by
  have printable : partialTags.Printable := by decide
  have shallow : partialTags.nesting ≤ 128 := by decide
  obtain ⟨parsed, tests, problems⟩ := parse_print .lenient partialTags printable shallow
  have read := List.map_congr_left fun head member => (tests head member).2
  refine ⟨printable, shallow, parsed, ?_, ?_⟩
  · rw [read, parsed]
    decide
  · rw [problems]
    decide

end Document

end MailTemplate
