import MailTemplate.Proofs.Markup.Finding
import MailTemplate.Proofs.Position
import MailTemplate.Proofs.Template.Reading

/-!
Trees whose blocks also have their closing tags. With the right closing tags the tree of a source
stands for exactly the source, and the tags of the other kind are the ones that were reported.
-/

namespace MailTemplate

def Diagnostic.isAccepted : Diagnostic → Bool
  | .mismatchedClose _ _ _ accepted _ => accepted
  | _ => false

inductive ClosedTree where
  | empty
  | literal (content : Text) (next : ClosedTree)
  | block (head : BlockHead) (consequent : ClosedTree) (closer : BlockKind) (next : ClosedTree)
  | choice (head : BlockHead) (consequent alternative : ClosedTree) (closer : BlockKind)
      (next : ClosedTree)
  deriving DecidableEq, Repr

namespace ClosedTree

def forget : ClosedTree → Tree
  | .empty => .empty
  | .literal content next => .literal content next.forget
  | .block head consequent _ next => .block head consequent.forget next.forget
  | .choice head consequent alternative _ next =>
      .choice head consequent.forget alternative.forget next.forget

def ofTree : Tree → ClosedTree
  | .empty => .empty
  | .literal content next => .literal content (ofTree next)
  | .block head consequent next => .block head (ofTree consequent) head.kind (ofTree next)
  | .choice head consequent alternative next =>
      .choice head (ofTree consequent) (ofTree alternative) head.kind (ofTree next)

def openingText (source : Text) (head : BlockHead) : Text :=
  source.slice head.position.start.offset head.position.stop.offset

def print (source : Text) : ClosedTree → Text
  | .empty => []
  | .literal content next => content ++ next.print source
  | .block head consequent closer next =>
      openingText source head ++ consequent.print source ++
        (['{', '{', '/'] ++ closer.word ++ ['}', '}']) ++ next.print source
  | .choice head consequent alternative closer next =>
      openingText source head ++ consequent.print source ++
        ['{', '{', 'e', 'l', 's', 'e', '}', '}'] ++ alternative.print source ++
        (['{', '{', '/'] ++ closer.word ++ ['}', '}']) ++ next.print source

def crossing (before : Text) (head : BlockHead) (closer : BlockKind) : List Diagnostic :=
  if head.kind = closer then []
  else [.mismatchedClose head.kind closer head.condition true (.behind before)]

def crossings (source before : Text) : ClosedTree → List Diagnostic
  | .empty => []
  | .literal content next => next.crossings source (before ++ content)
  | .block head consequent closer next =>
      let inside := before ++ openingText source head
      let close := inside ++ consequent.print source
      crossing close head closer ++ consequent.crossings source inside ++
        next.crossings source (close ++ closer.closingLiteral)
  | .choice head consequent alternative closer next =>
      let inside := before ++ openingText source head
      let middle := inside ++ consequent.print source ++ dividerLiteral
      let close := middle ++ alternative.print source
      crossing close head closer ++ consequent.crossings source inside ++
        alternative.crossings source middle ++
        next.crossings source (close ++ closer.closingLiteral)

def withText (content : Text) (next : ClosedTree) : ClosedTree :=
  if content.isEmpty then next else .literal content next

@[simp] theorem forget_withText (content : Text) (next : ClosedTree) :
    (withText content next).forget = .withText content next.forget := by
  unfold withText Tree.withText
  split <;> rfl

@[simp] theorem print_withText (source content : Text) (next : ClosedTree) :
    (withText content next).print source = content ++ next.print source := by
  unfold withText
  split
  · rename_i none
    rw [List.isEmpty_iff.mp none, List.nil_append]
  · rfl

@[simp] theorem crossings_withText (source before content : Text) (next : ClosedTree) :
    (withText content next).crossings source before =
      next.crossings source (before ++ content) := by
  unfold withText
  split
  · rename_i none
    rw [List.isEmpty_iff.mp none, List.append_nil]
  · rfl

@[simp] theorem ofTree_withText (content : Text) (next : Tree) :
    ofTree (.withText content next) = withText content (ofTree next) := by
  unfold withText Tree.withText
  split <;> rfl

end ClosedTree

namespace Report

def accepted (report : Report) : List Diagnostic :=
  report.diagnostics.filter Diagnostic.isAccepted

@[simp] theorem accepted_append (first second : Report) :
    (first ++ second).accepted = first.accepted ++ second.accepted := by
  simp [accepted]

@[simp] theorem accepted_ofStrays (start : Point) (tokens : List Token) :
    (ofStrays start tokens).accepted = [] := by
  induction tokens generalizing start with
  | nil => rfl
  | cons token tokens ih =>
      cases token with
      | text content => exact ih _
      | opening kind written => exact ih _
      | unterminated kind remainder => exact ih _
      | divider => rw [ofStrays, accepted_append, ih]; rfl
      | closing kind => rw [ofStrays, accepted_append, ih]; rfl

@[simp] theorem accepted_ofMalformed (start : Point) (reason : Malformed) :
    (ofMalformed start reason).accepted = [] := by
  cases reason <;> rfl

@[simp] theorem accepted_ofTooDeep (start : Point) (kind : BlockKind) :
    (ofTooDeep start kind).accepted = [] := rfl

@[simp] theorem accepted_ofCondition (head : BlockHead) : (ofCondition head).accepted = [] := by
  unfold ofCondition
  split <;> rfl

theorem accepted_ofCloser (head : BlockHead) (closer : BlockKind) (before : Text) :
    (ofCloser head closer (.advance .origin before)).accepted =
      ClosedTree.crossing before head closer := by
  rw [Point.advance_origin]
  unfold ofCloser ClosedTree.crossing
  split <;> rfl

end Report

namespace ClosedTree

open Token (sources)

/-- What makes closing tags the right ones for the tree of a text that stands after `before`. -/
structure Restores (options : Options) (source before text : Text) (tree : Tree)
    (accepted : List Diagnostic) (closed : ClosedTree) : Prop where
  forget_eq : closed.forget = tree
  print_eq : closed.print source = text
  crossings_eq : closed.crossings source before = accepted
  strict : options.strictClosers = true → closed = .ofTree tree

section

variable {options : Options} {source before : Text}

theorem restores_empty : Restores options source before [] .empty [] .empty := by
  constructor
  · rfl
  · rfl
  · rfl
  · intro _
    rfl

theorem Restores.withText {content text : Text} {tree : Tree} {accepted : List Diagnostic}
    {closed : ClosedTree}
    (restores : Restores options source (before ++ content) text tree accepted closed) :
    Restores options source before (content ++ text) (.withText content tree) accepted
      (.withText content closed) := by
  constructor
  · rw [forget_withText, restores.forget_eq]
  · rw [print_withText, restores.print_eq]
  · rw [crossings_withText, restores.crossings_eq]
  · intro strict
    rw [ofTree_withText, restores.strict strict]

theorem restores_ofText (text : Text) :
    Restores options source before text (.ofText text) [] (withText text .empty) := by
  have restores : Restores options source before (text ++ []) (.withText text .empty) []
      (withText text .empty) := restores_empty.withText
  rwa [List.append_nil] at restores

theorem Restores.block {head : BlockHead} {closer : BlockKind} {tag inside rest : Text}
    {consequent next : Tree} {firstAccepted restAccepted : List Diagnostic}
    {first second : ClosedTree} (opening : openingText source head = tag)
    (matched : options.strictClosers = true → head.kind = closer)
    (within : Restores options source (before ++ tag) inside consequent firstAccepted first)
    (later : Restores options source (before ++ tag ++ inside ++ closer.closingLiteral) rest next
      restAccepted second) :
    Restores options source before (tag ++ inside ++ closer.closingLiteral ++ rest)
      (.block head consequent next)
      (crossing (before ++ tag ++ inside) head closer ++ firstAccepted ++ restAccepted)
      (.block head first closer second) := by
  constructor
  · rw [forget, within.forget_eq, later.forget_eq]
  · rw [print, opening, within.print_eq, later.print_eq, BlockKind.closingLiteral]
  · simp only [crossings, opening, within.print_eq, within.crossings_eq, later.crossings_eq]
  · intro strict
    rw [ofTree, within.strict strict, later.strict strict, matched strict]

theorem Restores.choice {head : BlockHead} {closer : BlockKind} {tag inside other rest : Text}
    {consequent alternative next : Tree}
    {firstAccepted otherAccepted restAccepted : List Diagnostic} {first second third : ClosedTree}
    (opening : openingText source head = tag)
    (matched : options.strictClosers = true → head.kind = closer)
    (within : Restores options source (before ++ tag) inside consequent firstAccepted first)
    (otherwise : Restores options source (before ++ tag ++ inside ++ dividerLiteral) other
      alternative otherAccepted second)
    (later : Restores options source
      (before ++ tag ++ inside ++ dividerLiteral ++ other ++ closer.closingLiteral) rest next
      restAccepted third) :
    Restores options source before
      (tag ++ inside ++ dividerLiteral ++ other ++ closer.closingLiteral ++ rest)
      (.choice head consequent alternative next)
      (crossing (before ++ tag ++ inside ++ dividerLiteral ++ other) head closer ++
        firstAccepted ++ otherAccepted ++ restAccepted)
      (.choice head first second closer third) := by
  constructor
  · rw [forget, within.forget_eq, otherwise.forget_eq, later.forget_eq]
  · rw [print, opening, within.print_eq, otherwise.print_eq, later.print_eq, dividerLiteral,
      BlockKind.closingLiteral]
  · simp only [crossings, opening, within.print_eq, otherwise.print_eq, within.crossings_eq,
      otherwise.crossings_eq, later.crossings_eq]
  · intro strict
    rw [ofTree, within.strict strict, otherwise.strict strict, later.strict strict, matched strict]

end

theorem openingText_headAt {source before after : Text} {found : FoundBlock}
    (split : source = before ++ found.openingTag.source ++ after) :
    openingText source (found.headAt (.advance .origin before)) = found.openingTag.source := by
  apply Text.slice_of_split split
  · simp [FoundBlock.headAt, Point.origin]
  · simp [FoundBlock.headAt, Point.origin]

theorem stop_headAt (found : FoundBlock) (before : Text) :
    (found.headAt (.advance .origin before)).position.stop =
      .advance .origin (before ++ found.openingTag.source) := by
  simp [FoundBlock.headAt]

theorem sources_single {found : FoundBlock} (single : found.branches.alternative = none) :
    sources found.tokens = found.openingTag.source ++ sources found.branches.consequent ++
      found.closer.closingLiteral := by
  simp [FoundBlock.tokens, FoundBlock.closingTag, Branches.content, single, Token.source]

theorem sources_double {found : FoundBlock} {second : List Token}
    (double : found.branches.alternative = some second) :
    sources found.tokens = found.openingTag.source ++ sources found.branches.consequent ++
      dividerLiteral ++ sources second ++ found.closer.closingLiteral := by
  simp [FoundBlock.tokens, FoundBlock.closingTag, Branches.content, double, Token.source]

theorem exists_restores {options : Options} {room : Option Nat} {start : Point}
    {tokens : List Token} {parsed : Parsed}
    (reads : Parsed.Reads options room start tokens parsed) {source before : Text}
    (place : start = .advance .origin before)
    (split : ∃ after, source = before ++ sources tokens ++ after) :
    ∃ closed, Restores options source before (sources tokens) parsed.tree parsed.report.accepted
      closed := by
  -- Each part of the tokens is read where it stands in the source, with all of `before` printed.
  induction reads generalizing before with
  | literal scanned =>
      rw [Report.accepted_ofStrays]
      exact ⟨_, restores_ofText _⟩
  | malformed scanned =>
      rw [Report.accepted_append, Report.accepted_ofStrays, Report.accepted_ofMalformed]
      exact ⟨_, restores_ofText _⟩
  | tooDeep scanned later ih =>
      rename_i front found rest next
      have cut := Scan.tokens_of_block scanned
      obtain ⟨after, split⟩ := split
      subst place cut
      obtain ⟨closed, restores⟩ : ∃ closed, Restores options source
          (before ++ sources front ++ sources found.tokens) (sources rest) next.tree
          next.report.accepted closed :=
        ih (by simp) ⟨after, by simp [split]⟩
      have whole : sources (front ++ found.tokens ++ rest) =
          sources front ++ (sources found.tokens ++ sources rest) := by simp
      rw [whole, Report.accepted_append, Report.accepted_append, Report.accepted_ofStrays,
        Report.accepted_ofTooDeep]
      exact ⟨_, restores.withText.withText⟩
  | block scanned single shallow opened headed inside later insideIh laterIh =>
      rename_i front found rest consequent next
      have cut := Scan.tokens_of_block scanned
      have whole := sources_single single
      obtain ⟨after, split⟩ := split
      subst place cut
      rw [← Point.advance_append] at opened
      subst opened headed
      have stop := stop_headAt found (before ++ sources front)
      have around : source = before ++ sources front ++ found.openingTag.source ++
          (sources found.branches.consequent ++ found.closer.closingLiteral ++ sources rest ++
            after) := by
        simp [split, whole]
      obtain ⟨first, within⟩ := insideIh stop ⟨found.closer.closingLiteral ++ sources rest ++ after,
        by simp [split, whole]⟩
      obtain ⟨second, restores⟩ : ∃ closed, Restores options source
          (before ++ sources front ++ found.openingTag.source ++
            sources found.branches.consequent ++ found.closer.closingLiteral) (sources rest)
          next.tree next.report.accepted closed :=
        laterIh (by simp [whole]) ⟨after, by simp [split, whole]⟩
      have text : sources (front ++ found.tokens ++ rest) =
          sources front ++ (found.openingTag.source ++ sources found.branches.consequent ++
            found.closer.closingLiteral ++ sources rest) := by
        simp [whole]
      have content : found.branches.content = found.branches.consequent := by
        simp [Branches.content, single]
      simp only [text, Report.accepted_append, Report.accepted_ofStrays,
        Report.accepted_ofCondition, List.nil_append, stop, ← Point.advance_append, content,
        Report.accepted_ofCloser]
      exact ⟨_, (Restores.block (openingText_headAt around) (Scan.closer_of_block scanned) within
        restores).withText⟩
  | choice scanned double shallow opened headed inside otherwise later insideIh otherwiseIh laterIh =>
      rename_i front found rest second consequent alternative next
      have cut := Scan.tokens_of_block scanned
      have whole := sources_double double
      obtain ⟨after, split⟩ := split
      subst place cut
      rw [← Point.advance_append] at opened
      subst opened headed
      have stop := stop_headAt found (before ++ sources front)
      have around : source = before ++ sources front ++ found.openingTag.source ++
          (sources found.branches.consequent ++ dividerLiteral ++ sources second ++
            found.closer.closingLiteral ++ sources rest ++ after) := by
        simp [split, whole]
      obtain ⟨first, within⟩ := insideIh stop ⟨dividerLiteral ++ sources second ++
        found.closer.closingLiteral ++ sources rest ++ after, by simp [split, whole]⟩
      obtain ⟨other, otherRestores⟩ : ∃ closed, Restores options source
          (before ++ sources front ++ found.openingTag.source ++
            sources found.branches.consequent ++ dividerLiteral) (sources second)
          alternative.tree alternative.report.accepted closed :=
        otherwiseIh (by rw [stop]; simp)
          ⟨found.closer.closingLiteral ++ sources rest ++ after, by simp [split, whole]⟩
      obtain ⟨last, restores⟩ : ∃ closed, Restores options source
          (before ++ sources front ++ found.openingTag.source ++
            sources found.branches.consequent ++ dividerLiteral ++ sources second ++
            found.closer.closingLiteral) (sources rest) next.tree next.report.accepted closed :=
        laterIh (by simp [whole]) ⟨after, by simp [split, whole]⟩
      have text : sources (front ++ found.tokens ++ rest) =
          sources front ++ (found.openingTag.source ++ sources found.branches.consequent ++
            dividerLiteral ++ sources second ++ found.closer.closingLiteral ++ sources rest) := by
        simp [whole]
      have content : sources found.branches.content =
          sources found.branches.consequent ++ (dividerLiteral ++ sources second) := by
        simp [Branches.content, double, Token.source]
      simp only [text, Report.accepted_append, Report.accepted_ofStrays,
        Report.accepted_ofCondition, List.nil_append, stop, ← Point.advance_append, content,
        Report.accepted_ofCloser]
      have node := (Restores.choice (openingText_headAt around) (Scan.closer_of_block scanned)
        within otherRestores restores).withText
      simp only [List.append_assoc] at node ⊢
      exact ⟨_, node⟩

theorem crossings_ofTree (source before : Text) (tree : Tree) :
    (ofTree tree).crossings source before = [] := by
  induction tree generalizing before with
  | empty => rfl
  | literal content next ih => exact ih _
  | block head consequent next inside later =>
      simp [ofTree, crossings, crossing, inside, later]
  | choice head consequent alternative next inside otherwise later =>
      simp [ofTree, crossings, crossing, inside, otherwise, later]

end ClosedTree

/-- With the right closing tags a tree stands for its whole source, and those of the other kind are
the accepted ones. Under strictness there are none, and the tree tells all closing tags. -/
theorem Template.exists_closedTree (options : Options) (source : Text) :
    ∃ closed : ClosedTree,
      closed.forget = (parse options source).tree ∧
        closed.print source = source ∧
          (parse options source).diagnostics.filter Diagnostic.isAccepted =
            closed.crossings source [] ∧
          (options.strictClosers = true →
            (parse options source).diagnostics.filter Diagnostic.isAccepted = [] ∧
              (ClosedTree.ofTree (parse options source).tree).print source = source) := by
  have reads := Parsed.reads_ofTokens options (some maxNestingDepth) .origin
    (Token.tokenize source)
  have whole : source = [] ++ Token.sources (Token.tokenize source) ++ [] := by
    simp [Token.sources_tokenize]
  obtain ⟨closed, restores⟩ := ClosedTree.exists_restores reads (Point.advance_nil _).symm
    ⟨[], whole⟩
  have printed : closed.print source = source := by
    rw [restores.print_eq, Token.sources_tokenize]
  refine ⟨closed, restores.forget_eq, printed, restores.crossings_eq.symm, ?_⟩
  intro strict
  have own : closed = .ofTree (parse options source).tree := restores.strict strict
  constructor
  · exact restores.crossings_eq.symm.trans (own ▸ ClosedTree.crossings_ofTree _ _ _)
  · rw [← own, printed]

end MailTemplate
