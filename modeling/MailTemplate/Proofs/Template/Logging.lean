import MailTemplate.Proofs.Condition
import MailTemplate.Proofs.Markup.Standing
import MailTemplate.Proofs.Template.Reading
import MailTemplate.Template.Expand

/-!
What is logged. Reading logs its problems, except conditions that cannot be read, and expanding logs
these each time it comes to one.
-/

namespace MailTemplate

open Token (sources Stands)

namespace Event

def record (event : Event) : Level × List (String × String) :=
  (event.level, event.fields)

theorem atLeast_append (level : Level) (first second : List Event) :
    atLeast level (first ++ second) = atLeast level first ++ atLeast level second :=
  List.filter_append _ _

end Event

namespace Diagnostic

def record? : Diagnostic → Option (Level × List (String × String))
  | .unterminatedTag _ point =>
      some (.warn, [("line", toString point.line), ("column", toString point.column)])
  | .unclosedBlock _ condition point | .mismatchedClose _ _ condition _ point =>
      some (.warn, [("condition", String.ofList condition), ("line", toString point.line),
        ("column", toString point.column)])
  | .strayClose _ point | .strayElse point =>
      some (.debug, [("point", "Point \x7b line: " ++ toString point.line ++ ", column: " ++
        toString point.column ++ ", offset: " ++ toString point.offset ++ " \x7d")])
  | .invalidCondition _ _ _ => none
  | .nestingTooDeep _ point =>
      some (.warn, [("line", toString point.line), ("column", toString point.column),
        ("limit", toString maxNestingDepth)])

def condition? : Diagnostic → Option Text
  | .unclosedBlock _ condition _ | .mismatchedClose _ _ condition _ _
  | .invalidCondition condition _ _ => some condition
  | .unterminatedTag _ _ | .strayClose _ _ | .strayElse _ | .nestingTooDeep _ _ => none

end Diagnostic

namespace Report

structure Agrees (report : Report) : Prop where
  records : (Event.atLeast .debug report.events).map Event.record =
    report.diagnostics.filterMap Diagnostic.record?
  trimmed : ∀ diagnostic ∈ report.diagnostics, ∀ condition ∈ diagnostic.condition?,
    condition.trim = condition

theorem agrees_empty : empty.Agrees where
  records := rfl
  trimmed := by simp [empty]

theorem Agrees.append {first second : Report} (earlier : first.Agrees) (later : second.Agrees) :
    (first ++ second).Agrees where
  records := by
    rw [events_append, Event.atLeast_append, List.map_append, earlier.records, later.records,
      diagnostics_append, List.filterMap_append]
  trimmed := by
    rw [diagnostics_append, List.forall_mem_append]
    exact ⟨earlier.trimmed, later.trimmed⟩

theorem agrees_single {diagnostic : Diagnostic} {event : Event} (level : event.level ≠ .trace)
    (record : diagnostic.record? = some event.record)
    (trimmed : ∀ condition ∈ diagnostic.condition?, condition.trim = condition) :
    Agrees ⟨[diagnostic], [event]⟩ where
  records := by
    have kept : Level.debug.severity ≤ event.level.severity := by
      cases same : event.level with
      | warn => decide
      | debug => decide
      | trace => exact absurd same level
    simp [Event.atLeast, kept, record]
  trimmed := by simpa using trimmed

theorem agrees_ofStrays (start : Point) (tokens : List Token) : (ofStrays start tokens).Agrees := by
  induction tokens generalizing start with
  | nil => exact agrees_empty
  | cons token tokens ih =>
      have later := ih (start.advance token.source)
      cases token with
      | text content => exact later
      | opening kind written => exact later
      | unterminated kind remainder => exact later
      | divider =>
          have here : Agrees ⟨[.strayElse start], [.strayKept start]⟩ :=
            agrees_single nofun rfl nofun
          exact here.append later
      | closing kind =>
          have here : Agrees ⟨[.strayClose kind start], [.strayKept start]⟩ :=
            agrees_single nofun rfl nofun
          exact here.append later

theorem agrees_ofMalformed (start : Point) (reason : Malformed) :
    (ofMalformed start reason).Agrees := by
  cases reason with
  | unterminatedTag kind => exact agrees_single nofun rfl nofun
  | unclosed kind written =>
      apply agrees_single (by nofun) rfl
      rintro condition ⟨⟩
      exact Text.trim_trim written
  | mismatchedClose kind written content found =>
      apply agrees_single (by nofun) rfl
      rintro condition ⟨⟩
      exact Text.trim_trim written

theorem agrees_ofTooDeep (start : Point) (kind : BlockKind) : (ofTooDeep start kind).Agrees :=
  agrees_single nofun rfl nofun

theorem agrees_ofCondition (head : BlockHead) : (ofCondition head).Agrees := by
  unfold ofCondition
  split
  · exact agrees_empty
  · constructor
    · rfl
    · intro diagnostic member condition named
      cases List.mem_singleton.mp member
      cases named
      exact Text.trim_trim head.written

theorem agrees_ofCloser (head : BlockHead) (closer : BlockKind) (point : Point) :
    (ofCloser head closer point).Agrees := by
  unfold ofCloser
  split
  · exact agrees_empty
  · apply agrees_single (by nofun) rfl
    rintro condition ⟨⟩
    exact Text.trim_trim head.written

end Report

namespace Parsed

variable {options : Options} {room : Option Nat} {start : Point} {tokens : List Token}
  {parsed : Parsed}

theorem Reads.agrees (reads : Reads options room start tokens parsed) : parsed.report.Agrees := by
  induction reads with
  | literal scanned => exact Report.agrees_ofStrays _ _
  | malformed scanned => exact (Report.agrees_ofStrays _ _).append (Report.agrees_ofMalformed _ _)
  | tooDeep scanned later ih =>
      exact ((Report.agrees_ofStrays _ _).append (Report.agrees_ofTooDeep _ _)).append ih
  | block scanned single shallow opened headed inside later insideIh laterIh =>
      apply Report.Agrees.append _ laterIh
      apply Report.Agrees.append _ insideIh
      apply Report.Agrees.append _ (Report.agrees_ofCloser _ _ _)
      exact (Report.agrees_ofStrays _ _).append (Report.agrees_ofCondition _)
  | choice scanned double shallow opened headed inside otherwise later insideIh otherwiseIh laterIh =>
      apply Report.Agrees.append _ laterIh
      apply Report.Agrees.append _ otherwiseIh
      apply Report.Agrees.append _ insideIh
      apply Report.Agrees.append _ (Report.agrees_ofCloser _ _ _)
      exact (Report.agrees_ofStrays _ _).append (Report.agrees_ofCondition _)

end Parsed

namespace Tree

/-- The tree with the branches emptied that are not selected. -/
def selecting (context : Context) : Tree → Tree
  | .empty => .empty
  | .literal content next => .literal content (next.selecting context)
  | .block head consequent next =>
      .block head (if head.isSatisfied context then consequent.selecting context else .empty)
        (next.selecting context)
  | .choice head consequent alternative next =>
      .choice head (if head.isSatisfied context then consequent.selecting context else .empty)
        (if head.isSatisfied context then .empty else alternative.selecting context)
        (next.selecting context)

def blocks : Tree → List (BlockHead × Bool)
  | .empty => []
  | .literal _ next => next.blocks
  | .block head consequent next => (head, false) :: consequent.blocks ++ next.blocks
  | .choice head consequent alternative next =>
      (head, true) :: consequent.blocks ++ alternative.blocks ++ next.blocks

end Tree

namespace BlockHead

def complaintRecords (head : BlockHead) : List (Level × List (String × String)) :=
  match Condition.parse head.written with
  | .ok _ => []
  | .error reason =>
      [(.warn, ("condition", String.ofList head.written.trim) ::
        ("line", toString head.position.start.line) ::
        ("column", toString head.position.start.column) :: [("error", reason.message)])]

def visitRecords (head : BlockHead) (context : Context) (divided : Bool) :
    List (Level × List (String × String)) :=
  head.complaintRecords ++
    [(.debug, [("kind", head.kind.name), ("condition", String.ofList head.written.trim),
      ("selected", if head.isSatisfied context || divided then "branch" else "nothing")])]

theorem map_record_expansionEvents (head : BlockHead) (context : Context) (divided : Bool) :
    (head.expansionEvents (head.isSatisfied context || divided)).map Event.record =
      head.visitRecords context divided := by
  have same : head.test = Condition.parse head.written := Condition.parse_trim head.written
  rw [expansionEvents, visitRecords, complaintRecords, same]
  cases Condition.parse head.written with
  | ok condition => rfl
  | error reason => rfl

end BlockHead

namespace Tree

theorem records_expand (tree : Tree) (context : Context) :
    (tree.expand context).events.map Event.record =
      (tree.selecting context).blocks.flatMap fun block =>
        block.1.visitRecords context block.2 := by
  induction tree with
  | empty => rfl
  | literal content next ih => exact ih
  | block head consequent next insideIh laterIh =>
      have here := head.map_record_expansionEvents context false
      rw [selecting, blocks, List.cons_append, List.flatMap_cons, List.flatMap_append, ← laterIh,
        ← here, expand]
      cases head.isSatisfied context with
      | true =>
          rw [if_pos rfl, if_pos rfl, ← insideIh]
          simp [Output.ofEvents]
      | false => simp [Output.ofEvents, blocks]
  | choice head consequent alternative next insideIh otherwiseIh laterIh =>
      have here := head.map_record_expansionEvents context true
      rw [selecting, blocks, List.cons_append, List.cons_append, List.flatMap_cons,
        List.flatMap_append, List.flatMap_append, ← laterIh, ← here, expand]
      cases head.isSatisfied context with
      | true =>
          rw [if_pos rfl, if_pos rfl, ← insideIh]
          simp [Output.ofEvents, blocks]
      | false =>
          rw [if_neg (by simp), if_neg (by simp), if_neg (by simp), ← otherwiseIh]
          simp [Output.ofEvents, blocks]

theorem blocks_selecting_sublist (tree : Tree) (context : Context) :
    (tree.selecting context).blocks.Sublist tree.blocks := by
  induction tree with
  | empty => exact List.Sublist.refl _
  | literal content next ih => exact ih
  | block head consequent next insideIh laterIh =>
      apply List.Sublist.append _ laterIh
      apply List.Sublist.cons_cons
      split
      · exact insideIh
      · exact List.nil_sublist _
  | choice head consequent alternative next insideIh otherwiseIh laterIh =>
      apply List.Sublist.append _ laterIh
      split
      · exact (insideIh.cons_cons _).append (List.nil_sublist _)
      · exact ((List.nil_sublist _).cons_cons _).append otherwiseIh

@[simp] theorem blocks_withText (content : Text) (next : Tree) :
    (withText content next).blocks = next.blocks := by
  unfold withText
  split
  · rfl
  · rfl

@[simp] theorem blocks_ofText (content : Text) : (ofText content).blocks = [] :=
  blocks_withText content .empty

end Tree

namespace Parsed

variable {options : Options} {room : Option Nat} {start : Point} {tokens : List Token}
  {parsed : Parsed}

theorem stands_of_rest {before rest : List Token} {found : FoundBlock} {token : Token}
    {point : Point} (scanned : Scan.ofTokens options tokens = .block before found rest)
    (stands : Stands ((start.advance (sources before)).advance (sources found.tokens)) rest token
      point) : Stands start tokens token point := by
  have split : tokens = (before ++ found.tokens) ++ rest ++ [] := by
    simp [Scan.tokens_of_block scanned]
  exact stands.of_part split (by simp)

theorem Reads.blocks_stand (reads : Reads options room start tokens parsed) :
    ∀ block ∈ parsed.tree.blocks,
      Stands start tokens (.opening block.1.kind block.1.written) block.1.position.start := by
  induction reads with
  | literal scanned => simp
  | malformed scanned => simp
  | @tooDeep start tokens before found rest next scanned later ih =>
      simp only [Tree.blocks_withText]
      intro block member
      exact stands_of_rest scanned (ih block member)
  | @block room start opening head tokens before found rest consequent next scanned single shallow
      opened headed inside later insideIh laterIh =>
      subst opened headed
      have split : tokens = before ++ found.openingTag :: found.branches.consequent ++
          [found.closingTag] ++ rest := by
        simp [Scan.tokens_of_block scanned, FoundBlock.tokens, Branches.content, single]
      simp only [Tree.blocks_withText, Tree.blocks, List.cons_append, List.forall_mem_cons,
        List.forall_mem_append]
      refine ⟨⟨before, _, by simpa [FoundBlock.openingTag, FoundBlock.headAt] using split, rfl⟩, ?_, ?_⟩
      · intro block member
        have front : tokens = (before ++ [found.openingTag]) ++ found.branches.consequent ++
            (found.closingTag :: rest) := by
          simpa using split
        exact (insideIh block member).of_part front (by simp [FoundBlock.headAt])
      · intro block member
        exact stands_of_rest scanned (laterIh block member)
  | @choice room start opening head tokens before found rest second consequent alternative next
      scanned double shallow opened headed inside otherwise later insideIh otherwiseIh laterIh =>
      subst opened headed
      have split : tokens = before ++ found.openingTag :: found.branches.consequent ++
          .divider :: second ++ [found.closingTag] ++ rest := by
        simp [Scan.tokens_of_block scanned, FoundBlock.tokens, Branches.content, double]
      simp only [Tree.blocks_withText, Tree.blocks, List.cons_append, List.forall_mem_cons,
        List.forall_mem_append]
      refine ⟨⟨before, _, by simpa [FoundBlock.openingTag, FoundBlock.headAt] using split, rfl⟩,
        ⟨?_, ?_⟩, ?_⟩
      · intro block member
        have front : tokens = (before ++ [found.openingTag]) ++ found.branches.consequent ++
            (.divider :: second ++ found.closingTag :: rest) := by
          simpa using split
        exact (insideIh block member).of_part front (by simp [FoundBlock.headAt])
      · intro block member
        have front : tokens = (before ++ found.openingTag :: found.branches.consequent ++
            [.divider]) ++ second ++ (found.closingTag :: rest) := by
          simpa using split
        exact (otherwiseIh block member).of_part front
          (by simp [FoundBlock.headAt, Token.source])
      · intro block member
        exact stands_of_rest scanned (laterIh block member)

end Parsed

namespace Template

/-- Reading logs each problem where it is found, apart from conditions that cannot be read, and in
the same order. Expanding logs the blocks that it comes to in the order of their opening tags, each
after the problem with its condition if there is one, and no block of a branch that is not
selected. -/
theorem logs_agree (options : Options) (source : Text) (context : Context) :
    let template := parse options source
    let visited := (template.tree.selecting context).blocks
    (Event.atLeast .debug template.report.events).map Event.record =
        template.diagnostics.filterMap Diagnostic.record? ∧
      (∀ diagnostic ∈ template.diagnostics, ∀ condition ∈ diagnostic.condition?,
        condition.trim = condition) ∧
      (template.expandLogged context).events.map Event.record =
        (visited.flatMap fun block => block.1.visitRecords context block.2) ∧
      ∀ block ∈ visited, Stands .origin (Token.tokenize source)
        (.opening block.1.kind block.1.written) block.1.position.start := by
  intro template visited
  have reads := Parsed.reads_ofTokens options (some maxNestingDepth) .origin
    (Token.tokenize source)
  have agrees : template.report.Agrees := reads.agrees
  refine ⟨agrees.records, agrees.trimmed, template.tree.records_expand context, ?_⟩
  intro block member
  exact reads.blocks_stand block ((template.tree.blocks_selecting_sublist context).subset member)

end Template

end MailTemplate
