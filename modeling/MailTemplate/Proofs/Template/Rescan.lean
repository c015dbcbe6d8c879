import MailTemplate.Proofs.Condition
import MailTemplate.Proofs.Markup.Match
import MailTemplate.Proofs.Template.Reading
import MailTemplate.Proofs.Template.Selection

/-!
Blocks resolved on the text itself, with neither tokens nor a tree kept: the text is scanned for its
first block, the selected branch is cut out and resolved as a text of its own, and the scan goes on
after the block. Reading a tree and resolving that gives the same text.
-/

namespace MailTemplate

open Token (sources tokenize)

namespace MatchedBlock

def selectsConsequent (block : MatchedBlock) (context : Context) : Bool :=
  match block.kind with
  | .ifTrue => Condition.textHolds block.written context
  | .unlessTrue => !Condition.textHolds block.written context

def branch? (block : MatchedBlock) (context : Context) (text : Text) : Option Text :=
  if block.selectsConsequent context then
    text.slice? block.consequent.start block.consequent.stop
  else
    match block.alternative with
    | none => some []
    | some span => text.slice? span.start span.stop

end MatchedBlock

namespace FoundBlock

variable {text front back : Text} {block : FoundBlock}

theorem branch?_locate (split : text = front ++ sources block.tokens ++ back)
    (context : Context) :
    (block.locate front.byteSize).branch? context text =
      some (sources
        (block.branch ((block.locate front.byteSize).selectsConsequent context))) := by
  unfold MatchedBlock.branch? branch
  split
  · exact slice?_consequent split
  · cases second : block.branches.alternative with
    | none => simp [locate, second]
    | some tokens =>
        have located : (block.locate front.byteSize).alternative = _ :=
          congrArg (Option.map _) second
        rw [located]
        exact slice?_alternative split second located

theorem isSatisfied_headAt (block : FoundBlock) (opening : Point) (start : Nat)
    (context : Context) :
    (block.headAt opening).isSatisfied context =
      (block.locate start).selectsConsequent context := by
  have same : Condition.textHolds (block.headAt opening).condition context =
      Condition.textHolds block.written context := Condition.textHolds_trim _ _
  rw [BlockHead.isSatisfied, same]
  rfl

end FoundBlock

theorem byteSize_branch?_lt {options : Options} {context : Context} {text branch : Text}
    {cursor : Nat} {block : MatchedBlock} (matched : matchBlock options text cursor = .block block)
    (selected : block.branch? context text = some branch) : branch.byteSize < text.byteSize := by
  obtain ⟨front, found, rest, split, _, rfl⟩ := exists_of_matchBlock matched
  rw [FoundBlock.branch?_locate split context, Option.some.injEq] at selected
  subst selected
  have shorter := found.byteSize_branch_lt
    ((found.locate front.byteSize).selectsConsequent context)
  rw [split, Text.byteSize_append, Text.byteSize_append]
  omega

theorem closing_stop_of_matchBlock {options : Options} {text : Text} {cursor : Nat}
    {block : MatchedBlock} (matched : matchBlock options text cursor = .block block) :
    cursor < block.closing.stop ∧ block.closing.stop ≤ text.byteSize := by
  obtain ⟨front, found, rest, split, after, rfl⟩ := exists_of_matchBlock matched
  have positive := found.byteSize_branch_lt true
  rw [FoundBlock.locate_closing_stop, split, Text.byteSize_append, Text.byteSize_append]
  omega

/-- Resolves the blocks of `text` from a cursor on, `depth` blocks inside of a template. There is no
result if a range cannot be cut out. -/
def rescanFrom (options : Options) (context : Context) (depth : Nat) (text : Text)
    (cursor : Nat) : Option Text :=
  match _matched : matchBlock options text cursor with
  | .literal | .malformed _ _ => text.slice? cursor text.byteSize
  | .block block => do
      let before ← text.slice? cursor block.opening.start
      let inside ←
        (if maxNestingDepth ≤ depth then text.slice? block.opening.start block.closing.stop
        else
          match _selected : block.branch? context text with
          | none => none
          | some branch => rescanFrom options context (depth + 1) branch 0)
      let after ← rescanFrom options context depth text block.closing.stop
      some (before ++ inside ++ after)
termination_by (text.byteSize, text.byteSize - cursor)
decreasing_by
  · exact Prod.Lex.left _ _ (byteSize_branch?_lt _matched _selected)
  · have bounds := closing_stop_of_matchBlock _matched
    exact Prod.Lex.right _ (by omega)

variable {options : Options} {context : Context} {depth : Nat} {text behind ahead : Text}

theorem rescanFrom_of_plain (split : text = behind ++ ahead)
    (plain : ∀ before found rest,
      Scan.ofTokens options (tokenize ahead) ≠ .block before found rest) :
    rescanFrom options context depth text behind.byteSize = some ahead := by
  have remainder : text.slice? behind.byteSize text.byteSize = some ahead := by
    have parts : text = behind ++ ahead ++ [] := by rw [split, List.append_nil]
    apply Text.slice?_of_split parts rfl
    rw [split, Text.byteSize_append]
  rw [rescanFrom]
  split
  · exact remainder
  · exact remainder
  · rename_i block matched
    rw [matchBlock_of_split options split] at matched
    cases scanned : Scan.ofTokens options (tokenize ahead) with
    | literal =>
        rw [scanned] at matched
        cases matched
    | malformed before reason =>
        rw [scanned] at matched
        cases matched
    | block before found rest => exact absurd scanned (plain before found rest)

theorem rescanFrom_of_block {before rest : List Token} {found : FoundBlock} {inside after : Text}
    (opening : Point) (split : text = behind ++ ahead)
    (scanned : Scan.ofTokens options (tokenize ahead) = .block before found rest)
    (resolved : (if maxNestingDepth ≤ depth then some (sources found.tokens)
      else rescanFrom options context (depth + 1)
        (sources (found.branch ((found.headAt opening).isSatisfied context))) 0) = some inside)
    (later : rescanFrom options context depth text
      (behind ++ sources before ++ sources found.tokens).byteSize = some after) :
    rescanFrom options context depth text behind.byteSize =
      some (sources before ++ inside ++ after) := by
  have matched : matchBlock options text behind.byteSize =
      .block (found.locate (behind ++ sources before).byteSize) := by
    rw [matchBlock_of_split options split, scanned, Text.byteSize_append]
    rfl
  have whole := Scan.eq_append_of_block split scanned
  have front : text.slice? behind.byteSize (behind ++ sources before).byteSize =
      some (sources before) := by
    have parts : text = behind ++ sources before ++ (sources found.tokens ++ sources rest) := by
      rw [whole, List.append_assoc]
    exact Text.slice?_of_split parts rfl (Text.byteSize_append _ _).symm
  have last : (found.locate (behind ++ sources before).byteSize).closing.stop =
      (behind ++ sources before ++ sources found.tokens).byteSize := by
    rw [FoundBlock.locate_closing_stop, Text.byteSize_append _ (sources found.tokens)]
  rw [rescanFrom]
  split
  · rename_i other
    rw [matched] at other
    cases other
  · rename_i other
    rw [matched] at other
    cases other
  · rename_i block again
    rw [matched] at again
    cases again
    have around := FoundBlock.slice?_locate whole
    have chosen := FoundBlock.branch?_locate whole context
    rw [FoundBlock.locate_opening_start] at around ⊢
    rw [around, front, last, later]
    split at resolved
    · rename_i deep
      cases resolved
      simp [deep]
    · rename_i shallow
      rw [if_neg shallow]
      split
      · rename_i missing
        rw [chosen] at missing
        cases missing
      · rename_i branch same
        rw [chosen, Option.some.injEq] at same
        rw [FoundBlock.isSatisfied_headAt _ _ (behind ++ sources before).byteSize, same] at resolved
        simp [resolved]

theorem rescanFrom_nil : rescanFrom options context depth [] 0 = some [] :=
  rescanFrom_of_plain (List.nil_append []).symm (by simp [Scan.ofTokens])

theorem room_below (shallow : some (maxNestingDepth - depth) ≠ some 0) :
    ¬maxNestingDepth ≤ depth ∧
      (some (maxNestingDepth - depth)).map (· - 1) = some (maxNestingDepth - (depth + 1)) := by
  rw [Option.map_some, Option.some.injEq]
  rw [Ne, Option.some.injEq] at shallow
  omega

theorem rescanFrom_of_reads {room : Option Nat} {start : Point} {tokens : List Token}
    {parsed : Parsed} (reads : Parsed.Reads options room start tokens parsed)
    (bounded : room = some (maxNestingDepth - depth)) (split : text = behind ++ ahead)
    (same : tokenize ahead = tokens) :
    rescanFrom options context depth text behind.byteSize =
      some (parsed.tree.expand context).text := by
  -- A branch is a text of its own here, so text and cursor differ from one step to the next. What
  -- carries the induction is that the text from the cursor on has the tokens that were read.
  induction reads generalizing depth text behind ahead with
  | literal scanned =>
      subst same
      rw [rescanFrom_of_plain split (by simp [scanned]), Token.sources_tokenize,
        Tree.text_expand_ofText]
  | malformed scanned =>
      subst same
      rw [rescanFrom_of_plain split (by simp [scanned]), Token.sources_tokenize,
        Tree.text_expand_ofText]
  | tooDeep scanned later ih =>
      subst same
      have deep : maxNestingDepth ≤ depth := by
        rw [Option.some.injEq] at bounded
        omega
      rw [Tree.text_expand_withText, Tree.text_expand_withText, ← List.append_assoc]
      apply rescanFrom_of_block .origin split scanned
      · exact if_pos deep
      · exact ih bounded (Scan.eq_append_of_block split scanned) (Scan.tokenize_rest_of_block scanned)
  | block scanned single shallow opened headed inside later insideIh laterIh =>
      rename_i found rest consequent next
      subst same bounded headed
      obtain ⟨fits, below⟩ := room_below shallow
      rw [Tree.text_expand_withText, Tree.text_expand_block, ← List.append_assoc]
      apply rescanFrom_of_block _ split scanned
      · rw [if_neg fits]
        cases satisfied : (found.headAt _).isSatisfied context with
        | true =>
            rw [if_pos rfl]
            exact insideIh below (List.nil_append _).symm (Scan.tokenize_branch_of_block scanned true)
        | false =>
            rw [FoundBlock.branch, single]
            exact rescanFrom_nil
      · exact laterIh rfl (Scan.eq_append_of_block split scanned) (Scan.tokenize_rest_of_block scanned)
  | choice scanned double shallow opened headed inside otherwise later insideIh otherwiseIh
      laterIh =>
      rename_i found rest second consequent alternative next
      subst same bounded headed
      obtain ⟨fits, below⟩ := room_below shallow
      rw [Tree.text_expand_withText, Tree.text_expand_choice, ← List.append_assoc]
      apply rescanFrom_of_block _ split scanned
      · rw [if_neg fits]
        cases satisfied : (found.headAt _).isSatisfied context with
        | true =>
            rw [if_pos rfl]
            exact insideIh below (List.nil_append _).symm (Scan.tokenize_branch_of_block scanned true)
        | false =>
            have alone := Scan.tokenize_branch_of_block scanned false
            rw [FoundBlock.branch, double] at alone ⊢
            exact otherwiseIh below (List.nil_append _).symm alone
      · exact laterIh rfl (Scan.eq_append_of_block split scanned) (Scan.tokenize_rest_of_block scanned)

def rescan (options : Options) (context : Context) (source : Text) : Option Text :=
  rescanFrom options context 0 source 0

theorem Template.rescan_eq_expand (options : Options) (context : Context) (source : Text) :
    rescan options context source = some ((parse options source).expand context) := by
  have reads := Parsed.reads_ofTokens options (some maxNestingDepth) .origin (tokenize source)
  exact rescanFrom_of_reads reads rfl (List.nil_append source).symm rfl

end MailTemplate
