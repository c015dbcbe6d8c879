import MailTemplate.Proofs.Condition
import MailTemplate.Proofs.Markup.Joining
import MailTemplate.Proofs.Markup.Nesting
import MailTemplate.Proofs.Template.Document
import MailTemplate.Proofs.Template.Pruning
import MailTemplate.Proofs.Template.Variables

/-!
Fragments: sources that can stand in a branch of a block. What a fragment expands to depends neither
on where it stands nor, as long as there is room for its blocks, on how many blocks enclose it.
-/

namespace MailTemplate

open Token (Balanced Undivided nesting sources tokenize)

namespace BlockKind

def selects (kind : BlockKind) (holds : Bool) : Bool :=
  match kind with
  | .ifTrue => holds
  | .unlessTrue => !holds

def enclose (kind : BlockKind) (condition first : Text) (second : Option Text) : Text :=
  ['{', '{', '#'] ++ kind.word ++ ' ' :: condition ++ ['}', '}'] ++ first ++
    (match second with
      | none => []
      | some second => ['{', '{', 'e', 'l', 's', 'e', '}', '}'] ++ second) ++
    (['{', '{', '/'] ++ kind.word ++ ['}', '}'])

end BlockKind

theorem Text.Writable.padded {condition : Text} (writable : condition.Writable) :
    Writable (' ' :: condition) := by
  obtain ⟨free, last⟩ := writable
  constructor
  · intro inside
    rcases List.infix_cons_iff.mp inside with ⟨after, same⟩ | later
    · cases same
    · exact free later
  · intro same
    cases condition with
    | nil => cases same
    | cons c condition => exact last (by simpa using same)

theorem BlockHead.isSatisfied_eq {head : BlockHead} {condition : Text}
    (written : head.written = ' ' :: condition) (context : Context) :
    head.isSatisfied context = head.kind.selects (Condition.textHolds condition context) := by
  have trimmed : head.condition = condition.trim := by
    rw [BlockHead.condition, written]
    rfl
  have holds : Condition.textHolds head.condition context = Condition.textHolds condition context := by
    rw [trimmed, Condition.textHolds_trim]
  rw [isSatisfied, holds]
  cases head.kind with
  | ifTrue => rfl
  | unlessTrue => rfl

namespace Layout

variable {options : Options} {tokens : List Token} {layout : Layout}

theorem text_expand_parsed (layout : Layout) (context : Context) (first second : Point) :
    ((layout.parsed first).tree.expand context).text =
      ((layout.parsed second).tree.expand context).text := by
  -- Only the heads of blocks hold places, and what a block selects does not depend on its place.
  induction layout generalizing first second with
  | flat tokens => rfl
  | malformed before reason kept => rfl
  | tooDeep before found next ih =>
      simp only [parsed, Tree.text_expand_withText, Tree.text_expand_literal]
      rw [ih]
  | block before kind written consequent closer next insideIh laterIh =>
      simp only [parsed, Tree.text_expand_withText, Tree.text_expand_block]
      rw [insideIh, laterIh]
      rfl
  | choice before kind written consequent alternative closer next insideIh otherwiseIh laterIh =>
      simp only [parsed, Tree.text_expand_withText, Tree.text_expand_choice]
      rw [insideIh, otherwiseIh, laterIh]
      rfl

theorem Lays.nesting_le {room : Option Nat} (lays : Lays options room tokens layout)
    (balanced : Balanced tokens) (start : Point) :
    (layout.parsed start).tree.nesting ≤ nesting tokens := by
  induction lays generalizing start with
  | flat scanned => simp [parsed]
  | malformed scanned => simp [parsed]
  | tooDeep scanned later ih =>
      have parts := Scan.parts_of_block balanced scanned
      simp only [parsed, Tree.nesting_withText, Tree.nesting]
      exact Nat.le_trans (ih parts.later _) parts.later_le
  | block scanned single shallow inside later insideIh laterIh =>
      have parts := Scan.parts_of_block balanced scanned
      simp only [parsed, Tree.nesting_withText, Tree.nesting]
      apply Nat.max_le.mpr
      constructor
      · exact Nat.lt_of_le_of_lt (insideIh parts.consequent _) parts.consequent_lt
      · exact Nat.le_trans (laterIh parts.later _) parts.later_le
  | choice scanned double shallow inside otherwise later insideIh otherwiseIh laterIh =>
      have parts := Scan.parts_of_block balanced scanned
      simp only [parsed, Tree.nesting_withText, Tree.nesting]
      apply Nat.max_le.mpr
      constructor
      · apply Nat.succ_le_of_lt
        apply Nat.max_lt.mpr
        constructor
        · exact Nat.lt_of_le_of_lt (insideIh parts.consequent _) parts.consequent_lt
        · exact Nat.lt_of_le_of_lt (otherwiseIh (parts.alternative _ double) _)
            (parts.alternative_lt _ double)
      · exact Nat.le_trans (laterIh parts.later _) parts.later_le

/-- What the layout of a source expands to where `limit` more blocks may be open. -/
def expansion (limit : Nat) (layout : Layout) (context : Context) : Text :=
  (((layout.prune limit).parsed .origin).tree.expand context).text

theorem expansion_of_shallow {limit : Nat} {start : Point}
    (shallow : ((layout.prune (limit + 1)).parsed start).tree.nesting ≤ limit) (context : Context) :
    layout.expansion (limit + 1) context = layout.expansion limit context := by
  rw [nesting_prune] at shallow
  have whole : (layout.parsed start).tree.nesting ≤ limit := by omega
  rw [expansion, expansion, prune_of_nesting_le whole,
    prune_of_nesting_le (Nat.le_succ_of_le whole)]

theorem expansion_block (limit : Nat) (kind : BlockKind) (condition : Text) (consequent : Layout)
    (context : Context) :
    (block [] kind (' ' :: condition) consequent kind (.flat [])).expansion (limit + 1) context =
      if kind.selects (Condition.textHolds condition context) then
        consequent.expansion limit context
      else [] := by
  rw [expansion, prune, prune, parsed]
  simp only [Tree.text_expand_withText, Tree.text_expand_block, parsed, Tree.text_expand_ofText,
    Token.sources_nil, List.nil_append, List.append_nil]
  rw [BlockHead.isSatisfied_eq rfl, text_expand_parsed _ context _ .origin]
  rfl

theorem expansion_choice (limit : Nat) (kind : BlockKind) (condition : Text)
    (consequent alternative : Layout) (context : Context) :
    (choice [] kind (' ' :: condition) consequent alternative kind (.flat [])).expansion (limit + 1)
        context =
      if kind.selects (Condition.textHolds condition context) then
        consequent.expansion limit context
      else alternative.expansion limit context := by
  rw [expansion, prune, prune, parsed]
  simp only [Tree.text_expand_withText, Tree.text_expand_choice, parsed, Tree.text_expand_ofText,
    Token.sources_nil, List.nil_append, List.append_nil]
  rw [BlockHead.isSatisfied_eq rfl, text_expand_parsed (consequent.prune limit) context _ .origin,
    text_expand_parsed (alternative.prune limit) context _ .origin]
  rfl

theorem Lays.expand_eq {source : Text} (lays : Lays options none (tokenize source) layout)
    (context : Context) :
    (Template.parse options source).expand context = layout.expansion maxNestingDepth context := by
  rw [lays.parse_eq]
  rfl

theorem Lays.expand_eq_of_shallow {source : Text}
    (lays : Lays options none (tokenize source) layout)
    (shallow : (Template.parse options source).tree.nesting < maxNestingDepth) (context : Context) :
    (Template.parse options source).expand context =
      layout.expansion (maxNestingDepth - 1) context := by
  rw [lays.parse_eq] at shallow
  rw [lays.expand_eq]
  exact expansion_of_shallow (Nat.le_of_lt_succ shallow) context

end Layout

section

variable {options : Options} {condition first second : Text}

theorem BlockKind.tokenize_enclose (kind : BlockKind) (writable : condition.Writable)
    (front : Balanced (tokenize first)) :
    tokenize (kind.enclose condition first none) =
      .opening kind (' ' :: condition) :: tokenize first ++ .closing kind :: [] := by
  have lexed : Token.Lexed (.opening kind (' ' :: condition) :: tokenize first ++
      .closing kind :: []) :=
    (Token.lexed_tokenize first).enclosed front writable.padded Token.lexed_nil
  rw [← Token.tokenize_sources lexed]
  simp [enclose, Token.source, openingLiteral, closingLiteral, tagEnd, Token.sources_tokenize]

theorem BlockKind.tokenize_enclose_divided (kind : BlockKind) (writable : condition.Writable)
    (front : Balanced (tokenize first)) (back : Balanced (tokenize second)) :
    tokenize (kind.enclose condition first (some second)) =
      .opening kind (' ' :: condition) :: (tokenize first ++ .divider :: tokenize second) ++
        .closing kind :: [] := by
  have inside : Token.Lexed (tokenize first ++ .divider :: tokenize second) :=
    (Token.lexed_tokenize first).divided front (Token.lexed_tokenize second)
  have lexed : Token.Lexed (.opening kind (' ' :: condition) ::
      (tokenize first ++ .divider :: tokenize second) ++ .closing kind :: []) :=
    inside.enclosed (front.append (.divider back)) writable.padded Token.lexed_nil
  rw [← Token.tokenize_sources lexed]
  simp [enclose, Token.source, openingLiteral, closingLiteral, dividerLiteral, tagEnd,
    Token.sources_tokenize]

theorem Layout.lays_enclose (kind : BlockKind) (writable : condition.Writable)
    (front : Undivided (tokenize first)) {consequent : Layout}
    (inside : Lays options none (tokenize first) consequent) :
    Lays options none (tokenize (kind.enclose condition first none))
      (.block [] kind (' ' :: condition) consequent kind (.flat [])) := by
  have scanned := Scan.ofTokens_undivided front options kind (' ' :: condition) []
  rw [kind.tokenize_enclose writable front.balanced]
  exact .block scanned rfl (by simp) inside (.flat rfl)

theorem Layout.lays_enclose_divided (kind : BlockKind) (writable : condition.Writable)
    (front : Undivided (tokenize first)) (back : Undivided (tokenize second))
    {consequent alternative : Layout} (inside : Lays options none (tokenize first) consequent)
    (otherwise : Lays options none (tokenize second) alternative) :
    Lays options none (tokenize (kind.enclose condition first (some second)))
      (.choice [] kind (' ' :: condition) consequent alternative kind (.flat [])) := by
  have scanned :=
    Scan.ofTokens_divided front back.balanced options kind (' ' :: condition) []
  rw [kind.tokenize_enclose_divided writable front.balanced back.balanced]
  exact .choice scanned rfl (by simp) inside otherwise (.flat rfl)

end

namespace Template

theorem nesting_tree_le (options : Options) {source : Text} (balanced : Balanced (tokenize source)) :
    (parse options source).tree.nesting ≤ nesting (tokenize source) := by
  obtain ⟨layout, lays⟩ := Layout.exists_lays options (some maxNestingDepth) (tokenize source)
  have reading : parse options source = layout.template source := lays.template_eq
  rw [reading]
  exact lays.nesting_le balanced .origin

theorem expand_exchange (options : Options) (context : Context) {condition first second : Text}
    (writable : condition.Writable) (front : Undivided (tokenize first))
    (back : Undivided (tokenize second)) :
    (parse options (BlockKind.unlessTrue.enclose condition first (some second))).expand context =
      (parse options (BlockKind.ifTrue.enclose condition second (some first))).expand context := by
  obtain ⟨consequent, inside⟩ := Layout.exists_lays options none (tokenize first)
  obtain ⟨alternative, otherwise⟩ := Layout.exists_lays options none (tokenize second)
  have unlessLays := Layout.lays_enclose_divided .unlessTrue writable front back inside otherwise
  have ifLays := Layout.lays_enclose_divided .ifTrue writable back front otherwise inside
  have unlessExpands := unlessLays.expand_eq context
  have ifExpands := ifLays.expand_eq context
  rw [maxNestingDepth, Layout.expansion_choice] at unlessExpands ifExpands
  rw [unlessExpands, ifExpands]
  -- A condition that cannot be read is false here too, for both kinds of block.
  cases Condition.textHolds condition context with
  | false => rfl
  | true => rfl

theorem expand_selects (options : Options) (context : Context) {condition first second : Text}
    (writable : condition.Writable) (front : Undivided (tokenize first))
    (back : Undivided (tokenize second))
    (shallow : (parse options first).tree.nesting < maxNestingDepth)
    (shallower : (parse options second).tree.nesting < maxNestingDepth) :
    (parse options (BlockKind.ifTrue.enclose condition first (some second))).expand context =
      if Condition.textHolds condition context then (parse options first).expand context
      else (parse options second).expand context := by
  obtain ⟨consequent, inside⟩ := Layout.exists_lays options none (tokenize first)
  obtain ⟨alternative, otherwise⟩ := Layout.exists_lays options none (tokenize second)
  have whole := Layout.lays_enclose_divided .ifTrue writable front back inside otherwise
  rw [whole.expand_eq context, inside.expand_eq_of_shallow shallow context,
    otherwise.expand_eq_of_shallow shallower context]
  exact Layout.expansion_choice (maxNestingDepth - 1) .ifTrue condition consequent alternative context

theorem expand_keeps (options : Options) (context : Context) {condition first : Text}
    (writable : condition.Writable) (front : Undivided (tokenize first))
    (shallow : (parse options first).tree.nesting < maxNestingDepth) :
    (parse options (BlockKind.ifTrue.enclose condition first none)).expand context =
      if Condition.textHolds condition context then (parse options first).expand context
      else [] := by
  obtain ⟨consequent, inside⟩ := Layout.exists_lays options none (tokenize first)
  have whole := Layout.lays_enclose .ifTrue writable front inside
  rw [whole.expand_eq context, inside.expand_eq_of_shallow shallow context]
  exact Layout.expansion_block (maxNestingDepth - 1) .ifTrue condition consequent context

/-- A block selects one of the fragments in it, which then expands like a template of its own. Of
two fragments and of the same ones exchanged, blocks of the two kinds select alike, however deep the
fragments nest. -/
theorem expand_enclose (options : Options) (context : Context) {condition first second : Text}
    (writable : condition.Writable) (front : Undivided (tokenize first))
    (back : Undivided (tokenize second)) :
    (parse options (BlockKind.unlessTrue.enclose condition first (some second))).expand context =
        (parse options (BlockKind.ifTrue.enclose condition second (some first))).expand context ∧
      (parse options (BlockKind.unlessTrue.enclose condition first (some second))).render context =
        (parse options (BlockKind.ifTrue.enclose condition second (some first))).render context ∧
      ((parse options first).tree.nesting ≤ 127 →
        (parse options (BlockKind.ifTrue.enclose condition first none)).expand context =
            (if Condition.textHolds condition context then (parse options first).expand context
              else []) ∧
          ((parse options second).tree.nesting ≤ 127 →
            (parse options (BlockKind.ifTrue.enclose condition first (some second))).expand context =
              if Condition.textHolds condition context then (parse options first).expand context
              else (parse options second).expand context)) ∧
      ∀ fragment ∈ [first, second],
        (parse options fragment).tree.nesting ≤ nesting (tokenize fragment) := by
  have same := expand_exchange options context writable front back
  refine ⟨same, ?_, fun shallow => ⟨?_, fun shallower => ?_⟩, ?_⟩
  · rw [render_eq, render_eq, same]
  · exact expand_keeps options context writable front (Nat.lt_succ_of_le shallow)
  · exact expand_selects options context writable front back (Nat.lt_succ_of_le shallow)
      (Nat.lt_succ_of_le shallower)
  · intro fragment member
    simp only [List.mem_cons, List.not_mem_nil, or_false] at member
    rcases member with rfl | rfl
    · exact nesting_tree_le options front.balanced
    · exact nesting_tree_le options back.balanced

/-- The tokens of `{{{#if b}}x{{/unless}}`, where a closing tag is of the other kind. -/
def crossed : List Token :=
  [.text ['{'], .opening .ifTrue [' ', 'b'], .text ['x'], .closing .unlessTrue]

theorem tokenize_crossed : tokenize (sources crossed) = crossed := by
  have writable : Text.Writable [' ', 'b'] := by decide
  have brace : Text.Plain ['{'] := by decide
  have letter : Text.Plain ['x'] := by decide
  apply Token.tokenize_sources
  simp [crossed, Token.lexed_cons_iff, Token.lexed_nil, Token.IsLexed, Token.MayPrecede,
    Token.IsTag, writable, brace, letter]

/-- The condition `==` cannot be read, and counts as false for either kind of block. -/
theorem expand_enclose_crossed :
    Text.Writable ['=', '='] ∧ Undivided (tokenize (sources crossed)) ∧
      Undivided (tokenize ['}']) ∧
      (parse .strict (sources crossed)).tree.nesting ≤ 127 ∧
      (parse .strict ['}']).tree.nesting ≤ 127 ∧
      (parse .strict (BlockKind.ifTrue.enclose ['=', '='] (sources crossed) (some ['}']))).expand
          .empty = (parse .strict ['}']).expand .empty ∧
      (parse .strict (BlockKind.unlessTrue.enclose ['=', '='] ['}'] (some (sources crossed)))).expand
          .empty = (parse .strict ['}']).expand .empty := by
  have writable : Text.Writable ['=', '='] := by decide
  have front : Undivided (tokenize (sources crossed)) := by
    rw [tokenize_crossed]
    exact .text (.block (.text .nil) .nil)
  have tokens : tokenize ['}'] = [.text ['}']] := Token.tokenize_of_plain (by decide) (by simp)
  have back : Undivided (tokenize ['}']) := by
    rw [tokens]
    exact .text .nil
  obtain ⟨-, -, selects, nests⟩ := expand_enclose .strict .empty writable front back
  have first : (parse .strict (sources crossed)).tree.nesting ≤ 127 := by
    have bound := nests (sources crossed) (by simp)
    rw [tokenize_crossed] at bound
    exact Nat.le_trans bound (by decide)
  have second : (parse .strict ['}']).tree.nesting ≤ 127 := by
    have bound := nests ['}'] (by simp)
    rw [tokens] at bound
    exact Nat.le_trans bound (by decide)
  have kept := (selects first).2 second
  have exchanged := (expand_enclose .strict .empty writable back front).1
  have unread : Condition.textHolds ['=', '='] .empty = false := by decide
  rw [unread] at kept
  exact ⟨writable, front, back, first, second, kept, exchanged.trans kept⟩

end Template

end MailTemplate
