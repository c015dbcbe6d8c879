import MailTemplate.Proofs.Template.Layout

/-!
The limit on nesting. Reading under a limit keeps the blocks that stand too deep as text, and
changes nothing around them.
-/

namespace MailTemplate

def Tree.nesting : Tree → Nat
  | .empty => 0
  | .literal _ next => next.nesting
  | .block _ consequent next => max (consequent.nesting + 1) next.nesting
  | .choice _ consequent alternative next =>
      max (max consequent.nesting alternative.nesting + 1) next.nesting

@[simp] theorem Tree.nesting_withText (content : Text) (next : Tree) :
    (Tree.withText content next).nesting = next.nesting := by
  unfold withText
  split
  · rfl
  · rfl

@[simp] theorem Tree.nesting_ofText (content : Text) : (Tree.ofText content).nesting = 0 :=
  nesting_withText content .empty

namespace Layout

/-- The layout with each block that `limit` blocks enclose kept as text. -/
def prune : Nat → Layout → Layout
  | _, .flat tokens => .flat tokens
  | _, .malformed before reason kept => .malformed before reason kept
  | limit, .tooDeep before found next => .tooDeep before found (next.prune limit)
  | 0, .block before kind written consequent closer next =>
      .tooDeep before (.single kind written consequent.tokens closer) (next.prune 0)
  | limit + 1, .block before kind written consequent closer next =>
      .block before kind written (consequent.prune limit) closer (next.prune (limit + 1))
  | 0, .choice before kind written consequent alternative closer next =>
      .tooDeep before (.double kind written consequent.tokens alternative.tokens closer)
        (next.prune 0)
  | limit + 1, .choice before kind written consequent alternative closer next =>
      .choice before kind written (consequent.prune limit) (alternative.prune limit) closer
        (next.prune (limit + 1))

variable {options : Options} {tokens : List Token} {layout : Layout}

@[simp] theorem tokens_prune (limit : Nat) (layout : Layout) :
    (layout.prune limit).tokens = layout.tokens := by
  induction layout generalizing limit with
  | flat tokens => rfl
  | malformed before reason kept => rfl
  | tooDeep before found next ih => simp only [prune, Layout.tokens, ih]
  | block before kind written consequent closer next insideIh laterIh =>
      cases limit with
      | zero => simp only [prune, Layout.tokens, laterIh]
      | succ limit => simp only [prune, Layout.tokens, insideIh, laterIh]
  | choice before kind written consequent alternative closer next insideIh otherwiseIh laterIh =>
      cases limit with
      | zero => simp only [prune, Layout.tokens, laterIh]
      | succ limit => simp only [prune, Layout.tokens, insideIh, otherwiseIh, laterIh]

theorem Lays.prune (lays : Lays options none tokens layout) (limit : Nat) :
    Lays options (some limit) tokens (layout.prune limit) := by
  generalize unlimited : (none : Option Nat) = room at lays
  induction lays generalizing limit with
  | flat scanned => exact .flat scanned
  | malformed scanned => exact .malformed scanned
  | tooDeep scanned later ih => cases unlimited
  | block scanned single shallow inside later insideIh laterIh =>
      subst unlimited
      cases limit with
      | zero =>
          rw [Layout.prune, inside.tokens_eq, ← FoundBlock.eq_single single]
          exact .tooDeep scanned (laterIh 0 rfl)
      | succ limit =>
          exact .block scanned single (by simp) (insideIh limit rfl) (laterIh (limit + 1) rfl)
  | choice scanned double shallow inside otherwise later insideIh otherwiseIh laterIh =>
      subst unlimited
      cases limit with
      | zero =>
          rw [Layout.prune, inside.tokens_eq, otherwise.tokens_eq,
            ← FoundBlock.eq_double double]
          exact .tooDeep scanned (laterIh 0 rfl)
      | succ limit =>
          exact .choice scanned double (by simp) (insideIh limit rfl) (otherwiseIh limit rfl)
            (laterIh (limit + 1) rfl)

theorem nesting_prune (limit : Nat) (layout : Layout) (start : Point) :
    ((layout.prune limit).parsed start).tree.nesting =
      min limit (layout.parsed start).tree.nesting := by
  induction layout generalizing limit start with
  | flat tokens => simp [prune, parsed]
  | malformed before reason kept => simp [prune, parsed]
  | tooDeep before found next ih => simpa [prune, parsed, Tree.nesting] using ih limit _
  | block before kind written consequent closer next insideIh laterIh =>
      cases limit with
      | zero => simpa [prune, parsed, Tree.nesting] using laterIh 0 _
      | succ limit =>
          simp only [prune, parsed, Tree.nesting_withText, Tree.nesting, tokens_prune, insideIh,
            laterIh]
          omega
  | choice before kind written consequent alternative closer next insideIh otherwiseIh laterIh =>
      cases limit with
      | zero => simpa [prune, parsed, Tree.nesting] using laterIh 0 _
      | succ limit =>
          simp only [prune, parsed, Tree.nesting_withText, Tree.nesting, tokens_prune, insideIh,
            otherwiseIh, laterIh]
          omega

theorem prune_of_nesting_le {limit : Nat} {start : Point}
    (shallow : (layout.parsed start).tree.nesting ≤ limit) : layout.prune limit = layout := by
  induction layout generalizing limit start with
  | flat tokens => rfl
  | malformed before reason kept => rfl
  | tooDeep before found next ih =>
      simp only [parsed, Tree.nesting_withText, Tree.nesting] at shallow
      rw [prune, ih shallow]
  | block before kind written consequent closer next insideIh laterIh =>
      simp only [parsed, Tree.nesting_withText, Tree.nesting] at shallow
      obtain ⟨inside, later⟩ := Nat.max_le.mp shallow
      cases limit with
      | zero => exact absurd inside (Nat.not_succ_le_zero _)
      | succ limit => rw [prune, insideIh (Nat.le_of_succ_le_succ inside), laterIh later]
  | choice before kind written consequent alternative closer next insideIh otherwiseIh laterIh =>
      simp only [parsed, Tree.nesting_withText, Tree.nesting] at shallow
      obtain ⟨branches, later⟩ := Nat.max_le.mp shallow
      cases limit with
      | zero => exact absurd branches (Nat.not_succ_le_zero _)
      | succ limit =>
          obtain ⟨inside, otherwise⟩ := Nat.max_le.mp (Nat.le_of_succ_le_succ branches)
          rw [prune, insideIh inside, otherwiseIh otherwise, laterIh later]

theorem Lays.parse_eq {source : Text} (lays : Lays options none (Token.tokenize source) layout) :
    Template.parse options source = (layout.prune maxNestingDepth).template source :=
  (lays.prune maxNestingDepth).template_eq

end Layout

/-- The limit prunes and does nothing else: the tree and the report are those of one layout of the
source, once as it is and once with each block that too many blocks enclose kept as text. -/
theorem Template.parse_prunes (options : Options) (source : Text) :
    ∃ layout : Layout,
      layout.tokens = Token.tokenize source ∧
        parseWithin none options source = layout.template source ∧
        parse options source = (layout.prune 128).template source ∧
        (parse options source).tree.nesting ≤ 128 ∧
        ((parseWithin none options source).tree.nesting ≤ 128 →
          parse options source = parseWithin none options source) := by
  obtain ⟨layout, lays⟩ := Layout.exists_lays options none (Token.tokenize source)
  have unlimited := lays.template_eq
  have limited : parse options source = (layout.prune 128).template source := lays.parse_eq
  refine ⟨layout, lays.tokens_eq, unlimited, limited, ?_, fun shallow => ?_⟩
  · rw [limited]
    have shallow := Layout.nesting_prune 128 layout .origin
    exact shallow ▸ Nat.min_le_left _ _
  · rw [unlimited] at shallow ⊢
    rw [limited, Layout.prune_of_nesting_le shallow]

end MailTemplate
