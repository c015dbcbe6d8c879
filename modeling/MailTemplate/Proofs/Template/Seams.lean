import MailTemplate.Proofs.Markup.Joining
import MailTemplate.Proofs.Template.Grammar
import MailTemplate.Proofs.Template.Selection

/-!
What expanding a template without problems leaves. No literal of the template holds a tag, but the
literals are joined where blocks were, and nothing looks at the seams.
-/

namespace MailTemplate

theorem Document.plain_of_mem_literals {document : Document} (printable : document.Printable)
    (before : Text) : ∀ content ∈ (document.tree before).literals, content.Plain := by
  induction document generalizing before with
  | empty => exact List.forall_mem_nil _
  | literal content next ih =>
      obtain ⟨_, plain, _, rest⟩ := printable
      exact List.forall_mem_cons.mpr ⟨plain, ih rest _⟩
  | block kind written consequent next inside later =>
      obtain ⟨_, first, rest⟩ := printable
      exact List.forall_mem_append.mpr ⟨inside first _, later rest _⟩
  | choice kind written consequent alternative next inside otherwise later =>
      obtain ⟨_, first, second, rest⟩ := printable
      rw [tree, Tree.literals, List.forall_mem_append, List.forall_mem_append]
      exact ⟨⟨inside first _, otherwise second _⟩, later rest _⟩

namespace Template

variable {options : Options} {source : Text}

theorem exists_document_of_check (accepted : (parse options source).check = .ok ()) :
    ∃ document : Document, document.Printable ∧
      (parse options source).tree = document.tree [] := by
  have clean := (check_eq_ok_iff_diagnostics _).mp accepted
  have reads := Parsed.reads_ofTokens options (some maxNestingDepth) .origin
    (Token.tokenize source)
  obtain ⟨nesting, derived, bound⟩ := Derived.of_reads reads clean
  obtain ⟨document, same, rfl, printable, _⟩ :=
    derived.exists_document (Token.lexed_tokenize source)
  have parsed := Document.ofTokens_tokens options printable
    (Document.fits_of_le (bound _ rfl)) []
  rw [same, Point.advance_nil] at parsed
  exact ⟨document, printable, by simp only [parse, parseWithin, parsed]⟩

theorem plain_of_mem_literals (accepted : (parse options source).check = .ok ()) :
    ∀ content ∈ (parse options source).tree.literals, content.Plain := by
  obtain ⟨document, printable, same⟩ := exists_document_of_check accepted
  rw [same]
  exact document.plain_of_mem_literals printable []

theorem plain_expand_iff (accepted : (parse options source).check = .ok ()) (context : Context) :
    ((parse options source).expand context).Plain ↔
      ¬Text.JoinsTag ((parse options source).tree.selected context) := by
  rw [expand_eq_flatten]
  apply Text.plain_flatten_iff
  intro content member
  exact plain_of_mem_literals accepted content (Tree.selected_subset_literals _ _ member)

theorem expand_of_plain {text : Text} (plain : text.Plain) (options : Options)
    (context : Context) : (parse options text).expand context = text := by
  cases text with
  | nil =>
      have printable : Document.empty.Printable := trivial
      have parsed := Document.parse_eq_of_printable options printable (Nat.zero_le _)
      rw [Document.print] at parsed
      rw [parsed]
      rfl
  | cons first text =>
      have printable : (Document.literal (first :: text) .empty).Printable :=
        ⟨List.cons_ne_nil _ _, plain, id, trivial⟩
      have parsed := Document.parse_eq_of_printable options printable (Nat.zero_le _)
      rw [Document.print, Document.print, List.append_nil] at parsed
      rw [parsed]
      exact List.append_nil _

/-- The expansion of a template without problems holds tags exactly when literals that it joins
have one between them. Otherwise expanding it once more changes nothing, and so it is when every
literal of the template finishes its own tags. -/
theorem expand_flat_iff_not_joinsTag (accepted : (parse options source).check = .ok ())
    (context : Context) :
    ((∀ token ∈ Token.tokenize ((parse options source).expand context), ¬token.IsTag) ↔
        ¬Text.JoinsTag ((parse options source).tree.selected context)) ∧
      (¬Text.JoinsTag ((parse options source).tree.selected context) →
        ((parse options source).expand context).Plain ∧
          ∀ other again, (parse other ((parse options source).expand context)).expand again =
            (parse options source).expand context) ∧
      ((∀ content ∈ (parse options source).tree.literals, content.FinishesTags) →
        ¬Text.JoinsTag ((parse options source).tree.selected context)) := by
  refine ⟨?_, ?_, ?_⟩
  · rw [Token.forall_not_isTag_tokenize_iff]
    exact plain_expand_iff accepted context
  · intro apart
    have plain := (plain_expand_iff accepted context).mpr apart
    exact ⟨plain, fun other again => expand_of_plain plain other again⟩
  · intro finish
    apply Text.not_joinsTag_of_finishesTags
    intro content member
    exact finish content (Tree.selected_subset_literals _ _ member)

/-- The template `{a}{{#if x}}A{{else}}{{n}}{{/if}}{else}}`, with braces at every seam. -/
def bracedLiterals : Document :=
  .literal ['{', 'a', '}'] <|
    .choice .ifTrue [' ', 'x'] (.literal ['A'] .empty)
      (.literal ['{', '{', 'n', '}', '}'] .empty) <|
        .literal ['{', 'e', 'l', 's', 'e', '}', '}'] .empty

theorem expand_bracedLiterals :
    (parse .strict bracedLiterals.print).check = .ok () ∧
      ¬Text.JoinsTag ((parse .strict bracedLiterals.print).tree.selected .empty) ∧
      (∀ token ∈ Token.tokenize ((parse .strict bracedLiterals.print).expand .empty),
        ¬token.IsTag) ∧
      (parse .strict bracedLiterals.print).expand .empty =
        ['{', 'a', '}', '{', '{', 'n', '}', '}', '{', 'e', 'l', 's', 'e', '}', '}'] := by
  have printable : bracedLiterals.Printable := by decide
  have parsed := Document.parse_eq_of_printable .strict printable (by decide)
  have accepted : (parse .strict bracedLiterals.print).check = .ok () := by
    rw [parsed]
    rfl
  have finish : ∀ content ∈ (parse .strict bracedLiterals.print).tree.literals,
      content.FinishesTags := by
    rw [parsed]
    decide
  obtain ⟨flat, _, apart⟩ := expand_flat_iff_not_joinsTag accepted .empty
  refine ⟨accepted, apart finish, flat.mpr (apart finish), ?_⟩
  rw [parsed]
  rfl

/-- The template `{{{#if x}}{{/if}}{#if y}}A{{{#if x}}{{/if}}{/if}}`. Without its two blocks, two
braces complete an opening tag and two more its closing tag. -/
def joinedTags : Document :=
  .literal ['{'] <| .block .ifTrue [' ', 'x'] .empty <|
    .literal ['{', '#', 'i', 'f', ' ', 'y', '}', '}', 'A', '{'] <|
      .block .ifTrue [' ', 'x'] .empty <| .literal ['{', '/', 'i', 'f', '}', '}'] .empty

def joinedBlock : Document :=
  .block .ifTrue [' ', 'y'] (.literal ['A'] .empty) .empty

theorem expand_joinedTags :
    (parse .lenient joinedTags.print).check = .ok () ∧
      ∃ context again : Context,
        (∃ token ∈ Token.tokenize ((parse .lenient joinedTags.print).expand context),
          token.IsTag) ∧
        (parse .lenient ((parse .lenient joinedTags.print).expand context)).expand again ≠
          (parse .lenient joinedTags.print).expand context := by
  have outer : joinedTags.Printable := by decide
  have inner : joinedBlock.Printable := by decide
  have parsed := Document.parse_eq_of_printable .lenient outer (by decide)
  have expanded : (parse .lenient joinedTags.print).expand .empty = joinedBlock.print := by
    rw [parsed]
    rfl
  refine ⟨?_, .empty, .empty, ⟨.opening .ifTrue [' ', 'y'], ?_, trivial⟩, ?_⟩
  · rw [parsed]
    rfl
  · rw [expanded, inner.tokenize_print]
    exact List.mem_cons_self
  · rw [expanded, Document.parse_eq_of_printable .lenient inner (by decide)]
    decide

end Template

end MailTemplate
