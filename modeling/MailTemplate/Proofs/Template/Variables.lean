import MailTemplate.Proofs.Substitution
import MailTemplate.Proofs.Template.Printing
import MailTemplate.Proofs.Template.Selection

/-!
The variables that rendering reads. Selected literals are joined before their variables are looked
for, so a variable can stand across two of them. The listed names are all that is read exactly when
no such variable brings in a name of its own.
-/

namespace MailTemplate

namespace Template

def ListsReferenced (template : Template) : Prop :=
  ∀ context, ∀ name ∈ referencedNames (template.expand context), name ∈ template.variableNames

section

variable {template : Template} {first second : Context}

theorem render_eq (template : Template) (context : Context) :
    template.render context = (substitute (template.expand context) context).text := rfl

theorem expand_congr
    (agree : ∀ name ∈ template.variableNames, first.get? name = second.get? name) :
    template.expand first = template.expand second := by
  have same : template.tree.selected first = template.tree.selected second := by
    apply Tree.selected_congr
    intro name member
    rw [Context.lookup, Context.lookup, agree name ((mem_sortNames _ _).mpr member)]
  rw [expand_eq_flatten, expand_eq_flatten, same]

theorem ListsReferenced.render_congr (lists : template.ListsReferenced)
    (agree : ∀ name ∈ template.variableNames, first.get? name = second.get? name) :
    template.render first = template.render second := by
  have same : substitute (template.expand first) first =
      substitute (template.expand first) second :=
    substitute_congr fun name member => agree name (lists first name member)
  rw [render_eq, render_eq, same, expand_congr agree]

theorem ListsReferenced.of_render_congr
    (law : ∀ first second : Context,
      (∀ name ∈ template.variableNames, first.get? name = second.get? name) →
        template.render first = template.render second) : template.ListsReferenced := by
  intro context name member
  by_contra unlisted
  have kept (value : Value) : ∀ other ∈ template.variableNames,
      (context.insert name value).get? other = context.get? other := by
    intro other listed
    rw [Context.get?_insert, if_neg]
    rintro rfl
    exact unlisted listed
  have short := expand_congr (kept (.string []))
  have long := expand_congr (kept (.string [' ']))
  have same := law (context.insert name (.string [])) (context.insert name (.string [' '])) <| by
    intro other listed
    rw [kept _ other listed, kept _ other listed]
  have shorter := length_substitute_lt member context
  rw [render_eq, render_eq, short, long] at same
  exact absurd (congrArg List.length same) (Nat.ne_of_lt shorter)

theorem ListsReferenced.of_finishesSites
    (finish : ∀ content ∈ template.tree.literals, content.FinishesSites) :
    template.ListsReferenced := by
  intro context name member
  have selected := Tree.selected_subset_literals context template.tree
  rw [expand_eq_flatten, referencedNames_flatten fun piece inside => finish piece (selected inside),
    List.mem_flatMap] at member
  obtain ⟨content, inside, referenced⟩ := member
  exact (mem_sortNames _ _).mpr (Tree.referencedNames_subset_names (selected inside) referenced)

theorem ListsReferenced.events_eq_nil (lists : template.ListsReferenced) {context : Context}
    (complete : template.missingVariables context = []) :
    (substitute (template.expand context) context).events = [] := by
  apply events_substitute_of_bound
  intro name member
  have listed := List.filter_eq_nil_iff.mp complete name (lists context name member)
  simpa using listed

end

/-- Rendering is determined by the values of the listed names exactly when every variable of every
expansion is listed. Then nothing is undefined unless it is reported missing, and it is so when
every literal finishes its own variables. -/
theorem render_determined_iff_listsReferenced (options : Options) (source : Text) :
    ((∀ first second : Context,
        (∀ name ∈ (parse options source).variableNames, first.get? name = second.get? name) →
          (parse options source).render first = (parse options source).render second) ↔
      (parse options source).ListsReferenced) ∧
    ((parse options source).ListsReferenced → ∀ context,
      (parse options source).missingVariables context = [] →
        (substitute ((parse options source).expand context) context).events = []) ∧
    ((∀ content ∈ (parse options source).tree.literals, content.FinishesSites) →
      (parse options source).ListsReferenced) := by
  refine ⟨⟨ListsReferenced.of_render_congr, ?_⟩, ?_, ListsReferenced.of_finishesSites⟩
  · intro lists first second agree
    exact lists.render_congr agree
  · intro lists context complete
    exact lists.events_eq_nil complete

/-- The template `{{{#if x}}{{/if}}{n}}`. Without its block, one brace joins another. -/
def joinedVariable : Document :=
  .literal ['{'] (.block .ifTrue [' ', 'x'] .empty (.literal ['{', 'n', '}', '}'] .empty))

theorem render_joinedVariable :
    (parse .lenient joinedVariable.print).variableNames = [['x']] ∧
      ∃ first second : Context,
        (∀ name ∈ (parse .lenient joinedVariable.print).variableNames,
          first.get? name = second.get? name) ∧
        (parse .lenient joinedVariable.print).render first ≠
          (parse .lenient joinedVariable.print).render second := by
  have tree : (parse .lenient joinedVariable.print).tree = joinedVariable.tree [] := by
    rw [Document.parse_eq_of_printable .lenient (by decide) (by decide)]
  have brace : referencedNames ['{'] = [] := by
    rw [referencedNames, Piece.split_of_char (by decide), Piece.split_nil]
    rfl
  have named : referencedNames ['{', 'n', '}', '}'] = [] := by
    rw [referencedNames, Piece.split_of_char (by decide), Piece.split_of_char (by decide),
      Piece.split_of_char (by decide), Piece.split_of_char (by decide), Piece.split_nil]
    rfl
  have names : (parse .lenient joinedVariable.print).variableNames = [['x']] := by
    have heads : (joinedVariable.tree []).names =
        referencedNames ['{'] ++ ([['x']] ++ [] ++ (referencedNames ['{', 'n', '}', '}'] ++ [])) :=
      rfl
    rw [variableNames, tree, heads, brace, named]
    simp [sortNames, dropRepeats]
  have rendered (value : Text) :
      (parse .lenient joinedVariable.print).render (.insert .empty ['n'] (.string value)) = value := by
    have expanded : (parse .lenient joinedVariable.print).expand
        (.insert .empty ['n'] (.string value)) = ['{', '{', 'n', '}', '}'] := by
      rw [expand_eq_flatten, tree]
      rfl
    have site : Site.read? ['{', '{', 'n', '}', '}'] = some (⟨[], ['n'], []⟩, []) := by decide
    rw [render_eq, expanded, substitute, Piece.split_of_site site, Piece.split_nil]
    simp [Output.concat, Piece.substitute, Context.get?_insert, Output.ofText, Value.text]
  refine ⟨names, .insert .empty ['n'] (.string []), .insert .empty ['n'] (.string ['A']), ?_, ?_⟩
  · rw [names]
    simp [Context.get?_insert]
  · rw [rendered, rendered]
    simp

end Template

end MailTemplate
