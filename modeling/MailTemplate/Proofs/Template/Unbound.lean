import MailTemplate.Proofs.Substitution.Sites
import MailTemplate.Proofs.Template.Document
import MailTemplate.Proofs.Template.Selection

/-!
Unbound variables and variables bound to null. Rendering looks at a context through its values with
null for what is missing, so it cannot tell the two apart.
-/

namespace MailTemplate

namespace Context

def LooksLike (first second : Context) : Prop :=
  ∀ name, first.lookup name = second.lookup name

theorem get?_erase (context : Context) (name other : Text) :
    (context.erase name).get? other = if name = other then none else context.get? other := by
  unfold get? erase
  simp only
  induction context.entries with
  | nil => simp
  | cons entry entries ih =>
      rw [List.filter_cons]
      by_cases dropped : entry.1 = name
      · rw [if_neg (by simpa using dropped), ih, Entries.get?_cons]
        by_cases same : name = other
        · rw [if_pos same, if_pos same]
        · have different : entry.1 ≠ other := dropped ▸ same
          rw [if_neg same, if_neg same, if_neg different]
      · rw [if_pos (by simpa using dropped), Entries.get?_cons, Entries.get?_cons, ih]
        by_cases found : entry.1 = other
        · have different : name ≠ other := fun same => dropped (found.trans same.symm)
          rw [if_pos found, if_pos found, if_neg different]
        · rw [if_neg found, if_neg found]

def setNull (context : Context) (names : List Text) : Context :=
  names.foldl (fun bound name => bound.insert name .null) context

def without (context : Context) (names : List Text) : Context :=
  names.foldl erase context

section

variable {context : Context} {name : Text}

theorem lookup_of_unbound (unbound : context.get? name = none) : context.lookup name = .null := by
  rw [lookup, unbound]
  rfl

theorem lookup_of_bound {value : Value} (bound : context.get? name = some value) :
    context.lookup name = value := by
  rw [lookup, bound]
  rfl

theorem looksLike_insert_null (null : context.lookup name = .null) :
    (context.insert name .null).LooksLike context := by
  intro other
  by_cases same : name = other
  · rw [← same, null, lookup, get?_insert, if_pos rfl]
    rfl
  · rw [lookup, lookup, get?_insert, if_neg same]

theorem looksLike_erase (null : context.lookup name = .null) :
    (context.erase name).LooksLike context := by
  intro other
  by_cases same : name = other
  · rw [← same, null, lookup, get?_erase, if_pos rfl]
    rfl
  · rw [lookup, lookup, get?_erase, if_neg same]

theorem looksLike_foldl {change : Context → Text → Context}
    (hidden : ∀ {context : Context} {name : Text}, context.lookup name = .null →
      (change context name).LooksLike context)
    {names : List Text} (null : ∀ name ∈ names, context.lookup name = .null) :
    (names.foldl change context).LooksLike context := by
  induction names generalizing context with
  | nil => exact fun _ => rfl
  | cons first names ih =>
      rw [List.forall_mem_cons] at null
      have step := hidden null.1
      have rest : ∀ name ∈ names, (change context first).lookup name = .null := by
        intro name member
        rw [step name, null.2 name member]
      intro other
      rw [List.foldl_cons, ih rest other, step other]

theorem looksLike_setNull {names : List Text} (unbound : ∀ name ∈ names, context.get? name = none) :
    (context.setNull names).LooksLike context :=
  looksLike_foldl looksLike_insert_null fun name member => lookup_of_unbound (unbound name member)

theorem looksLike_without {names : List Text}
    (bound : ∀ name ∈ names, context.get? name = some .null) :
    (context.without names).LooksLike context :=
  looksLike_foldl looksLike_erase fun name member => lookup_of_bound (bound name member)

end

end Context

theorem Site.shown_eq (context : Context) (site : Site) :
    site.shown context = (context.lookup site.name).text := by
  rw [shown, Context.lookup]
  cases context.get? site.name with
  | none => rfl
  | some value => cases value <;> rfl

namespace Context.LooksLike

variable {first second : Context}

theorem text_substitute_eq (alike : first.LooksLike second) (text : Text) :
    (substitute text first).text = (substitute text second).text := by
  rw [MailTemplate.text_substitute_eq, MailTemplate.text_substitute_eq]
  apply List.flatMap_congr
  intro piece _
  cases piece with
  | copied c => rfl
  | reference site =>
      rw [Piece.shown, Piece.shown, Site.shown_eq, Site.shown_eq, alike site.name]

theorem expand_eq (alike : first.LooksLike second) (template : Template) :
    template.expand first = template.expand second := by
  rw [Template.expand_eq_flatten, Template.expand_eq_flatten,
    Tree.selected_congr fun name _ => alike name]

theorem render_eq (alike : first.LooksLike second) (template : Template) :
    template.render first = template.render second := by
  have expanded := alike.expand_eq template
  have substituted := alike.text_substitute_eq (template.expand second)
  calc template.render first
      = (substitute (template.expand first) first).text := rfl
    _ = (substitute (template.expand second) first).text := by rw [expanded]
    _ = (substitute (template.expand second) second).text := substituted
    _ = template.render second := rfl

end Context.LooksLike

namespace Template

/-- Expanding and rendering depend on a context through its values with null for what is unbound.
So names may be set to null that were unbound, and those that are null may be removed. -/
theorem renders_unbound_as_null (options : Options) (source : Text) :
    (∀ first second : Context, first.LooksLike second →
      (parse options source).expand first = (parse options source).expand second ∧
        (parse options source).render first = (parse options source).render second) ∧
    (∀ (context : Context) (names : List Text), (∀ name ∈ names, context.get? name = none) →
      (parse options source).expand (context.setNull names) =
          (parse options source).expand context ∧
        (parse options source).render (context.setNull names) =
          (parse options source).render context) ∧
    ∀ (context : Context) (names : List Text), (∀ name ∈ names, context.get? name = some .null) →
      (parse options source).expand (context.without names) =
          (parse options source).expand context ∧
        (parse options source).render (context.without names) =
          (parse options source).render context := by
  refine ⟨?_, ?_, ?_⟩
  · intro first second alike
    exact ⟨alike.expand_eq _, alike.render_eq _⟩
  · intro context names unbound
    have alike := Context.looksLike_setNull unbound
    exact ⟨alike.expand_eq _, alike.render_eq _⟩
  · intro context names bound
    have alike := Context.looksLike_without bound
    exact ⟨alike.expand_eq _, alike.render_eq _⟩

/-- The template `{{#if a != b}}{{a}}{{c}}{{/if}}`. -/
def comparedName : Document :=
  .block .ifTrue [' ', 'a', ' ', '!', '=', ' ', 'b']
    (.literal ['{', '{', 'a', '}', '}', '{', '{', 'c', '}', '}'] .empty) .empty

theorem renders_unbound_as_null_comparedName :
    (∀ name ∈ [['a'], ['b']], (Context.empty.insert ['c'] (.bool true)).get? name = none) ∧
      (parse .lenient comparedName.print).expand
          ((Context.empty.insert ['c'] (.bool true)).setNull [['a'], ['b']]) =
        (parse .lenient comparedName.print).expand (Context.empty.insert ['c'] (.bool true)) ∧
      (parse .lenient comparedName.print).render
          ((Context.empty.insert ['c'] (.bool true)).setNull [['a'], ['b']]) =
        (parse .lenient comparedName.print).render (Context.empty.insert ['c'] (.bool true)) := by
  have unbound : ∀ name ∈ [['a'], ['b']],
      (Context.empty.insert ['c'] (.bool true)).get? name = none := by decide
  exact ⟨unbound, (renders_unbound_as_null .lenient comparedName.print).2.1 _ _ unbound⟩

end Template

end MailTemplate
