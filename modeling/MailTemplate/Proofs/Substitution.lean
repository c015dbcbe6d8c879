import Mathlib.Algebra.Order.BigOperators.Group.List
import Mathlib.Algebra.Order.Group.Nat
import MailTemplate.Proofs.Text.Splitting
import MailTemplate.Substitution

/-!
What substitution reads. The sites of a text are found in any part of it that no site crosses, and
the result depends on nothing but the values of their names.
-/

namespace MailTemplate

theorem not_isSitePadding_of_isNameStart {c : Char} (start : isNameStart c = true) :
    isSitePadding c = false := by
  by_contra padding
  rw [Bool.not_eq_false] at padding
  simp only [isSitePadding, Bool.or_eq_true, decide_eq_true_eq] at padding
  rcases padding with ((rfl | rfl) | rfl) | rfl <;> revert start <;> decide

theorem not_isNameChar_of_isSitePadding {c : Char} (padding : isSitePadding c = true) :
    isNameChar c = false := by
  simp only [isSitePadding, Bool.or_eq_true, decide_eq_true_eq] at padding
  rcases padding with ((rfl | rfl) | rfl) | rfl <;> decide

def Text.IsPadding (text : Text) : Prop :=
  ∀ c ∈ text, c = ' ' ∨ c = '\t' ∨ c = '\r' ∨ c = '\n'

theorem Text.isPadding_iff {text : Text} : text.IsPadding ↔ text.all isSitePadding = true := by
  simp [IsPadding, isSitePadding, or_assoc]

namespace Site

structure IsValid (site : Site) : Prop where
  before : site.before.IsPadding
  name : ∃ first rest, site.name = first :: rest ∧ (first.isAlpha ∨ first = '_') ∧
    ∀ c ∈ rest, c.isAlphanum ∨ c = '_'
  notReserved : site.name ≠ ['e', 'l', 's', 'e']
  after : site.after.IsPadding

theorem isName_iff {name : Text} :
    isName name = true ↔
      (∃ first rest, name = first :: rest ∧ (first.isAlpha ∨ first = '_') ∧
        ∀ c ∈ rest, c.isAlphanum ∨ c = '_') ∧ name ≠ ['e', 'l', 's', 'e'] := by
  cases name with
  | nil => simp [isName]
  | cons first rest =>
      have starts : isNameStart first = true ↔ first.isAlpha ∨ first = '_' := by
        simp [isNameStart]
      have chars (c : Char) : isNameChar c = true ↔ c.isAlphanum ∨ c = '_' := by
        simp [isNameChar]
      have char : first.isAlpha ∨ first = '_' → first.isAlphanum ∨ first = '_' :=
        Or.imp_left fun letter => by simp [Char.isAlphanum, letter]
      simp only [isName, List.head?_cons, Option.any_some, List.all_cons, Bool.and_eq_true,
        List.all_eq_true, starts, chars]
      constructor
      · rintro ⟨⟨start, _, later⟩, other⟩
        exact ⟨⟨first, rest, rfl, start, later⟩, of_decide_eq_true other⟩
      · rintro ⟨⟨_, _, ⟨⟩, start, later⟩, other⟩
        exact ⟨⟨start, char start, later⟩, decide_eq_true other⟩

theorem isValid_iff {site : Site} :
    site.IsValid ↔ site.before.all isSitePadding = true ∧ isName site.name = true ∧
      site.after.all isSitePadding = true := by
  rw [isName_iff, ← Text.isPadding_iff, ← Text.isPadding_iff]
  constructor
  · rintro ⟨before, name, notReserved, after⟩
    exact ⟨before, ⟨name, notReserved⟩, after⟩
  · rintro ⟨before, ⟨name, notReserved⟩, after⟩
    exact ⟨before, name, notReserved, after⟩

theorem read?_source {site : Site} (padded : site.before.all isSitePadding = true)
    (start : site.name.head?.any isNameStart = true) (named : site.name.all isNameChar = true)
    (ended : site.after.all isSitePadding = true) (rest : Text) :
    read? (site.source ++ rest) = if isName site.name then some (site, rest) else none := by
  obtain ⟨before, name, after⟩ := site
  dsimp only at padded start named ended
  cases name with
  | nil => cases start
  | cons c name =>
      have front := Text.span_append (c :: name ++ (after ++ (tagEnd ++ rest))) padded <| by
        rintro _ ⟨⟩
        exact not_isSitePadding_of_isNameStart start
      have middle := Text.span_append (after ++ (tagEnd ++ rest)) named <| by
        intro d member
        cases after with
        | nil =>
            cases member
            decide
        | cons e after =>
            cases member
            rw [List.all_cons, Bool.and_eq_true] at ended
            exact not_isNameChar_of_isSitePadding ended.1
      have back := Text.span_append (tagEnd ++ rest) ended <| by
        rintro _ ⟨⟩
        decide
      have inside : Text.after? siteStart (source ⟨before, c :: name, after⟩ ++ rest) =
          some (before ++ (c :: name ++ (after ++ (tagEnd ++ rest)))) :=
        (Text.after?_eq_some_iff _ _ _).mpr (by simp [source])
      have ends : Text.after? tagEnd (tagEnd ++ rest) = some rest :=
        (Text.after?_eq_some_iff _ _ _).mpr rfl
      simp only [read?, inside, Option.bind_eq_bind, Option.bind_some, front.1, front.2,
        middle.1, middle.2, back.1, back.2, ends]

theorem read?_eq_some_iff (text : Text) (site : Site) (rest : Text) :
    read? text = some (site, rest) ↔ site.IsValid ∧ text = site.source ++ rest := by
  constructor
  · intro found
    refine ⟨?_, source_of_read? found⟩
    simp only [read?, Option.bind_eq_bind, Option.bind_eq_some_iff] at found
    obtain ⟨inside, _, after, _, accepted⟩ := found
    split at accepted
    · rename_i named
      cases accepted
      exact isValid_iff.mpr ⟨List.all_takeWhile, named, List.all_takeWhile⟩
    · cases accepted
  · rintro ⟨valid, rfl⟩
    obtain ⟨before, named, after⟩ := isValid_iff.mp valid
    have name := named
    simp only [isName, Bool.and_eq_true] at name
    rw [read?_source before name.1.1 name.1.2 after, if_pos named]

end Site

namespace Text

def BeginsSite (part : Text) : Prop :=
  part ≠ [] ∧ ∃ site more, Site.IsValid site ∧ more ≠ [] ∧ site.source = part ++ more

/-- No site that starts in the text can end after it. -/
def FinishesSites (text : Text) : Prop :=
  ∀ part : Text, part <:+ text → ¬part.BeginsSite

theorem FinishesSites.of_suffix {part text : Text} (finishes : FinishesSites text)
    (ends : part <:+ text) : FinishesSites part := by
  intro inner last
  exact finishes inner (last.trans ends)

end Text

namespace Site

theorem read?_append {text rest : Text} {site : Site} (found : read? text = some (site, rest))
    (more : Text) : read? (text ++ more) = some (site, rest ++ more) := by
  obtain ⟨valid, split⟩ := (read?_eq_some_iff _ _ _).mp found
  exact (read?_eq_some_iff _ _ _).mpr ⟨valid, by rw [split, List.append_assoc]⟩

theorem read?_append_eq_none {text : Text} (nonempty : text ≠ []) (missing : read? text = none)
    (finishes : text.FinishesSites) (more : Text) : read? (text ++ more) = none := by
  cases found : read? (text ++ more) with
  | none => rfl
  | some result =>
      obtain ⟨valid, split⟩ := (read?_eq_some_iff _ result.1 result.2).mp found
      rcases List.append_eq_append_iff.mp split with ⟨last, crossing, _⟩ | ⟨last, inside, _⟩
      · by_cases none : last = []
        · rw [none, List.append_nil] at crossing
          have here : read? text = some (result.1, []) :=
            (read?_eq_some_iff _ _ _).mpr ⟨valid, by rw [crossing, List.append_nil]⟩
          rw [here] at missing
          cases missing
        · exact absurd ⟨nonempty, result.1, last, valid, none, crossing⟩
            (finishes text List.suffix_rfl)
      · rw [(read?_eq_some_iff _ _ _).mpr ⟨valid, inside⟩] at missing
        cases missing

end Site

theorem Piece.split_append {text : Text} (finishes : text.FinishesSites) (more : Text) :
    split (text ++ more) = split text ++ split more := by
  induction size : text.length using Nat.strongRecOn generalizing text with
  | ind count ih =>
      cases found : Site.read? text with
      | some result =>
          have shorter : result.2.length < count := size ▸ Site.length_lt_of_read? found
          have ends : result.2 <:+ text := ⟨_, (Site.source_of_read? found).symm⟩
          rw [split_of_site found, split_of_site (Site.read?_append found more),
            ih _ shorter (finishes.of_suffix ends) rfl, List.cons_append]
      | none =>
          cases text with
          | nil => simp
          | cons c rest =>
              have missing := Site.read?_append_eq_none (by simp) found finishes more
              have shorter : rest.length < count := by simp [← size]
              rw [List.cons_append] at missing ⊢
              rw [split_of_char found, split_of_char missing,
                ih _ shorter (finishes.of_suffix (List.suffix_cons c rest)) rfl, List.cons_append]

theorem mem_referencedNames_iff (text name : Text) :
    name ∈ referencedNames text ↔ ∃ site, .reference site ∈ Piece.split text ∧ site.name = name := by
  unfold referencedNames
  rw [List.mem_filterMap]
  constructor
  · rintro ⟨piece, member, named⟩
    cases piece with
    | copied c => cases named
    | reference site => exact ⟨site, member, Option.some.inj named⟩
  · rintro ⟨site, member, rfl⟩
    exact ⟨_, member, rfl⟩

theorem referencedNames_flatten {pieces : List Text}
    (finish : ∀ piece ∈ pieces, piece.FinishesSites) :
    referencedNames pieces.flatten = pieces.flatMap referencedNames := by
  induction pieces with
  | nil => simp [referencedNames]
  | cons piece pieces ih =>
      rw [List.forall_mem_cons] at finish
      rw [List.flatten_cons, List.flatMap_cons, ← ih finish.2]
      unfold referencedNames
      rw [Piece.split_append finish.1, List.filterMap_append]

theorem substitute_congr {text : Text} {first second : Context}
    (agree : ∀ name ∈ referencedNames text, first.get? name = second.get? name) :
    substitute text first = substitute text second := by
  have same : (Piece.split text).map (Piece.substitute first) =
      (Piece.split text).map (Piece.substitute second) := by
    apply List.map_congr_left
    intro piece member
    cases piece with
    | copied c => rfl
    | reference site =>
        have value := agree site.name ((mem_referencedNames_iff _ _).mpr ⟨site, member, rfl⟩)
        rw [Piece.substitute, Piece.substitute, value]
  rw [substitute, substitute, same]

theorem events_substitute_of_bound {text : Text} {context : Context}
    (bound : ∀ name ∈ referencedNames text, context.contains name = true) :
    (substitute text context).events = [] := by
  rw [substitute, Output.concat, List.flatMap_eq_nil_iff]
  intro output member
  obtain ⟨piece, inside, rfl⟩ := List.mem_map.mp member
  cases piece with
  | copied c => rfl
  | reference site =>
      have value := bound site.name ((mem_referencedNames_iff _ _).mpr ⟨site, inside, rfl⟩)
      obtain ⟨value, found⟩ := Option.isSome_iff_exists.mp value
      rw [Piece.substitute, found]
      rfl

theorem length_substitute_lt {text name : Text} (member : name ∈ referencedNames text)
    (context : Context) :
    (substitute text (context.insert name (.string []))).text.length <
      (substitute text (context.insert name (.string [' ']))).text.length := by
  obtain ⟨site, inside, rfl⟩ := (mem_referencedNames_iff _ _).mp member
  rw [substitute, substitute, Output.concat, Output.concat, List.length_flatMap,
    List.length_flatMap, List.map_map, List.map_map]
  apply List.sum_lt_sum
  · intro piece _
    cases piece with
    | copied c => exact Nat.le_refl _
    | reference other =>
        simp only [Function.comp_apply, Piece.substitute, Context.get?_insert]
        by_cases same : site.name = other.name
        · simp [same, Output.ofText, Value.text]
        · simp [same]
  · refine ⟨_, inside, ?_⟩
    simp [Piece.substitute, Context.get?_insert, Output.ofText, Value.text]

end MailTemplate
