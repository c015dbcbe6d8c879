import MailTemplate.Proofs.Condition
import MailTemplate.Proofs.Text.Splitting

/-!
What the text of a condition says: the name of a variable, or a comparison whose sign stands once
in the text between two sides.
-/

namespace MailTemplate

open Text (Splits breakAt?)

def IsQuote (c : Char) : Prop :=
  c = '\x22' ∨ c = '\x27'

inductive Text.Unquotes : Text → Text → Prop
  | quoted {quote inside} (isQuote : IsQuote quote) : Unquotes (quote :: inside ++ [quote]) inside
  | bare {text} (plain : ∀ quote inside, IsQuote quote → text ≠ quote :: inside ++ [quote]) :
      Unquotes text text

theorem Text.Unquotes.eq {text first second : Text} (unquotes : text.Unquotes first)
    (again : text.Unquotes second) : first = second := by
  cases unquotes with
  | quoted isQuote =>
      generalize shape : _ :: _ ++ [_] = whole at again
      cases again with
      | quoted other => simp_all
      | bare plain => exact absurd shape.symm (plain _ _ isQuote)
  | bare plain =>
      cases again with
      | quoted other => exact absurd rfl (plain _ _ other)
      | bare _ => rfl

/-- No sign of a comparison occurs in the text: each of them holds one of these two. -/
def Text.SignFree (text : Text) : Prop :=
  ¬['=', '='] <:+: text ∧ ¬['!', '='] <:+: text

namespace Comparison

/-- The sign is the first of the four that occurs in the text. -/
def LeadsIn (text : Text) : Comparison → Prop
  | .strictEq => ['=', '=', '='] <:+: text
  | .strictNe => ['!', '=', '='] <:+: text ∧ ¬['=', '=', '='] <:+: text
  | .looseEq => ['=', '='] <:+: text ∧ ¬['=', '=', '='] <:+: text ∧ ¬['!', '=', '='] <:+: text
  | .looseNe =>
      ['!', '='] <:+: text ∧ ¬['=', '=', '='] <:+: text ∧ ¬['!', '=', '='] <:+: text ∧
        ¬['=', '='] <:+: text

def Divides (sign : Comparison) (text left right : Text) : Prop :=
  Splits sign.symbol text [left, right] ∧ left.trim ≠ [] ∧ right.trim ≠ []

theorem leadsIn_iff (sign : Comparison) (text : Text) :
    sign.LeadsIn text ↔ ∃ earlier later, all = earlier ++ sign :: later ∧
      sign.symbol <:+: text ∧ ∀ other ∈ earlier, ¬other.symbol <:+: text := by
  constructor
  · intro leads
    cases sign with
    | strictEq => exact ⟨[], _, rfl, leads, by simp⟩
    | strictNe =>
        obtain ⟨here, absent⟩ := leads
        exact ⟨[.strictEq], _, rfl, here, List.forall_mem_singleton.mpr absent⟩
    | looseEq =>
        obtain ⟨here, first, second⟩ := leads
        refine ⟨[.strictEq, .strictNe], _, rfl, here, ?_⟩
        exact List.forall_mem_cons.mpr ⟨first, List.forall_mem_singleton.mpr second⟩
    | looseNe =>
        obtain ⟨here, first, second, third⟩ := leads
        refine ⟨[.strictEq, .strictNe, .looseEq], _, rfl, here, List.forall_mem_cons.mpr ⟨first, ?_⟩⟩
        exact List.forall_mem_cons.mpr ⟨second, List.forall_mem_singleton.mpr third⟩
  · rintro ⟨earlier, later, order, here, absent⟩
    have distinct : sign ∉ earlier := by
      have once : all.Nodup := by decide
      rw [order, List.nodup_append] at once
      exact fun member => once.2.2 _ member _ List.mem_cons_self rfl
    have front : all.takeWhile (· ≠ sign) = earlier := by
      rw [order, List.takeWhile_append_of_pos, List.takeWhile_cons_of_neg (by simp),
        List.append_nil]
      intro other member
      exact decide_eq_true fun same => distinct (same ▸ member)
    rw [← front] at absent
    cases sign with
    | strictEq => exact here
    | strictNe => exact ⟨here, absent .strictEq (by decide)⟩
    | looseEq => exact ⟨here, absent .strictEq (by decide), absent .strictNe (by decide)⟩
    | looseNe =>
        exact ⟨here, absent .strictEq (by decide), absent .strictNe (by decide),
          absent .looseEq (by decide)⟩

theorem firstIn?_eq_some_iff (sign : Comparison) (text left right : Text) :
    firstIn? text = some (sign, left, right) ↔
      sign.LeadsIn text ∧ breakAt? sign.symbol text = some (left, right) := by
  rw [firstIn?, List.findSome?_eq_some_iff, leadsIn_iff]
  constructor
  · rintro ⟨earlier, other, later, order, found, absent⟩
    obtain ⟨sides, broken, same⟩ := Option.map_eq_some_iff.mp found
    cases same
    refine ⟨⟨earlier, later, order, ?_, ?_⟩, broken⟩
    · by_contra missing
      rw [(Text.breakAt?_eq_none_iff_not_infix _ _).mpr missing] at broken
      cases broken
    · intro other member
      exact (Text.breakAt?_eq_none_iff_not_infix _ _).mp
        (Option.map_eq_none_iff.mp (absent other member))
  · rintro ⟨⟨earlier, later, order, _, absent⟩, broken⟩
    refine ⟨earlier, sign, later, order, by rw [broken]; rfl, ?_⟩
    intro other member
    rw [(Text.breakAt?_eq_none_iff_not_infix _ _).mpr (absent other member)]
    rfl

theorem exists_part_of_symbol (sign : Comparison) :
    ['=', '='] <:+: sign.symbol ∨ ['!', '='] <:+: sign.symbol := by
  cases sign <;> decide

theorem not_infix_of_signFree {text : Text} (free : text.SignFree) (sign : Comparison) :
    ¬sign.symbol <:+: text := by
  intro inside
  rcases sign.exists_part_of_symbol with part | part
  · exact free.1 (part.trans inside)
  · exact free.2 (part.trans inside)

theorem firstIn?_eq_none_iff (text : Text) : firstIn? text = none ↔ text.SignFree := by
  rw [firstIn?, List.findSome?_eq_none_iff]
  constructor
  · intro absent
    have free (sign : Comparison) (member : sign ∈ all) : ¬sign.symbol <:+: text :=
      (Text.breakAt?_eq_none_iff_not_infix _ _).mp
        (Option.map_eq_none_iff.mp (absent sign member))
    exact ⟨free .looseEq (by decide), free .looseNe (by decide)⟩
  · intro free sign _
    rw [(Text.breakAt?_eq_none_iff_not_infix _ _).mpr (not_infix_of_signFree free sign)]
    rfl

theorem exists_leadsIn {text : Text} (signed : ¬text.SignFree) :
    ∃ sign : Comparison, sign.LeadsIn text := by
  cases first : firstIn? text with
  | none => exact absurd ((firstIn?_eq_none_iff text).mp first) signed
  | some found => exact ⟨found.1, ((firstIn?_eq_some_iff _ _ _ _).mp first).1⟩

end Comparison

namespace Condition

theorem insideQuotes?_eq_some_iff (quote : Char) (text inside : Text) :
    insideQuotes? quote text = some inside ↔ text = quote :: inside ++ [quote] := by
  cases text with
  | nil => simp [insideQuotes?]
  | cons first rest =>
      rcases List.eq_nil_or_concat' rest with rfl | ⟨middle, last, rfl⟩
      · simp [insideQuotes?]
      · simp only [insideQuotes?, List.reverse_append, List.reverse_cons, List.reverse_nil,
          List.nil_append, List.cons_append, List.reverse_reverse, Option.ite_none_right_eq_some,
          Option.some.injEq, List.cons.injEq, List.append_singleton_inj]
        tauto

theorem unquotes_unquote (text : Text) : text.Unquotes (unquote text) := by
  unfold unquote
  cases double : insideQuotes? '\x22' text with
  | some inside =>
      rw [(insideQuotes?_eq_some_iff _ _ _).mp double]
      exact .quoted (.inl rfl)
  | none =>
      cases single : insideQuotes? '\x27' text with
      | some inside =>
          rw [(insideQuotes?_eq_some_iff _ _ _).mp single]
          exact .quoted (.inr rfl)
      | none =>
          refine .bare ?_
          rintro quote inside (rfl | rfl) same
          · rw [(insideQuotes?_eq_some_iff _ _ _).mpr same] at double
            cases double
          · rw [(insideQuotes?_eq_some_iff _ _ _).mpr same] at single
            cases single

/-- What a text says as a condition, with one case for each outcome. -/
inductive Denotes (text : Text) : Except ConditionError Condition → Prop
  | empty (blank : text.trim = []) : Denotes text (.error .empty)
  | truthy (nonempty : text.trim ≠ []) (free : text.trim.SignFree) :
      Denotes text (.ok (.truthy text.trim))
  | compared {sign left right literal} (leads : sign.LeadsIn text.trim)
      (divides : sign.Divides text.trim left right) (unquotes : right.trim.Unquotes literal) :
      Denotes text (.ok (.compared sign left.trim literal))
  | malformed {sign} (leads : sign.LeadsIn text.trim)
      (undivided : ∀ left right, ¬sign.Divides text.trim left right) :
      Denotes text (.error (.malformedComparison sign))

variable {sign : Comparison} {text left right : Text}

theorem parse_of_blank (blank : text.trim = []) : parse text = .error .empty := by
  simp [parse, blank]

theorem parse_of_signFree (nonempty : text.trim ≠ []) (free : text.trim.SignFree) :
    parse text = .ok (.truthy text.trim) := by
  simp [parse, nonempty, (Comparison.firstIn?_eq_none_iff _).mpr free]

theorem parse_of_divides (leads : sign.LeadsIn text.trim)
    (divides : sign.Divides text.trim left right) :
    parse text = .ok (.compared sign left.trim (unquote right.trim)) := by
  obtain ⟨splits, leftSide, rightSide⟩ := divides
  obtain ⟨broken, absent⟩ := (Text.splits_pair_iff _ _ _ _).mp splits
  have first := (Comparison.firstIn?_eq_some_iff _ _ _ _).mpr ⟨leads, broken⟩
  have once := (Text.breakAt?_eq_none_iff_not_infix _ _).mpr absent
  have nonempty : text.trim ≠ [] := by
    rw [Text.eq_append_of_breakAt? broken]
    rintro empty
    simp only [List.append_eq_nil_iff] at empty
    exact leftSide (by rw [empty.1.1]; rfl)
  simp [parse, nonempty, first, once, leftSide, rightSide]

theorem parse_of_undivided (leads : sign.LeadsIn text.trim)
    (undivided : ∀ left right, ¬sign.Divides text.trim left right) :
    parse text = .error (.malformedComparison sign) := by
  have inside : sign.symbol <:+: text.trim := by
    obtain ⟨_, _, _, here, _⟩ := (Comparison.leadsIn_iff _ _).mp leads
    exact here
  cases broken : breakAt? sign.symbol text.trim with
  | none => exact absurd inside ((Text.breakAt?_eq_none_iff_not_infix _ _).mp broken)
  | some sides =>
      obtain ⟨left, right⟩ := sides
      have first := (Comparison.firstIn?_eq_some_iff _ _ _ _).mpr ⟨leads, broken⟩
      have nonempty : text.trim ≠ [] := by
        intro empty
        rw [empty] at first
        cases first
      have refused : (breakAt? sign.symbol right).isSome ∨ left.trim = [] ∨ right.trim = [] := by
        by_contra accepted
        simp only [not_or, Bool.not_eq_true, Option.isSome_eq_false_iff,
          Option.isNone_iff_eq_none] at accepted
        obtain ⟨once, leftSide, rightSide⟩ := accepted
        have absent := (Text.breakAt?_eq_none_iff_not_infix _ _).mp once
        exact undivided left right
          ⟨(Text.splits_pair_iff _ _ _ _).mpr ⟨broken, absent⟩, leftSide, rightSide⟩
      simp only [parse, nonempty, first, refused, if_true, if_false]

theorem parse_eq_iff_denotes (text : Text) (outcome : Except ConditionError Condition) :
    parse text = outcome ↔ Denotes text outcome := by
  constructor
  · rintro rfl
    by_cases blank : text.trim = []
    · rw [parse_of_blank blank]
      exact .empty blank
    by_cases free : text.trim.SignFree
    · rw [parse_of_signFree blank free]
      exact .truthy blank free
    obtain ⟨sign, leads⟩ := Comparison.exists_leadsIn free
    by_cases divided : ∃ left right, sign.Divides text.trim left right
    · obtain ⟨left, right, divides⟩ := divided
      rw [parse_of_divides leads divides]
      exact .compared leads divides (unquotes_unquote _)
    · simp only [not_exists] at divided
      rw [parse_of_undivided leads divided]
      exact .malformed leads divided
  · intro denotes
    cases denotes with
    | empty blank => exact parse_of_blank blank
    | truthy nonempty free => exact parse_of_signFree nonempty free
    | compared leads divides unquotes =>
        rw [parse_of_divides leads divides, (unquotes_unquote _).eq unquotes]
    | malformed leads undivided => exact parse_of_undivided leads undivided

end Condition

end MailTemplate
