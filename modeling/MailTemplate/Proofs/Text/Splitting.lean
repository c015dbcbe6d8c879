import Mathlib.Data.List.Infix
import MailTemplate.Text

/-!
The parts of a text between the occurrences of a sign. Occurrences are taken from the left, each of
them after the end of the one before it. Also the front part of a text whose characters are of one
kind.
-/

namespace MailTemplate

namespace Text

inductive Splits (sign : Text) : Text → List Text → Prop
  | last {text} (absent : ¬sign <:+: text) : Splits sign text [text]
  | next {text before after parts} (split : text = before ++ sign ++ after)
      (first : ∀ other rest, text = other ++ sign ++ rest → before.length ≤ other.length)
      (later : Splits sign after parts) : Splits sign text (before :: parts)

theorem span_append {p : Char → Bool} {first : Text} (second : Text)
    (all : first.all p = true) (ends : ∀ c ∈ second.head?, p c = false) :
    (first ++ second).takeWhile p = first ∧ (first ++ second).dropWhile p = second := by
  rw [List.all_eq_true] at all
  rw [List.takeWhile_append_of_pos all, List.dropWhile_append_of_pos all]
  cases second with
  | nil => simp
  | cons c second => simp [ends c rfl]

variable {sign text before after : Text}

theorem breakAt?_eq_none_iff_not_infix (sign text : Text) :
    breakAt? sign text = none ↔ ¬sign <:+: text := by
  rw [breakAt?_eq_none_iff]
  constructor
  · rintro absent ⟨before, after, same⟩
    exact absent before after same.symm
  · intro absent before after same
    exact absent ⟨before, after, same.symm⟩

theorem breakAt?_eq_some_iff (sign text before after : Text) :
    breakAt? sign text = some (before, after) ↔
      text = before ++ sign ++ after ∧
        ∀ other rest, text = other ++ sign ++ rest → before.length ≤ other.length := by
  constructor
  · intro found
    exact ⟨eq_append_of_breakAt? found, breakAt?_length_le found⟩
  · rintro ⟨split, first⟩
    cases found : breakAt? sign text with
    | none => exact absurd split ((breakAt?_eq_none_iff _ _).mp found _ _)
    | some sides =>
        obtain ⟨left, right⟩ := sides
        have again := eq_append_of_breakAt? found
        have notLater := breakAt?_length_le found _ _ split
        have notEarlier := first _ _ again
        rw [split, List.append_assoc, List.append_assoc] at again
        obtain ⟨rfl, rest⟩ := List.append_inj again (by omega)
        rw [List.append_cancel_left rest]

theorem splits_pair_iff (sign text left right : Text) :
    Splits sign text [left, right] ↔
      breakAt? sign text = some (left, right) ∧ ¬sign <:+: right := by
  rw [breakAt?_eq_some_iff]
  constructor
  · intro splits
    cases splits with
    | next split first later =>
        cases later with
        | last absent => exact ⟨⟨split, first⟩, absent⟩
        | next _ _ none => cases none
  · rintro ⟨⟨split, first⟩, absent⟩
    exact .next split first (.last absent)

/-- No text reaches over the border of two others if a character there does not occur in it. -/
theorem infix_of_border {part first second : Text}
    (border : (∀ c ∈ first.getLast?, c ∉ part) ∨ ∀ c ∈ second.head?, c ∉ part)
    (inside : part <:+: first ++ second) : part <:+: first ∨ part <:+: second := by
  rcases List.infix_append_iff_ne_nil.mp inside with early | late | across
  · exact .inl early
  · exact .inr late
  · obtain ⟨front, back, started, ended, rfl, last, start⟩ := across
    exfalso
    rcases border with free | free
    · have same := last.getLast started
      refine free (front.getLast started) ?_ (by simp)
      rw [same]
      exact List.getLast?_eq_some_getLast _
    · have same := start.head ended
      refine free (back.head ended) ?_ (by simp)
      rw [same]
      exact List.head?_eq_some_head _

theorem breakAt?_of_border (border : ∀ c ∈ before.getLast?, c ∉ sign)
    (absent : ¬sign <:+: before) (after : Text) :
    breakAt? sign (before ++ sign ++ after) = some (before, after) := by
  rw [breakAt?_eq_some_iff]
  refine ⟨rfl, ?_⟩
  intro other rest split
  by_contra longer
  have early : other <+: before ++ sign ++ after := ⟨sign ++ rest, by rw [split, List.append_assoc]⟩
  have late : before <+: before ++ sign ++ after := ⟨sign ++ after, by rw [List.append_assoc]⟩
  obtain ⟨tail, rfl⟩ := List.prefix_of_prefix_length_le early late (by omega)
  have nonempty : tail ≠ [] := by
    rintro rfl
    simp at longer
  simp only [List.append_assoc, List.append_cancel_left_eq] at split
  rcases List.prefix_or_prefix_of_prefix ⟨rest, split.symm⟩ ⟨sign ++ after, rfl⟩ with whole | part
  · exact absent (whole.isInfix.trans (List.suffix_append _ _).isInfix)
  · refine border (tail.getLast nonempty) ?_ (part.subset (List.getLast_mem nonempty))
    rw [List.getLast?_append_of_ne_nil _ nonempty]
    exact List.getLast?_eq_some_getLast _

end Text

end MailTemplate
