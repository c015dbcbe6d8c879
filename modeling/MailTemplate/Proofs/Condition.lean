import Mathlib.Data.List.DropRight
import MailTemplate.Condition

/-!
White space around the text of a condition has no part in what the condition says.
-/

namespace MailTemplate

namespace Text

theorem trimStart_of_prefix {text part : Text} (start : part <+: trimStart text) :
    trimStart part = part := by
  cases part with
  | nil => rfl
  | cons c part =>
      obtain ⟨after, same⟩ := start
      have kept := List.head?_dropWhile_not isBlank text
      have first : List.dropWhile isBlank text = c :: (part ++ after) := same.symm
      rw [first] at kept
      exact List.dropWhile_cons_of_neg (by simpa using kept)

theorem trim_trim (text : Text) : text.trim.trim = text.trim := by
  have start : trimEnd (trimStart text) <+: trimStart text :=
    List.rdropWhile_prefix isBlank _
  rw [trim, trim, trimStart_of_prefix start]
  exact List.rdropWhile_idempotent isBlank (trimStart text)

theorem trim_eq_self_iff (text : Text) :
    text.trim = text ↔
      (∀ c ∈ text.head?, isBlank c = false) ∧ ∀ c ∈ text.getLast?, isBlank c = false := by
  constructor
  · intro kept
    have whole : trimStart text = text := by
      have shorter := (List.rdropWhile_prefix isBlank (trimStart text)).length_le
      have same : (List.rdropWhile isBlank (trimStart text)).length = text.length :=
        congrArg List.length kept
      exact (List.dropWhile_suffix isBlank).eq_of_length_le (by rw [← same]; exact shorter)
    have last : List.rdropWhile isBlank text = text := by
      rw [trim, whole] at kept
      exact kept
    constructor
    · intro c member
      have first := List.head?_dropWhile_not isBlank text
      rw [← trimStart, whole, Option.mem_def.mp member] at first
      exact first
    · intro c member
      obtain ⟨nonempty, rfl⟩ := List.mem_getLast?_eq_getLast member
      simpa using List.rdropWhile_eq_self_iff.mp last nonempty
  · rintro ⟨first, last⟩
    have whole : trimStart text = text := by
      cases text with
      | nil => rfl
      | cons c rest => exact List.dropWhile_cons_of_neg (by simp [first c rfl])
    rw [trim, whole]
    apply List.rdropWhile_eq_self_iff.mpr
    intro nonempty
    simp [last _ (List.getLast?_eq_some_getLast nonempty)]

theorem trim_padded {before text after : Text} (front : ∀ c ∈ before, isBlank c = true)
    (back : ∀ c ∈ after, isBlank c = true) (kept : text.trim = text) (nonempty : text ≠ []) :
    trim (before ++ text ++ after) = text := by
  obtain ⟨first, last⟩ := (trim_eq_self_iff text).mp kept
  have start : trimStart (before ++ text ++ after) = text ++ after := by
    rw [trimStart, List.append_assoc, List.dropWhile_append_of_pos front]
    cases text with
    | nil => exact absurd rfl nonempty
    | cons c rest => exact List.dropWhile_cons_of_neg (by simp [first c rfl])
  have stop : (text ++ after).reverse.dropWhile isBlank = text.reverse := by
    rw [List.reverse_append, List.dropWhile_append_of_pos (by simpa using back)]
    cases shape : text.reverse with
    | nil => rfl
    | cons c rest =>
        have final : text.getLast? = some c := by rw [← List.head?_reverse, shape]; rfl
        exact List.dropWhile_cons_of_neg (by simp [last c final])
  rw [trim, start, trimEnd, stop, List.reverse_reverse]

end Text

namespace Condition

theorem parse_trim (text : Text) : parse text.trim = parse text := by
  simp only [parse, Text.trim_trim]

theorem textHolds_trim (text : Text) (context : Context) :
    textHolds text.trim context = textHolds text context := by
  rw [textHolds, textHolds, parse_trim]

end Condition

end MailTemplate
