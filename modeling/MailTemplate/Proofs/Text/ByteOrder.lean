import Mathlib.Data.List.Lex
import MailTemplate.Entries

/-!
The order of texts by their bytes in UTF-8. It is the order by their characters: of two characters
the greater one has the greater byte where their bytes first differ.
-/

namespace MailTemplate

def DiffersBelow : List UInt8 → List UInt8 → Prop
  | first :: firsts, second :: seconds =>
      first < second ∨ first = second ∧ DiffersBelow firsts seconds
  | _, _ => False

theorem DiffersBelow.append_lt {first second : List UInt8} (below : DiffersBelow first second)
    (more others : List UInt8) : first ++ more < second ++ others := by
  induction first generalizing second with
  | nil => exact below.elim
  | cons byte bytes ih =>
      cases second with
      | nil => exact below.elim
      | cons other rest =>
          rw [List.cons_append, List.cons_append, List.cons_lt_cons_iff]
          rcases below with less | ⟨same, later⟩
          · exact .inl less
          · exact .inr ⟨same, ih later⟩

/-- A character with fewer bytes has the lower first byte, and one with as many bytes has the lower
digits in base 64. -/
theorem differsBelow_utf8EncodeChar {c d : Char} (less : c < d) :
    DiffersBelow (String.utf8EncodeChar c) (String.utf8EncodeChar d) := by
  have valid := d.valid
  have second (code : Nat) : code / 4096 = code / 64 / 64 :=
    (Nat.div_div_eq_div_mul code 64 64).symm
  have third (code : Nat) : code / 262144 = code / 64 / 64 / 64 := by
    rw [← second, Nat.div_div_eq_div_mul]
  rw [Char.lt_def, UInt32.lt_iff_toNat_lt] at less
  simp only [String.utf8EncodeChar, second, third]
  split_ifs <;>
    simp only [DiffersBelow, UInt8.lt_iff_toNat_lt, ← UInt8.toNat_inj, UInt8.toNat_ofNat'] <;>
    omega

namespace Text

def bytes (text : Text) : List UInt8 :=
  text.flatMap String.utf8EncodeChar

theorem bytes_lt_of_lt {first second : Text} (less : first < second) :
    first.bytes < second.bytes := by
  induction first generalizing second with
  | nil =>
      cases second with
      | nil => exact absurd less (List.lt_irrefl [])
      | cons d second =>
          have some : String.utf8EncodeChar d ≠ [] := String.utf8EncodeChar_ne_nil
          obtain ⟨byte, rest, encoded⟩ := List.exists_cons_of_ne_nil some
          rw [bytes, bytes, List.flatMap_nil, List.flatMap_cons, encoded]
          exact List.nil_lt_cons _ _
  | cons c first ih =>
      cases second with
      | nil => exact absurd less (List.not_lt_nil _)
      | cons d second =>
          rw [bytes, bytes, List.flatMap_cons, List.flatMap_cons]
          rcases List.cons_lt_cons_iff.mp less with lower | ⟨rfl, later⟩
          · exact (differsBelow_utf8EncodeChar lower).append_lt _ _
          · exact List.Lex.append_left (· < ·) (ih later) _

theorem bytes_lt_iff (first second : Text) : first.bytes < second.bytes ↔ first < second := by
  constructor
  · intro less
    by_cases same : first = second
    · exact absurd (same ▸ less) (List.lt_irrefl _)
    · by_cases greater : second < first
      · exact absurd (bytes_lt_of_lt greater) (List.lt_asymm less)
      · exact Entries.lt_of_not_lt greater (Ne.symm same)
  · exact bytes_lt_of_lt

end Text

end MailTemplate
