import Mathlib.Data.List.Infix
import MailTemplate.Proofs.Markup.Lexed

/-!
Tags that come about where texts are put together. No part holds such a tag: its literal starts in
one part and ends in a later one.
-/

namespace MailTemplate

namespace Text

/-- A tag literal starts in the first text and ends in the second. -/
def StraddlesTag (first second : Text) : Prop :=
  ∃ literal ∈ tagLiterals, ∃ front back : Text, front ≠ [] ∧ back ≠ [] ∧ literal = front ++ back ∧
    front <:+ first ∧ back <+: second

def JoinsTag (pieces : List Text) : Prop :=
  ∃ before after, pieces = before ++ after ∧ StraddlesTag before.flatten after.flatten

def BeginsTag (part : Text) : Prop :=
  part ≠ [] ∧ ∃ literal ∈ tagLiterals, part <+: literal ∧ part ≠ literal

def FinishesTags (text : Text) : Prop :=
  ∀ part ∈ text.tails, ¬BeginsTag part

instance (part : Text) : Decidable part.BeginsTag :=
  inferInstanceAs (Decidable (part ≠ [] ∧ ∃ literal ∈ tagLiterals, part <+: literal ∧ part ≠ literal))

instance (text : Text) : Decidable text.FinishesTags :=
  inferInstanceAs (Decidable (∀ part ∈ text.tails, ¬BeginsTag part))

theorem plain_append_iff (first second : Text) :
    Plain (first ++ second) ↔ Plain first ∧ Plain second ∧ ¬StraddlesTag first second := by
  constructor
  · intro plain
    refine ⟨plain.of_part (List.prefix_append _ _).isInfix,
      plain.of_part (List.suffix_append _ _).isInfix, ?_⟩
    rintro ⟨literal, member, front, back, started, ended, same, last, start⟩
    exact plain literal member
      (List.infix_append_iff_ne_nil.mpr (.inr (.inr ⟨front, back, started, ended, same, last, start⟩)))
  · rintro ⟨left, right, apart⟩ literal member inside
    rcases List.infix_append_iff_ne_nil.mp inside with early | late | across
    · exact left literal member early
    · exact right literal member late
    · exact apart ⟨literal, member, across⟩

theorem JoinsTag.cons {pieces : List Text} (joins : JoinsTag pieces) (piece : Text) :
    JoinsTag (piece :: pieces) := by
  obtain ⟨before, after, rfl, literal, member, front, back, started, ended, same, last, start⟩ := joins
  refine ⟨piece :: before, after, rfl, literal, member, front, back, started, ended, same, ?_, start⟩
  exact last.trans (List.suffix_append _ _)

/-- Pieces without tags give a text without tags as long as none comes about at a seam. -/
theorem plain_flatten_iff {pieces : List Text} (plain : ∀ piece ∈ pieces, Plain piece) :
    Plain pieces.flatten ↔ ¬JoinsTag pieces := by
  constructor
  · rintro whole ⟨before, after, rfl, straddles⟩
    rw [List.flatten_append] at whole
    exact ((plain_append_iff _ _).mp whole).2.2 straddles
  · intro apart
    induction pieces with
    | nil => exact Token.plain_nil
    | cons piece pieces ih =>
        rw [List.forall_mem_cons] at plain
        rw [List.flatten_cons, plain_append_iff]
        refine ⟨plain.1, ih plain.2 fun joins => apart (joins.cons piece), ?_⟩
        intro straddles
        exact apart ⟨[piece], pieces, rfl, by simpa using straddles⟩

theorem exists_suffix_of_suffix_flatten {last : Text} {pieces : List Text} (nonempty : last ≠ [])
    (ends : last <:+ pieces.flatten) :
    ∃ piece ∈ pieces, ∃ part : Text, part ≠ [] ∧ part <:+ piece ∧ part <+: last := by
  induction pieces with
  | nil => exact absurd (List.suffix_nil.mp ends) nonempty
  | cons piece pieces ih =>
      have later (inside : last <:+ pieces.flatten) :
          ∃ other ∈ piece :: pieces, ∃ part : Text, part ≠ [] ∧ part <:+ other ∧ part <+: last := by
        obtain ⟨other, member, found⟩ := ih inside
        exact ⟨other, List.mem_cons_of_mem _ member, found⟩
      rw [List.flatten_cons] at ends
      rcases List.suffix_or_suffix_of_suffix ends (List.suffix_append piece pieces.flatten) with
        inside | ⟨part, rfl⟩
      · exact later inside
      · by_cases none : part = []
        · exact later (by rw [none]; exact List.suffix_refl _)
        · obtain ⟨front, same⟩ := ends
          rw [← List.append_assoc, List.append_cancel_right_eq] at same
          exact ⟨piece, List.mem_cons_self, part, none, ⟨front, same⟩, List.prefix_append _ _⟩

theorem not_joinsTag_of_finishesTags {pieces : List Text}
    (finish : ∀ piece ∈ pieces, piece.FinishesTags) : ¬JoinsTag pieces := by
  rintro ⟨before, after, rfl, literal, member, front, back, started, ended, rfl, last, _⟩
  obtain ⟨piece, inside, part, nonempty, ends, starts⟩ :=
    exists_suffix_of_suffix_flatten started last
  have finished := finish piece (List.mem_append_left _ inside) part ((List.mem_tails _ _).mpr ends)
  refine finished ⟨nonempty, _, member, starts.trans (List.prefix_append _ _), ?_⟩
  rintro rfl
  have bound := starts.length_le
  rw [List.length_append] at bound
  exact ended (List.length_eq_zero_iff.mp (by omega))

end Text

namespace Token

theorem tokenize_of_plain {text : Text} (plain : text.Plain) (nonempty : text ≠ []) :
    tokenize text = [.text text] := by
  have alone : tokenize (text ++ sources []) = [.text text] :=
    tokenize_plain_append plain nonempty (by simp) tokenize_nil
  rwa [sources_nil, List.append_nil] at alone

theorem Lexed.plain_of_flat {tokens : List Token} (lexed : Lexed tokens)
    (flat : ∀ token ∈ tokens, ¬token.IsTag) : (sources tokens).Plain := by
  cases tokens with
  | nil => exact plain_nil
  | cons token rest =>
      rw [List.forall_mem_cons] at flat
      obtain ⟨here, follows, _⟩ := (lexed_cons_iff _ _).mp lexed
      cases token with
      | text content =>
          -- Two neighbours cannot both be text, so this one stands alone.
          cases rest with
          | nil => simpa [source] using here.2
          | cons next rest => exact absurd (follows next rfl) (flat.2 next List.mem_cons_self)
      | opening kind written => exact absurd trivial flat.1
      | unterminated kind remainder => exact absurd trivial flat.1
      | divider => exact absurd trivial flat.1
      | closing kind => exact absurd trivial flat.1

theorem forall_not_isTag_tokenize_iff (text : Text) :
    (∀ token ∈ tokenize text, ¬token.IsTag) ↔ text.Plain := by
  constructor
  · intro flat
    have plain := (lexed_tokenize text).plain_of_flat flat
    rwa [sources_tokenize] at plain
  · intro plain token member
    by_cases none : text = []
    · rw [none, tokenize_nil] at member
      cases member
    · rw [tokenize_of_plain plain none, List.mem_singleton] at member
      rw [member]
      exact id

end Token

end MailTemplate
