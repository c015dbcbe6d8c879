import MailTemplate.Proofs.Markup.Enclosing
import MailTemplate.Proofs.Markup.Finding

/-!
How deep the blocks of balanced tokens nest. The parts of a block nest one level less than the block
and are balanced themselves.
-/

namespace MailTemplate

namespace Token

def nesting : List Token → Nat
  | [] => 0
  | token :: tokens =>
      match token with
      | .opening _ _ | .unterminated _ _ => nesting tokens + 1
      | .closing _ => nesting tokens - 1
      | .text _ | .divider => nesting tokens

theorem Balanced.nesting_append {content : List Token} (balanced : Balanced content)
    (rest : List Token) : nesting (content ++ rest) = max (nesting content) (nesting rest) := by
  induction balanced generalizing rest with
  | nil => simp [nesting]
  | text _ ih => exact ih rest
  | divider _ ih => exact ih rest
  | block _ _ inside later =>
      rw [List.append_assoc, List.cons_append, List.cons_append, List.cons_append]
      simp only [nesting, inside, later]
      omega

theorem Balanced.nesting_block {content : List Token} (balanced : Balanced content)
    (kind closer : BlockKind) (written : Text) (rest : List Token) :
    nesting (.opening kind written :: content ++ .closing closer :: rest) =
      max (nesting content + 1) (nesting rest) := by
  simp only [List.cons_append, nesting, balanced.nesting_append]
  omega

theorem Balanced.of_opening {kind : BlockKind} {written : Text} {tokens : List Token}
    (balanced : Balanced (.opening kind written :: tokens)) :
    ∃ content closer rest, tokens = content ++ .closing closer :: rest ∧ Balanced content ∧
      Balanced rest := by
  cases balanced with
  | block inside later => exact ⟨_, _, _, rfl, inside, later⟩

theorem Balanced.right {first second : List Token} (front : Balanced first)
    (whole : Balanced (first ++ second)) : Balanced second := by
  induction front with
  | nil => exact whole
  | text _ ih =>
      cases whole with
      | text later => exact ih later
  | divider _ ih =>
      cases whole with
      | divider later => exact ih later
  | block inside _ _ ih =>
      rw [List.append_assoc, List.cons_append] at whole
      obtain ⟨content, closer, rest, split, balanced, later⟩ := whole.of_opening
      rw [List.cons_append] at split
      obtain ⟨_, _, rfl⟩ := inside.eq_of_closing balanced split
      exact ih later

theorem Balanced.of_flat {first second : List Token} (whole : Balanced (first ++ second))
    (flat : ∀ token ∈ first, ¬Scan.OpensBlock token) : Balanced first := by
  induction first with
  | nil => exact .nil
  | cons token first ih =>
      rw [List.forall_mem_cons] at flat
      cases token with
      | text content =>
          cases whole with
          | text later => exact .text (ih later flat.2)
      | divider =>
          cases whole with
          | divider later => exact .divider (ih later flat.2)
      | closing kind => cases whole
      | unterminated kind remainder => exact absurd trivial flat.1
      | opening kind written => exact absurd trivial flat.1

end Token

open Token (Balanced nesting)

theorem Branches.nesting_split {content : List Token} (balanced : Balanced content) :
    nesting (split 0 content).consequent ≤ nesting content ∧
      ∀ second ∈ (split 0 content).alternative,
        Balanced second ∧ nesting second ≤ nesting content := by
  have first := (undivided_split balanced).balanced
  have whole := content_split 0 content
  cases found : (split 0 content).alternative with
  | none =>
      rw [Branches.content, found] at whole
      simp only at whole
      simp [whole]
  | some second =>
      rw [Branches.content, found] at whole
      simp only at whole
      rw [← whole] at balanced
      have parts := first.nesting_append (.divider :: second)
      rw [whole] at parts
      have after : nesting (.divider :: second) = nesting second := rfl
      refine ⟨by omega, ?_⟩
      rintro other ⟨⟩
      refine ⟨?_, by omega⟩
      cases first.right balanced with
      | divider later => exact later

namespace Scan

structure Parts (tokens : List Token) (branches : Branches) (rest : List Token) : Prop where
  consequent : Balanced branches.consequent
  consequent_lt : nesting branches.consequent < nesting tokens
  alternative : ∀ second ∈ branches.alternative, Balanced second
  alternative_lt : ∀ second ∈ branches.alternative, nesting second < nesting tokens
  later : Balanced rest
  later_le : nesting rest ≤ nesting tokens

theorem parts_of_body {before content rest : List Token} (kind closer : BlockKind) (written : Text)
    (front : Balanced before) (inside : Balanced content) (later : Balanced rest) :
    Parts (before ++ .opening kind written :: content ++ .closing closer :: rest)
      (Branches.split 0 content) rest := by
  have depth := front.nesting_append (.opening kind written :: content ++ .closing closer :: rest)
  rw [inside.nesting_block, ← List.append_assoc] at depth
  obtain ⟨first, second⟩ := Branches.nesting_split inside
  exact {
    consequent := (Branches.undivided_split inside).balanced
    consequent_lt := by omega
    alternative := fun other member => (second other member).1
    alternative_lt := fun other member => by
      have bound := (second other member).2
      omega
    later := later
    later_le := by omega }

theorem parts_of_block {options : Options} {tokens before rest : List Token} {found : FoundBlock}
    (balanced : Balanced tokens) (scanned : ofTokens options tokens = .block before found rest) :
    Parts tokens found.branches rest := by
  cases finds_of_eq scanned with
  | @block before kind written rest body flat read accepted =>
      have front := balanced.of_flat flat
      obtain ⟨content, closer, after, rfl, inside, later⟩ := (front.right balanced).of_opening
      rw [Body.read?_balanced_closing inside, Option.some.injEq] at read
      subst read
      have parts := parts_of_body kind closer written front inside later
      rw [List.append_assoc, List.cons_append] at parts
      exact parts

end Scan

end MailTemplate
