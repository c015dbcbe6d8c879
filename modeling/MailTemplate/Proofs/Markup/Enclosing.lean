import MailTemplate.Proofs.Markup.Balanced
import MailTemplate.Proofs.Markup.Lexed

/-!
The end of a block and its divider, said without counting levels. The content of a block is the
balanced front part that a closing tag follows, and its first branch is the undivided front part
that a divider follows.
-/

namespace MailTemplate

open Token (Balanced Undivided)

namespace Body

theorem exists_balanced_of_read? {depth : Nat} {tokens : List Token} {body : Body}
    (chain : tokens.IsChain Token.MayPrecede) (found : read? depth tokens = some body) :
    ∃ content closer rest, tokens = content ++ .closing closer :: rest ∧ Balanced content := by
  induction size : tokens.length using Nat.strongRecOn generalizing depth tokens body with
  | ind count ih =>
      cases tokens with
      | nil => simp [read?] at found
      | cons token tokens =>
          have bound : tokens.length < count := by simp [← size]
          have chainLater := chain.tail
          cases token with
          | closing kind => exact ⟨[], kind, tokens, rfl, .nil⟩
          | text content =>
              obtain ⟨tail, read, _⟩ := Option.map_eq_some_iff.mp found
              obtain ⟨inside, closer, rest, rfl, balanced⟩ := ih _ bound chainLater read rfl
              exact ⟨_ :: inside, closer, rest, rfl, .text balanced⟩
          | divider =>
              obtain ⟨tail, read, _⟩ := Option.map_eq_some_iff.mp found
              obtain ⟨inside, closer, rest, rfl, balanced⟩ := ih _ bound chainLater read rfl
              exact ⟨_ :: inside, closer, rest, rfl, .divider balanced⟩
          | unterminated kind remainder =>
              cases tokens with
              | nil => simp [read?] at found
              | cons next tokens => exact ((List.isChain_cons.mp chain).1 next rfl).elim
          | opening kind written =>
              -- The first closing tag ends the inner block, and the next one after it the outer.
              obtain ⟨tail, read, _⟩ := Option.map_eq_some_iff.mp found
              obtain ⟨inside, closer, after, rfl, balanced⟩ := ih _ bound chainLater read rfl
              rw [read?_balanced_append balanced, read?, if_neg (Nat.succ_ne_zero depth),
                Option.map_map] at read
              obtain ⟨later, read, _⟩ := Option.map_eq_some_iff.mp read
              have shorter : after.length < count := by
                simp only [List.length_append, List.length_cons] at bound
                omega
              have chainAfter : after.IsChain Token.MayPrecede :=
                chainLater.right_of_append.tail
              obtain ⟨more, last, rest, rfl, outer⟩ := ih _ shorter chainAfter read rfl
              refine ⟨.opening kind written :: inside ++ .closing closer :: more, last, rest, ?_,
                .block balanced outer⟩
              simp

theorem read?_eq_some_iff {tokens : List Token} (lexed : Token.Lexed tokens) (body : Body) :
    read? 0 tokens = some body ↔
      tokens = body.content ++ .closing body.closer :: body.rest ∧ Balanced body.content := by
  constructor
  · intro found
    obtain ⟨content, closer, rest, rfl, balanced⟩ := exists_balanced_of_read? lexed.2 found
    rw [read?_balanced_closing balanced, Option.some.injEq] at found
    subst found
    exact ⟨rfl, balanced⟩
  · rintro ⟨rfl, balanced⟩
    exact read?_balanced_closing balanced body.closer body.rest

end Body

/-- No two front parts of a list are balanced and have a closing tag after them. -/
theorem Token.Balanced.eq_of_closing {content other rest more : List Token}
    {closer last : BlockKind} (balanced : Balanced content) (same : Balanced other)
    (split : content ++ .closing closer :: rest = other ++ .closing last :: more) :
    content = other ∧ closer = last ∧ rest = more := by
  have found := Body.read?_balanced_closing balanced closer rest
  rw [split, Body.read?_balanced_closing same, Option.some.injEq, Body.mk.injEq] at found
  exact ⟨found.1.symm, found.2.1.symm, found.2.2.symm⟩

namespace Branches

theorem undivided_split {content : List Token} (balanced : Balanced content) :
    Undivided (split 0 content).consequent := by
  induction balanced with
  | nil => exact .nil
  | text _ ih => exact .text ih
  | divider _ _ => exact .nil
  | block inside _ _ later =>
      simp only [List.cons_append, split, split_balanced_append inside]
      exact .block inside later

end Branches

end MailTemplate
