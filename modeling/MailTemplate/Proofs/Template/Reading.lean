import MailTemplate.Template.Parse

/-!
How tokens are read, as a derivation with one case for each outcome of looking for a block. What
holds of all that is read is proved by induction on it.
-/

namespace MailTemplate

namespace Tree

@[simp] theorem withText_nil (next : Tree) : withText [] next = next := rfl

theorem withText_of_ne_nil {content : Text} (nonempty : content ≠ []) (next : Tree) :
    withText content next = .literal content next := by
  simp [withText, nonempty]

end Tree

namespace Parsed

open Token (sources)

inductive Reads (options : Options) : Option Nat → Point → List Token → Parsed → Prop
  | literal {room start tokens} (scanned : Scan.ofTokens options tokens = .literal) :
      Reads options room start tokens ⟨.ofText (sources tokens), .ofStrays start tokens⟩
  | malformed {room start tokens before reason}
      (scanned : Scan.ofTokens options tokens = .malformed before reason) :
      Reads options room start tokens
        ⟨.ofText (sources tokens),
          .ofStrays start before ++ .ofMalformed (start.advance (sources before)) reason⟩
  | tooDeep {start tokens before found rest next}
      (scanned : Scan.ofTokens options tokens = .block before found rest)
      (later : Reads options (some 0)
        ((start.advance (sources before)).advance (sources found.tokens)) rest next) :
      Reads options (some 0) start tokens
        ⟨.withText (sources before) (.withText (sources found.tokens) next.tree),
          .ofStrays start before ++ .ofTooDeep (start.advance (sources before)) found.kind ++
            next.report⟩
  | block {room start opening head tokens before found rest consequent next}
      (scanned : Scan.ofTokens options tokens = .block before found rest)
      (single : found.branches.alternative = none) (shallow : room ≠ some 0)
      (opened : opening = start.advance (sources before)) (headed : head = found.headAt opening)
      (inside : Reads options (room.map (· - 1)) head.position.stop found.branches.consequent
        consequent)
      (later : Reads options room (opening.advance (sources found.tokens)) rest next) :
      Reads options room start tokens
        ⟨.withText (sources before) (.block head consequent.tree next.tree),
          .ofStrays start before ++ .ofCondition head ++
            .ofCloser head found.closer
              (head.position.stop.advance (sources found.branches.content)) ++
            consequent.report ++ next.report⟩
  | choice {room start opening head tokens before found rest second consequent alternative next}
      (scanned : Scan.ofTokens options tokens = .block before found rest)
      (double : found.branches.alternative = some second) (shallow : room ≠ some 0)
      (opened : opening = start.advance (sources before)) (headed : head = found.headAt opening)
      (inside : Reads options (room.map (· - 1)) head.position.stop found.branches.consequent
        consequent)
      (otherwise : Reads options (room.map (· - 1))
        ((head.position.stop.advance (sources found.branches.consequent)).advance dividerLiteral)
        second alternative)
      (later : Reads options room (opening.advance (sources found.tokens)) rest next) :
      Reads options room start tokens
        ⟨.withText (sources before) (.choice head consequent.tree alternative.tree next.tree),
          .ofStrays start before ++ .ofCondition head ++
            .ofCloser head found.closer
              (head.position.stop.advance (sources found.branches.content)) ++
            consequent.report ++ alternative.report ++ next.report⟩

theorem reads_ofTokens (options : Options) (room : Option Nat) (start : Point)
    (tokens : List Token) : Reads options room start tokens (ofTokens options room start tokens) := by
  induction size : tokens.length using Nat.strongRecOn generalizing room start tokens with
  | ind size ih =>
      have shorter (room : Option Nat) (start : Point) (part : List Token)
          (bound : part.length < tokens.length) :
          Reads options room start part (ofTokens options room start part) :=
        ih part.length (by omega) room start part rfl
      cases scanned : Scan.ofTokens options tokens with
      | literal =>
          rw [ofTokens_of_literal scanned]
          exact .literal scanned
      | malformed before reason =>
          rw [ofTokens_of_malformed scanned]
          exact .malformed scanned
      | block before found rest =>
          have bounds := Scan.length_lt_of_block scanned
          have later := shorter room
            ((start.advance (sources before)).advance (sources found.tokens)) rest bounds.2.2
          by_cases deep : room = some 0
          · subst deep
            rw [ofTokens_of_tooDeep scanned]
            exact .tooDeep scanned later
          · have inside := shorter (room.map (· - 1))
              (found.headAt (start.advance (sources before))).position.stop _ bounds.1
            cases branch : found.branches.alternative with
            | none =>
                rw [ofTokens_of_block scanned branch deep]
                exact .block scanned branch deep rfl rfl inside later
            | some second =>
                rw [branch] at bounds
                rw [ofTokens_of_choice scanned branch deep]
                exact .choice scanned branch deep rfl rfl inside
                  (shorter _ _ second bounds.2.1) later

theorem Reads.ofTokens_eq {options : Options} {room : Option Nat} {start : Point}
    {tokens : List Token} {parsed : Parsed} (reads : Reads options room start tokens parsed) :
    ofTokens options room start tokens = parsed := by
  induction reads with
  | literal scanned => exact ofTokens_of_literal scanned _ _
  | malformed scanned => exact ofTokens_of_malformed scanned _ _
  | tooDeep scanned later ih =>
      rw [ofTokens_of_tooDeep scanned]
      simp only [ih]
  | block scanned single shallow opened headed inside later insideIh laterIh =>
      subst opened headed
      rw [ofTokens_of_block scanned single shallow]
      simp only [insideIh, laterIh]
  | choice scanned double shallow opened headed inside otherwise later insideIh otherwiseIh laterIh =>
      subst opened headed
      rw [ofTokens_of_choice scanned double shallow]
      simp only [insideIh, otherwiseIh, laterIh]

end Parsed

end MailTemplate
