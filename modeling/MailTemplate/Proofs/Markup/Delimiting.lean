import MailTemplate.Proofs.Markup.Enclosing
import MailTemplate.Proofs.Markup.Opening
import MailTemplate.Proofs.Markup.Placed

/-!
What is found from a cursor on, said of the text alone: the first opening literal, the first end of
its tag, the balanced tokens up to a closing tag, and the bytes of each part of the block.
-/

namespace MailTemplate

open Token (sources tokenize Balanced Undivided Lexed)

/-- A closing tag follows the balanced tokens of `content`, and no other balanced front part. -/
structure Token.Closes (tokens content : List Token) (closer : BlockKind) (rest : List Token) :
    Prop where
  split : tokens = content ++ .closing closer :: rest
  balanced : Balanced content
  only : ∀ other last more, tokens = other ++ .closing last :: more → Balanced other →
    other = content

namespace MatchedBlock

/-- The parts of a block with the given content. Its divider is the first one outside of all blocks
of the content; without such a divider there is no second branch. -/
structure Delimits (block : MatchedBlock) (text : Text) (content : List Token) : Prop where
  opening : text.slice? block.opening.start block.opening.stop =
    some (['{', '{', '#'] ++ block.kind.word ++ block.written ++ ['}', '}'])
  inside : text.slice? block.opening.stop block.closing.start = some (sources content)
  closing : text.slice? block.closing.start block.closing.stop =
    some (['{', '{', '/'] ++ block.closer.word ++ ['}', '}'])
  first : block.consequent.start = block.opening.stop
  branches :
    (Undivided content ∧ block.alternative = none ∧
      block.consequent.stop = block.closing.start) ∨
    ∃ front back span, content = front ++ .divider :: back ∧ Undivided front ∧
      block.alternative = some span ∧
      text.slice? block.consequent.start block.consequent.stop = some (sources front) ∧
      text.slice? block.consequent.stop span.start =
        some ['{', '{', 'e', 'l', 's', 'e', '}', '}'] ∧
      text.slice? span.start span.stop = some (sources back) ∧ span.stop = block.closing.start

end MatchedBlock

inductive Finding (options : Options) (text : Text) (cursor : Nat) : BlockMatch → Prop
  | outside (uncut : ¬text.HasCut cursor) : Finding options text cursor .literal
  | plain (none : ∀ kind start, cursor ≤ start → ¬text.OpensAt kind start) :
      Finding options text cursor .literal
  | unterminated {kind before after} (cut : text.HasCut cursor)
      (first : text.FirstOpening cursor kind before after) (endless : ¬tagEnd <:+: after) :
      Finding options text cursor (.malformed before.byteSize .unterminatedTag)
  | unclosed {kind before written after} (cut : text.HasCut cursor)
      (first : text.FirstOpening cursor kind before (written ++ tagEnd ++ after))
      (reaches : written.ReachesTagEnd)
      (endless : ∀ content closer rest, tokenize after = content ++ .closing closer :: rest →
        ¬Balanced content) :
      Finding options text cursor (.malformed before.byteSize .unclosed)
  | refused {kind before written after content closer rest} (cut : text.HasCut cursor)
      (first : text.FirstOpening cursor kind before (written ++ tagEnd ++ after))
      (reaches : written.ReachesTagEnd)
      (closes : Token.Closes (tokenize after) content closer rest)
      (strict : options.strictClosers = true) (other : kind ≠ closer) :
      Finding options text cursor (.malformed before.byteSize (.mismatchedClose kind closer))
  | block {before after content rest} {block : MatchedBlock} (cut : text.HasCut cursor)
      (first : text.FirstOpening cursor block.kind before (block.written ++ tagEnd ++ after))
      (reaches : block.written.ReachesTagEnd)
      (closes : Token.Closes (tokenize after) content block.closer rest)
      (accepted : options.strictClosers = true → block.kind = block.closer)
      (start : block.opening.start = before.byteSize) (delimits : block.Delimits text content) :
      Finding options text cursor (.block block)

theorem Token.closes_iff (tokens content : List Token) (closer : BlockKind) (rest : List Token) :
    Token.Closes tokens content closer rest ↔
      tokens = content ++ .closing closer :: rest ∧ Balanced content := by
  constructor
  · intro closes
    exact ⟨closes.split, closes.balanced⟩
  · rintro ⟨rfl, balanced⟩
    refine ⟨rfl, balanced, ?_⟩
    intro other last more split same
    exact (balanced.eq_of_closing same split).1.symm

theorem Text.readCondition_of_reaches {written : Text} (reaches : written.ReachesTagEnd)
    (kind : BlockKind) (after : Text) :
    Token.readCondition kind (written ++ tagEnd ++ after) = (.opening kind written, after) := by
  have writable := (Text.reachesTagEnd_iff_writable written).mp reaches
  rw [Token.readCondition, (Text.breakAt?_tagEnd_iff _ _ _).mpr ⟨rfl, writable⟩]

theorem Text.readCondition_of_endless {after : Text} (endless : ¬tagEnd <:+: after)
    (kind : BlockKind) : Token.readCondition kind after = (.unterminated kind after, []) := by
  rw [Token.readCondition, (Text.breakAt?_eq_none_iff_not_infix tagEnd after).mpr endless]

theorem Text.endless_or_reaches (after : Text) :
    ¬tagEnd <:+: after ∨
      ∃ written rest, after = written ++ tagEnd ++ rest ∧ Text.ReachesTagEnd written := by
  cases found : Text.breakAt? tagEnd after with
  | none => exact .inl ((Text.breakAt?_eq_none_iff_not_infix tagEnd after).mp found)
  | some sides =>
      obtain ⟨split, writable⟩ := (Text.breakAt?_tagEnd_iff after sides.1 sides.2).mp found
      exact .inr ⟨_, _, split, (Text.reachesTagEnd_iff_writable _).mpr writable⟩

theorem Text.stop_of_slice? {text inside : Text} {start stop : Nat}
    (found : text.slice? start stop = some inside) : stop = start + inside.byteSize := by
  obtain ⟨_, _, _, _, last⟩ := (slice?_eq_some_iff _ _ _ _).mp found
  exact last.symm

theorem MatchedBlock.Delimits.eq_locate {block : MatchedBlock} {text : Text} {content : List Token}
    (delimits : block.Delimits text content) :
    block = FoundBlock.locate block.opening.start
      ⟨block.kind, block.written, .split 0 content, block.closer⟩ := by
  obtain ⟨kind, written, ⟨first, last⟩, ⟨next, upTo⟩, alternative, ⟨final, stop⟩, closer⟩ := block
  have opening : last = first + (kind.openingLiteral ++ written ++ tagEnd).byteSize :=
    Text.stop_of_slice? delimits.opening
  have inside := Text.stop_of_slice? delimits.inside
  have closing : stop = final + closer.closingLiteral.byteSize :=
    Text.stop_of_slice? delimits.closing
  have begins := delimits.first
  have parts := delimits.branches
  dsimp only at inside begins parts ⊢
  rcases parts with ⟨undivided, rfl, ends⟩ |
    ⟨one, other, span, rfl, undivided, rfl, consequent, divider, alternative, ends⟩
  · rw [Branches.split_undivided undivided]
    simp only [FoundBlock.locate, FoundBlock.openingTag, FoundBlock.closingTag, Token.source,
      Span.ofText, Option.map_none, Option.getD_none, MatchedBlock.mk.injEq, Span.mk.injEq,
      true_and, and_true]
    omega
  · have consequent := Text.stop_of_slice? consequent
    have divider := Text.stop_of_slice? divider
    have alternative := Text.stop_of_slice? alternative
    obtain ⟨initial, ending⟩ := span
    rw [Branches.split_undivided_divider undivided]
    simp only [Token.sources_append, Token.sources_cons, Text.byteSize_append, Token.source]
      at consequent divider alternative ends inside
    simp only [FoundBlock.locate, FoundBlock.openingTag, FoundBlock.closingTag, Token.source,
      Span.ofText, Option.map_some, Option.getD_some, MatchedBlock.mk.injEq, Span.mk.injEq,
      Option.some.injEq, true_and, and_true]
    omega

theorem FoundBlock.delimits_locate {found : FoundBlock} {text front back : Text}
    (undivided : Undivided found.branches.consequent)
    (split : text = front ++ sources found.tokens ++ back) :
    (found.locate front.byteSize).Delimits text found.branches.content := by
  refine ⟨slice?_opening split, slice?_content split, slice?_closing split, rfl, ?_⟩
  obtain ⟨kind, written, ⟨consequent, alternative⟩, closer⟩ := found
  cases alternative with
  | none => exact .inl ⟨undivided, rfl, rfl⟩
  | some second =>
      exact .inr ⟨consequent, second, _, rfl, undivided, rfl, slice?_consequent split,
        slice?_divider split rfl rfl, slice?_alternative split rfl rfl, rfl⟩

section

variable {options : Options} {text before written after : Text} {cursor : Nat} {kind : BlockKind}

theorem matchBlock_of_uncut (options : Options) (uncut : ¬text.HasCut cursor) :
    matchBlock options text cursor = .literal := by
  unfold matchBlock
  split
  · rfl
  · rename_i behind ahead found
    exact absurd ⟨behind, ahead, (Text.cutAt?_eq_some_iff _ _ _ _).mp found⟩ uncut

theorem matchBlock_of_reaches (options : Options) (cut : text.HasCut cursor)
    (first : text.FirstOpening cursor kind before (written ++ tagEnd ++ after))
    (reaches : written.ReachesTagEnd) :
    matchBlock options text cursor =
      match Body.read? 0 (tokenize after) with
      | some body => (Scan.ofBody options kind written body).locate before.byteSize
      | none => .malformed before.byteSize .unclosed := by
  rw [matchBlock_of_first options cut first, Token.tokenize_openingLiteral,
    Text.readCondition_of_reaches reaches]
  cases read : Body.read? 0 (tokenize after) with
  | none => simp [Scan.ofTokens, read, Scan.locate, Malformed.summary]
  | some body => simp [Scan.ofTokens, read]

theorem Text.FirstOpening.delimits_of_closes {content rest : List Token} {closer : BlockKind}
    (first : text.FirstOpening cursor kind before (written ++ tagEnd ++ after))
    (closes : Token.Closes (tokenize after) content closer rest) :
    (FoundBlock.locate before.byteSize ⟨kind, written, .split 0 content, closer⟩).Delimits text
      content := by
  have whole : Branches.content (.split 0 content) = content := Branches.content_split 0 content
  have split : text = before ++
      sources (FoundBlock.tokens ⟨kind, written, .split 0 content, closer⟩) ++ sources rest := by
    rw [first.split, ← Token.sources_tokenize after, closes.split]
    simp [FoundBlock.tokens, FoundBlock.openingTag, FoundBlock.closingTag, whole, Token.source,
      BlockKind.openingLiteral]
  have delimits := FoundBlock.delimits_locate (Branches.undivided_split closes.balanced) split
  rwa [whole] at delimits

theorem matchBlock_of_finding {result : BlockMatch}
    (finding : Finding options text cursor result) : matchBlock options text cursor = result := by
  cases finding with
  | outside uncut => exact matchBlock_of_uncut options uncut
  | plain none =>
      by_cases cut : text.HasCut cursor
      · obtain ⟨behind, ahead, split, rfl⟩ := cut
        exact matchBlock_of_plain options split none
      · exact matchBlock_of_uncut options cut
  | unterminated cut first endless =>
      rw [matchBlock_of_first options cut first, Token.tokenize_openingLiteral,
        Text.readCondition_of_endless endless]
      simp [Scan.ofTokens, Scan.locate, Malformed.summary]
  | unclosed cut first reaches endless =>
      rename_i after
      rw [matchBlock_of_reaches options cut first reaches]
      cases read : Body.read? 0 (tokenize after) with
      | none => rfl
      | some body =>
          obtain ⟨split, balanced⟩ :=
            (Body.read?_eq_some_iff (Token.lexed_tokenize after) body).mp read
          exact absurd balanced (endless _ _ _ split)
  | refused cut first reaches closes strict other =>
      rw [matchBlock_of_reaches options cut first reaches, closes.split,
        Body.read?_balanced_closing closes.balanced]
      simp [Scan.ofBody, strict, other, Scan.locate, Malformed.summary]
  | block cut first reaches closes accepted start delimits =>
      rename_i content rest block
      have located := delimits.eq_locate
      rw [start] at located
      have kept : ¬(options.strictClosers = true ∧ block.kind ≠ block.closer) :=
        fun refused => refused.2 (accepted refused.1)
      rw [matchBlock_of_reaches options cut first reaches, closes.split,
        Body.read?_balanced_closing closes.balanced]
      simp only [Scan.ofBody, if_neg kept, Scan.locate, Token.sources_nil, Text.byteSize_nil,
        Nat.add_zero, ← located]

theorem exists_finding (options : Options) (text : Text) (cursor : Nat) :
    ∃ result, Finding options text cursor result := by
  by_cases cut : text.HasCut cursor
  · rcases Text.plain_or_firstOpening cut with plain | ⟨kind, before, after, first⟩
    · exact ⟨_, .plain plain⟩
    · rcases after.endless_or_reaches with endless | ⟨written, rest, rfl, reaches⟩
      · exact ⟨_, .unterminated cut first endless⟩
      · have lexed := Token.lexed_tokenize rest
        cases read : Body.read? 0 (tokenize rest) with
        | none =>
            refine ⟨_, .unclosed cut first reaches ?_⟩
            intro content closer later split balanced
            rw [(Body.read?_eq_some_iff lexed ⟨content, closer, later⟩).mpr ⟨split, balanced⟩]
              at read
            cases read
        | some body =>
            have closes := (Token.closes_iff _ _ _ _).mpr
              ((Body.read?_eq_some_iff lexed body).mp read)
            by_cases refused : options.strictClosers = true ∧ kind ≠ body.closer
            · exact ⟨_, .refused cut first reaches closes refused.1 refused.2⟩
            · refine ⟨_, .block cut first reaches closes ?_ rfl (first.delimits_of_closes closes)⟩
              intro strict
              by_contra other
              exact refused ⟨strict, other⟩
  · exact ⟨_, .outside cut⟩

/-- What is found is the only thing there is to find. -/
theorem matchBlock_eq_iff_finding (options : Options) (text : Text) (cursor : Nat)
    (result : BlockMatch) :
    matchBlock options text cursor = result ↔ Finding options text cursor result := by
  constructor
  · rintro rfl
    obtain ⟨result, finding⟩ := exists_finding options text cursor
    rwa [matchBlock_of_finding finding]
  · exact matchBlock_of_finding

end

end MailTemplate
