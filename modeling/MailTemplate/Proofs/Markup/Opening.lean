import MailTemplate.Proofs.Markup.Finding
import MailTemplate.Proofs.Markup.Match

/-!
Where the first block of a text may start. The first opening tag among the tokens stands at the
first place of the text at which the literal of an opening tag can be read, whatever stands before
it.
-/

namespace MailTemplate

open Token (sources tokenize Lexed)

namespace Text

def HasCut (text : Text) (offset : Nat) : Prop :=
  ∃ before after, text = before ++ after ∧ before.byteSize = offset

def OpensAt (text : Text) (kind : BlockKind) (start : Nat) : Prop :=
  ∃ before after, text = before ++ (['{', '{', '#'] ++ kind.word) ++ after ∧
    before.byteSize = start

/-- The first literal of an opening tag from the byte `cursor` on has these two texts around it. -/
structure FirstOpening (text : Text) (cursor : Nat) (kind : BlockKind) (before after : Text) :
    Prop where
  split : text = before ++ (['{', '{', '#'] ++ kind.word) ++ after
  reached : cursor ≤ before.byteSize
  earliest : ∀ other start, cursor ≤ start → text.OpensAt other start → before.byteSize ≤ start

theorem exists_middle {text behind ahead before literal after : Text}
    (split : text = behind ++ ahead) (other : text = before ++ literal ++ after)
    (reached : behind.byteSize ≤ before.byteSize) :
    ∃ middle, before = behind ++ middle ∧ ahead = middle ++ literal ++ after := by
  rw [split, List.append_assoc] at other
  rcases List.append_eq_append_iff.mp other with ⟨middle, rfl, same⟩ | ⟨middle, rfl, same⟩
  · exact ⟨middle, rfl, by rw [same, List.append_assoc]⟩
  · rw [byteSize_append] at reached
    have none : middle = [] := eq_nil_of_byteSize (by omega)
    subst none
    exact ⟨[], by simp, same.symm⟩

end Text

namespace Scan

theorem flat_or_exists (tokens : List Token) :
    (∀ token ∈ tokens, ¬OpensBlock token) ∨
      ∃ flat tag rest, tokens = flat ++ tag :: rest ∧ (∀ token ∈ flat, ¬OpensBlock token) ∧
        OpensBlock tag := by
  induction tokens with
  | nil => exact .inl (by simp)
  | cons token tokens ih =>
      by_cases opens : OpensBlock token
      · exact .inr ⟨[], token, tokens, rfl, by simp, opens⟩
      · rcases ih with flat | ⟨flat, tag, rest, rfl, plain, tagOpens⟩
        · exact .inl (List.forall_mem_cons.mpr ⟨opens, flat⟩)
        · exact .inr ⟨token :: flat, tag, rest, rfl, List.forall_mem_cons.mpr ⟨opens, plain⟩,
            tagOpens⟩

theorem exists_source_of_opensBlock {tag : Token} (opens : OpensBlock tag) :
    ∃ kind : BlockKind, ∃ more, tag.source = kind.openingLiteral ++ more := by
  cases tag with
  | opening kind written => exact ⟨kind, written ++ tagEnd, List.append_assoc _ _ _⟩
  | unterminated kind remainder => exact ⟨kind, remainder, rfl⟩
  | text content => exact opens.elim
  | divider => exact opens.elim
  | closing kind => exact opens.elim

theorem braces_of_flat {tag : Token} (isTag : tag.IsTag) (flat : ¬OpensBlock tag) :
    ∃ c tail, tag.source = '{' :: '{' :: c :: tail ∧ c ≠ '#' ∧ '{' ∉ c :: tail := by
  cases tag with
  | text content => exact isTag.elim
  | opening kind written => exact absurd trivial flat
  | unterminated kind remainder => exact absurd trivial flat
  | divider => exact ⟨_, _, rfl, by decide, by decide⟩
  | closing kind => cases kind <;> exact ⟨_, _, rfl, by decide, by decide⟩

theorem not_prefix_of_flat {tag : Token} (isTag : tag.IsTag) (flat : ¬OpensBlock tag)
    (kind : BlockKind) {front back : Text} (split : tag.source = front ++ back)
    (nonempty : back ≠ []) (ahead : Text) : ¬kind.openingLiteral <+: back ++ ahead := by
  obtain ⟨c, tail, source, other, free⟩ := braces_of_flat isTag flat
  rintro ⟨after, same⟩
  simp only [BlockKind.openingLiteral, List.cons_append, List.nil_append] at same
  rw [source] at split
  cases back with
  | nil => exact nonempty rfl
  | cons x back =>
      cases front with
      | nil =>
          rw [List.nil_append] at split
          rw [← split, List.cons_append, List.cons_append, List.cons_append] at same
          injection same with _ same
          injection same with _ same
          injection same with third _
          exact other third.symm
      | cons first front =>
          cases front with
          | nil =>
              simp only [List.cons_append, List.nil_append, List.cons.injEq] at split same
              cases back with
              | nil => simp at split
              | cons y back =>
                  simp only [List.cons_append, List.cons.injEq] at split same
                  exact free (by simp [split.2.2.1, ← same.2.1])
          | cons second front =>
              simp only [List.cons_append, List.cons.injEq] at split same
              exact free (by simp [split.2.2, ← same.1])

theorem not_prefix_of_lexed {token : Token} {tokens : List Token}
    (lexed : Lexed (token :: tokens)) (flat : ¬OpensBlock token) (kind : BlockKind)
    {front back : Text} (split : token.source = front ++ back) (nonempty : back ≠ []) :
    ¬kind.openingLiteral <+: back ++ sources tokens := by
  obtain ⟨here, follows, _⟩ := (Token.lexed_cons_iff _ _).mp lexed
  cases token with
  | text content =>
      have member := openingLiteral_mem_tagLiterals kind
      have part : back <:+: content := ⟨front, [], by rw [List.append_nil]; exact split.symm⟩
      exact Token.not_prefix_of_plain member (here.2.of_part part) nonempty follows
  | opening other written => exact absurd trivial flat
  | unterminated other remainder => exact absurd trivial flat
  | divider =>
      have isTag : Token.IsTag .divider := trivial
      exact not_prefix_of_flat isTag flat kind split nonempty _
  | closing other =>
      have isTag : (Token.closing other).IsTag := trivial
      exact not_prefix_of_flat isTag flat kind split nonempty _

theorem flat_prefix_of_opening {flat rest : List Token} (lexed : Lexed (flat ++ rest))
    (plain : ∀ token ∈ flat, ¬OpensBlock token) {kind : BlockKind} {before after : Text}
    (split : sources (flat ++ rest) = before ++ kind.openingLiteral ++ after) :
    sources flat <+: before := by
  induction flat generalizing before with
  | nil => exact List.nil_prefix
  | cons token flat ih =>
      rw [List.forall_mem_cons] at plain
      have later := ((Token.lexed_cons_iff _ _).mp lexed).2.2
      have behind (more : Text) (same : before = token.source ++ more)
          (starts : sources (flat ++ rest) = more ++ kind.openingLiteral ++ after) :
          sources (token :: flat) <+: before := by
        obtain ⟨last, whole⟩ := ih later plain.2 starts
        exact ⟨last, by rw [Token.sources_cons, List.append_assoc, whole, same]⟩
      rw [List.cons_append, Token.sources_cons, List.append_assoc before] at split
      rcases List.append_eq_append_iff.mp split with ⟨more, same, starts⟩ | ⟨more, inside, starts⟩
      · exact behind more same (by rw [starts, List.append_assoc])
      · by_cases none : more = []
        · subst none
          exact behind [] (by rw [inside, List.append_nil, List.append_nil]) starts.symm
        · exact absurd ⟨after, starts⟩ (not_prefix_of_lexed lexed plain.1 kind inside none)

theorem locate_push (token : Token) (scan : Scan) (cursor : Nat) :
    (scan.push token).locate cursor = scan.locate (cursor + token.source.byteSize) := by
  cases scan <;> simp [push, locate, Nat.add_assoc]

theorem locate_flat_append (options : Options) {flat : List Token}
    (plain : ∀ token ∈ flat, ¬OpensBlock token) (rest : List Token) (cursor : Nat) :
    (ofTokens options (flat ++ rest)).locate cursor =
      (ofTokens options rest).locate (cursor + (sources flat).byteSize) := by
  induction flat generalizing cursor with
  | nil => simp
  | cons token flat ih =>
      rw [List.forall_mem_cons] at plain
      have later := ih plain.2 (cursor + token.source.byteSize)
      rw [Token.sources_cons, Text.byteSize_append, ← Nat.add_assoc, ← later]
      cases token with
      | text content => simp [ofTokens, locate_push]
      | divider => simp [ofTokens, locate_push]
      | closing kind => simp [ofTokens, locate_push]
      | opening kind written => exact absurd trivial plain.1
      | unterminated kind remainder => exact absurd trivial plain.1

end Scan

theorem Token.tokenize_openingLiteral (kind : BlockKind) (after : Text) :
    tokenize (kind.openingLiteral ++ after) =
      (readCondition kind after).1 :: tokenize (readCondition kind after).2 := by
  have member : (kind.openingLiteral, readCondition kind) ∈ tagReaders := by
    cases kind <;> simp [tagReaders]
  exact tokenize_of_tag (readTag?_of_literal member after)

section

variable {text behind ahead : Text} {cursor : Nat}

theorem Text.firstOpening_of_tokenize (split : text = behind ++ ahead) {flat rest : List Token}
    {tag : Token} (found : tokenize ahead = flat ++ tag :: rest)
    (plain : ∀ token ∈ flat, ¬Scan.OpensBlock token) (opens : Scan.OpensBlock tag) :
    ∃ kind after, text.FirstOpening behind.byteSize kind (behind ++ sources flat) after := by
  have lexed := Token.lexed_tokenize ahead
  rw [found] at lexed
  have whole : ahead = sources (flat ++ tag :: rest) := by rw [← found, Token.sources_tokenize]
  obtain ⟨kind, more, source⟩ := Scan.exists_source_of_opensBlock opens
  refine ⟨kind, more ++ sources rest, ?_, ?_, ?_⟩
  · rw [split, whole, Token.sources_append, Token.sources_cons, source]
    simp only [BlockKind.openingLiteral, List.append_assoc]
  · rw [Text.byteSize_append]
    omega
  · rintro other start reached ⟨before, after, cut, rfl⟩
    obtain ⟨middle, rfl, ends⟩ := exists_middle split cut reached
    rw [whole] at ends
    obtain ⟨last, same⟩ := Scan.flat_prefix_of_opening lexed plain ends
    rw [← same, Text.byteSize_append, Text.byteSize_append, Text.byteSize_append]
    omega

theorem Scan.exists_of_opening {kind : BlockKind} {before after : Text}
    (split : ahead = before ++ kind.openingLiteral ++ after) :
    ∃ flat tag rest, tokenize ahead = flat ++ tag :: rest ∧ (∀ token ∈ flat, ¬OpensBlock token) ∧
      OpensBlock tag := by
  rcases flat_or_exists (tokenize ahead) with flat | found
  · have lexed := Token.lexed_tokenize ahead
    have whole : sources (tokenize ahead ++ []) = before ++ kind.openingLiteral ++ after := by
      rw [List.append_nil, Token.sources_tokenize, split]
    rw [← List.append_nil (tokenize ahead)] at lexed
    have within := (flat_prefix_of_opening lexed flat whole).length_le
    have literal : 0 < kind.openingLiteral.length := by simp [BlockKind.openingLiteral]
    rw [Token.sources_tokenize, split, List.length_append, List.length_append] at within
    omega
  · exact found

theorem matchBlock_of_plain (options : Options) (split : text = behind ++ ahead)
    (plain : ∀ kind start, behind.byteSize ≤ start → ¬text.OpensAt kind start) :
    matchBlock options text behind.byteSize = .literal := by
  rw [matchBlock_of_split options split]
  rcases Scan.flat_or_exists (tokenize ahead) with flat | ⟨flat, tag, rest, found, before, opens⟩
  · have located := Scan.locate_flat_append options flat [] behind.byteSize
    rw [List.append_nil] at located
    exact located
  · obtain ⟨kind, after, first⟩ := Text.firstOpening_of_tokenize split found before opens
    exact absurd ⟨_, _, first.split, rfl⟩ (plain kind _ first.reached)

theorem matchBlock_of_first (options : Options) {kind : BlockKind} {before after : Text}
    (cut : text.HasCut cursor) (first : text.FirstOpening cursor kind before after) :
    matchBlock options text cursor =
      (Scan.ofTokens options (tokenize (kind.openingLiteral ++ after))).locate before.byteSize := by
  obtain ⟨behind, ahead, split, rfl⟩ := cut
  obtain ⟨middle, rfl, ends⟩ := Text.exists_middle split first.split first.reached
  obtain ⟨flat, tag, rest, found, plain, opens⟩ := Scan.exists_of_opening ends
  obtain ⟨other, more, again⟩ := Text.firstOpening_of_tokenize split found plain opens
  have lexed := Token.lexed_tokenize ahead
  have whole : sources (flat ++ tag :: rest) = middle ++ kind.openingLiteral ++ after := by
    rw [← found, Token.sources_tokenize, ends, BlockKind.openingLiteral]
  rw [found] at lexed
  obtain ⟨extra, rfl⟩ := Scan.flat_prefix_of_opening lexed plain whole
  have earlier := first.earliest other _ again.reached ⟨_, _, again.split, rfl⟩
  have none : extra = [] := by
    apply Text.eq_nil_of_byteSize
    simp only [Text.byteSize_append] at earlier
    omega
  subst none
  rw [List.append_nil, Token.sources_append, List.append_assoc,
    List.append_cancel_left_eq] at whole
  rw [matchBlock_of_split options split, found, Scan.locate_flat_append options plain, ← whole,
    Token.tokenize_sources lexed.right, List.append_nil, Text.byteSize_append]

theorem Text.plain_or_firstOpening (cut : text.HasCut cursor) :
    (∀ kind start, cursor ≤ start → ¬text.OpensAt kind start) ∨
      ∃ kind before after, text.FirstOpening cursor kind before after := by
  obtain ⟨behind, ahead, split, rfl⟩ := cut
  by_cases opens : ∃ kind start, behind.byteSize ≤ start ∧ text.OpensAt kind start
  · obtain ⟨kind, _, reached, before, after, other, rfl⟩ := opens
    obtain ⟨middle, rfl, ends⟩ := exists_middle split other reached
    obtain ⟨flat, tag, rest, found, plain, opens⟩ := Scan.exists_of_opening ends
    obtain ⟨kind, after, first⟩ := firstOpening_of_tokenize split found plain opens
    exact .inr ⟨kind, _, after, first⟩
  · refine .inl ?_
    intro kind start reached here
    exact opens ⟨kind, start, reached, here⟩

end

end MailTemplate
