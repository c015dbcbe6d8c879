import Mathlib.Data.List.Chain
import MailTemplate.Markup.Token
import MailTemplate.Proofs.Text.Splitting

/-!
The token lists that texts have. Each condition is about one token or about two neighbours, so a
part of such a list is again the token list of its own text, wherever it was cut out.
-/

namespace MailTemplate

/-- The texts by which a tag is known: `{{#if`, `{{#unless`, `{{else}}`, `{{/if}}` and
`{{/unless}}`. -/
def tagLiterals : List Text :=
  [ ['{', '{', '#', 'i', 'f'], ['{', '{', '#', 'u', 'n', 'l', 'e', 's', 's'],
    ['{', '{', 'e', 'l', 's', 'e', '}', '}'], ['{', '{', '/', 'i', 'f', '}', '}'],
    ['{', '{', '/', 'u', 'n', 'l', 'e', 's', 's', '}', '}'] ]

theorem openingLiteral_mem_tagLiterals (kind : BlockKind) :
    kind.openingLiteral ∈ tagLiterals := by
  cases kind <;> decide

theorem Token.map_tagReaders : tagReaders.map Prod.fst = tagLiterals := rfl

namespace Text

def Plain (text : Text) : Prop :=
  ∀ literal ∈ tagLiterals, ¬literal <:+: text

/-- Between an opening literal and the end of a tag, such a text is the whole condition. -/
def Writable (written : Text) : Prop :=
  ¬tagEnd <:+: written ∧ written.getLast? ≠ some '}'

instance (text : Text) : Decidable text.Plain :=
  inferInstanceAs (Decidable (∀ literal ∈ tagLiterals, ¬literal <:+: text))

instance (written : Text) : Decidable written.Writable :=
  inferInstanceAs (Decidable (¬tagEnd <:+: written ∧ written.getLast? ≠ some '}'))

theorem Plain.of_part {part text : Text} (plain : Plain text) (inside : part <:+: text) :
    Plain part := by
  intro literal member found
  exact plain literal member (found.trans inside)

theorem Plain.tail {c : Char} {text : Text} (plain : Plain (c :: text)) : Plain text :=
  plain.of_part (List.suffix_cons c text).isInfix

theorem breakAt?_tagEnd_iff (text written rest : Text) :
    breakAt? tagEnd text = some (written, rest) ↔
      text = written ++ tagEnd ++ rest ∧ Writable written := by
  constructor
  · intro found
    have split := eq_append_of_breakAt? found
    refine ⟨split, ?_, ?_⟩
    · rintro ⟨before, after, same⟩
      have earlier := breakAt?_length_le found before (after ++ tagEnd ++ rest)
        (by rw [split, ← same]; simp)
      simp only [← same, tagEnd, List.length_append, List.length_cons] at earlier
      omega
    · intro last
      obtain ⟨before, same⟩ := List.getLast?_eq_some_iff.mp last
      have earlier := breakAt?_length_le found before ('}' :: rest)
        (by rw [split, same]; simp [tagEnd])
      simp only [same, List.length_append, List.length_singleton] at earlier
      omega
  · rintro ⟨split, free, last⟩
    cases found : breakAt? tagEnd text with
    | none => exact absurd split ((breakAt?_eq_none_iff _ _).mp found _ _)
    | some sides =>
        obtain ⟨before, after⟩ := sides
        have again := eq_append_of_breakAt? found
        have earlier := breakAt?_length_le found _ _ split
        have shorter : before <+: text := ⟨tagEnd ++ after, by rw [again, List.append_assoc]⟩
        have longer : written <+: text := ⟨tagEnd ++ rest, by rw [split, List.append_assoc]⟩
        -- The first occurrence is not earlier: there, the ends of the two tags would overlap.
        obtain ⟨middle, same⟩ := List.prefix_of_prefix_length_le shorter longer earlier
        rw [split, ← same] at again
        simp only [List.append_assoc, List.append_cancel_left_eq] at again
        match middle with
        | [] =>
            simp only [List.nil_append, List.append_cancel_left_eq] at again
            simp [← same, again]
        | [c] =>
            simp only [tagEnd, List.cons_append, List.cons.injEq] at again
            exact absurd (by simp [← same, again.1]) last
        | c :: d :: middle =>
            simp only [tagEnd, List.cons_append, List.cons.injEq] at again
            exact absurd ⟨before, middle, by simp [← same, tagEnd, again.1, again.2.1]⟩ free

end Text

namespace Token

def IsLexed : Token → Prop
  | .text content => content ≠ [] ∧ content.Plain
  | .opening _ written => written.Writable
  | .unterminated _ remainder => ¬tagEnd <:+: remainder
  | .divider | .closing _ => True

def MayPrecede : Token → Token → Prop
  | .text _, second => second.IsTag
  | .unterminated _ _, _ => False
  | .opening _ _, _ | .divider, _ | .closing _, _ => True

def Lexed (tokens : List Token) : Prop :=
  (∀ token ∈ tokens, token.IsLexed) ∧ tokens.IsChain MayPrecede

theorem Lexed.of_part {inner tokens : List Token} (lexed : Lexed tokens)
    (part : inner <:+: tokens) : Lexed inner := by
  obtain ⟨before, after, rfl⟩ := part
  constructor
  · intro token member
    exact lexed.1 token (by simp [member])
  · exact lexed.2.left_of_append.right_of_append

theorem Lexed.left {first second : List Token} (lexed : Lexed (first ++ second)) :
    Lexed first :=
  lexed.of_part (List.prefix_append _ _).isInfix

theorem Lexed.right {first second : List Token} (lexed : Lexed (first ++ second)) :
    Lexed second :=
  lexed.of_part (List.suffix_append _ _).isInfix

theorem lexed_nil : Lexed [] := by
  simp [Lexed]

theorem lexed_cons_iff (token : Token) (tokens : List Token) :
    Lexed (token :: tokens) ↔
      token.IsLexed ∧ (∀ next ∈ tokens.head?, token.MayPrecede next) ∧ Lexed tokens := by
  simp only [Lexed, List.forall_mem_cons, List.isChain_cons]
  tauto

theorem IsTag.mayPrecede_of_not_unterminated {token next : Token} (isTag : token.IsTag)
    (ends : ∀ kind remainder, token ≠ .unterminated kind remainder) : token.MayPrecede next := by
  cases token with
  | text content => exact isTag.elim
  | unterminated kind remainder => exact absurd rfl (ends kind remainder)
  | opening kind written => exact trivial
  | divider => exact trivial
  | closing kind => exact trivial

theorem braces_of_mem_tagLiterals {literal : Text} (member : literal ∈ tagLiterals) :
    ∃ c tail, literal = '{' :: '{' :: c :: tail ∧ '{' ∉ c :: tail := by
  simp only [tagLiterals, List.mem_cons, List.not_mem_nil, or_false] at member
  rcases member with rfl | rfl | rfl | rfl | rfl <;> exact ⟨_, _, rfl, by decide⟩

theorem IsTag.source_braces {tag : Token} (isTag : tag.IsTag) :
    ∃ text, tag.source = '{' :: '{' :: text := by
  cases tag with
  | text content => exact isTag.elim
  | opening kind written => exact ⟨_, rfl⟩
  | unterminated kind remainder => exact ⟨_, rfl⟩
  | divider => exact ⟨_, rfl⟩
  | closing kind => exact ⟨_, rfl⟩

theorem not_prefix_of_plain {literal text : Text} {tokens : List Token}
    (member : literal ∈ tagLiterals) (plain : text.Plain) (nonempty : text ≠ [])
    (follows : ∀ next ∈ tokens.head?, next.IsTag) : ¬literal <+: text ++ sources tokens := by
  rintro ⟨after, same⟩
  rcases List.append_eq_append_iff.mp same with ⟨more, inside, _⟩ | ⟨more, outside, begins⟩
  · exact plain literal member ⟨[], more, by simp [inside]⟩
  · cases more with
    | nil => exact plain literal member ⟨[], [], by simp [outside]⟩
    | cons d more =>
        cases tokens with
        | nil => cases begins
        | cons next tokens =>
            -- The literal would reach into the tag, and have a brace past its own first two.
            obtain ⟨source, braces⟩ := (follows next (by simp)).source_braces
            obtain ⟨c, tail, shape, free⟩ := braces_of_mem_tagLiterals member
            rw [sources_cons, braces] at begins
            simp only [List.cons_append, List.cons.injEq] at begins
            obtain ⟨rfl, begins⟩ := begins
            rw [shape] at outside
            match text with
            | [] => exact nonempty rfl
            | [x] =>
                simp only [List.cons_append, List.nil_append, List.cons.injEq] at outside
                rw [← outside.2.2, List.cons_append, List.cons.injEq] at begins
                exact free (List.mem_cons.mpr (.inl begins.1))
            | x :: y :: text =>
                simp only [List.cons_append, List.cons.injEq] at outside
                exact free (by simp [outside.2.2])

theorem readTag?_eq_none_iff (text : Text) :
    readTag? text = none ↔ ∀ literal ∈ tagLiterals, ¬literal <+: text := by
  have starts (literal : Text) :
      Text.after? literal text = none ↔ ¬literal <+: text := by
    rw [Option.eq_none_iff_forall_ne_some]
    simp only [ne_eq, Text.after?_eq_some_iff]
    constructor
    · rintro absent ⟨rest, same⟩
      exact absent rest same.symm
    · intro absent rest same
      exact absent ⟨rest, same.symm⟩
  rw [readTag?, List.findSome?_eq_none_iff, ← map_tagReaders, List.forall_mem_map]
  simp only [Option.map_eq_none_iff, starts]

theorem readTag?_of_literal {literal : Text} {read : Text → Token × Text}
    (member : (literal, read) ∈ tagReaders) (rest : Text) :
    readTag? (literal ++ rest) = some (read rest) := by
  simp only [tagReaders, List.mem_cons, Prod.mk.injEq, List.not_mem_nil, or_false] at member
  rcases member with ⟨rfl, rfl⟩ | ⟨rfl, rfl⟩ | ⟨rfl, rfl⟩ | ⟨rfl, rfl⟩ | ⟨rfl, rfl⟩ <;> rfl

theorem readTag?_opening {written : Text} (writable : written.Writable) (kind : BlockKind)
    (rest : Text) :
    readTag? ((opening kind written).source ++ rest) = some (.opening kind written, rest) := by
  have found : Text.breakAt? tagEnd (written ++ tagEnd ++ rest) = some (written, rest) :=
    (Text.breakAt?_tagEnd_iff _ _ _).mpr ⟨rfl, writable⟩
  have member : (kind.openingLiteral, readCondition kind) ∈ tagReaders := by
    cases kind <;> simp [tagReaders]
  rw [source, List.append_assoc, List.append_assoc, readTag?_of_literal member,
    ← List.append_assoc, readCondition, found]

theorem readTag?_unterminated {remainder : Text} (absent : ¬tagEnd <:+: remainder)
    (kind : BlockKind) :
    readTag? (unterminated kind remainder).source = some (.unterminated kind remainder, []) := by
  have missing := (Text.breakAt?_eq_none_iff_not_infix tagEnd remainder).mpr absent
  have member : (kind.openingLiteral, readCondition kind) ∈ tagReaders := by
    cases kind <;> simp [tagReaders]
  rw [source, readTag?_of_literal member, readCondition, missing]

theorem readTag?_divider (rest : Text) :
    readTag? (divider.source ++ rest) = some (.divider, rest) :=
  rfl

theorem readTag?_closing (kind : BlockKind) (rest : Text) :
    readTag? ((closing kind).source ++ rest) = some (.closing kind, rest) := by
  cases kind <;> rfl

theorem pushText_of_follows {content : Text} {tokens : List Token} (nonempty : content ≠ [])
    (follows : ∀ next ∈ tokens.head?, next.IsTag) :
    pushText content tokens = .text content :: tokens := by
  cases tokens with
  | nil => simp [pushText, nonempty]
  | cons next tokens =>
      cases next with
      | text first => exact (follows _ rfl).elim
      | opening kind written => simp [pushText, nonempty]
      | unterminated kind remainder => simp [pushText, nonempty]
      | divider => simp [pushText, nonempty]
      | closing kind => simp [pushText, nonempty]

theorem tokenize_plain_append {content : Text} {tokens : List Token} (plain : content.Plain)
    (nonempty : content ≠ []) (follows : ∀ next ∈ tokens.head?, next.IsTag)
    (same : tokenize (sources tokens) = tokens) :
    tokenize (content ++ sources tokens) = .text content :: tokens := by
  induction content with
  | nil => exact absurd rfl nonempty
  | cons c content ih =>
      have missing : readTag? (c :: content ++ sources tokens) = none :=
        (readTag?_eq_none_iff _).mpr fun literal member =>
          not_prefix_of_plain member plain nonempty follows
      rw [List.cons_append] at missing ⊢
      rw [tokenize_of_char missing]
      cases content with
      | nil => rw [List.nil_append, same, pushText_of_follows (by simp) follows]
      | cons d content =>
          rw [ih plain.tail (by simp)]
          rfl

theorem tokenize_sources {tokens : List Token} (lexed : Lexed tokens) :
    tokenize (sources tokens) = tokens := by
  induction tokens with
  | nil => simp
  | cons token tokens ih =>
      obtain ⟨here, next, later⟩ := (lexed_cons_iff _ _).mp lexed
      have same := ih later
      cases token with
      | text content => exact tokenize_plain_append here.2 here.1 next same
      | opening kind written =>
          rw [sources_cons, tokenize_of_tag (readTag?_opening here kind _), same]
      | unterminated kind remainder =>
          cases tokens with
          | nil =>
              rw [sources_cons, sources_nil, List.append_nil,
                tokenize_of_tag (readTag?_unterminated here kind), tokenize_nil]
          | cons second tokens => exact (next second rfl).elim
      | divider => rw [sources_cons, tokenize_of_tag (readTag?_divider _), same]
      | closing kind => rw [sources_cons, tokenize_of_tag (readTag?_closing kind _), same]

theorem isLexed_of_readTag? {text rest : Text} {tag : Token}
    (found : readTag? text = some (tag, rest)) :
    tag.IsLexed ∧ ((∃ kind remainder, tag = .unterminated kind remainder) → rest = []) := by
  obtain ⟨⟨literal, read⟩, member, result⟩ := List.exists_of_findSome?_eq_some found
  obtain ⟨after, _, same⟩ := Option.map_eq_some_iff.mp result
  have condition (kind : BlockKind) (same : readCondition kind after = (tag, rest)) :
      tag.IsLexed ∧ ((∃ kind remainder, tag = .unterminated kind remainder) → rest = []) := by
    rw [readCondition] at same
    split at same
    · rename_i written later broken
      cases same
      exact ⟨((Text.breakAt?_tagEnd_iff _ _ _).mp broken).2, by simp⟩
    · rename_i missing
      cases same
      exact ⟨(Text.breakAt?_eq_none_iff_not_infix _ _).mp missing, fun _ => rfl⟩
  simp only [tagReaders, List.mem_cons, Prod.mk.injEq, List.not_mem_nil, or_false] at member
  rcases member with ⟨_, rfl⟩ | ⟨_, rfl⟩ | ⟨_, rfl⟩ | ⟨_, rfl⟩ | ⟨_, rfl⟩
  · exact condition _ same
  · exact condition _ same
  · cases same
    exact ⟨trivial, by simp⟩
  · cases same
    exact ⟨trivial, by simp⟩
  · cases same
    exact ⟨trivial, by simp⟩

theorem plain_cons_of_readTag? {c : Char} {first after : Text}
    (missing : readTag? (c :: first ++ after) = none) (plain : first.Plain) :
    Text.Plain (c :: first) := by
  intro literal member inside
  rcases List.infix_cons_iff.mp inside with start | later
  · exact (readTag?_eq_none_iff _).mp missing literal member
      (List.prefix_append_of_prefix start)
  · exact plain literal member later

theorem plain_nil : Text.Plain [] := by
  intro literal member inside
  obtain ⟨c, tail, rfl, _⟩ := braces_of_mem_tagLiterals member
  simp at inside

theorem lexed_pushText {c : Char} {tokens : List Token}
    (missing : readTag? (c :: sources tokens) = none) (lexed : Lexed tokens) :
    Lexed (pushText [c] tokens) := by
  cases tokens with
  | nil =>
      rw [pushText_of_follows (by simp) (by simp), lexed_cons_iff]
      exact ⟨⟨by simp, plain_cons_of_readTag? missing plain_nil⟩, by simp, lexed⟩
  | cons next tokens =>
      have alone (isTag : next.IsTag) : Lexed (pushText [c] (next :: tokens)) := by
        have follows : ∀ other ∈ (next :: tokens).head?, other.IsTag := by simpa using isTag
        rw [pushText_of_follows (by simp) follows, lexed_cons_iff]
        exact ⟨⟨by simp, plain_cons_of_readTag? missing plain_nil⟩, follows, lexed⟩
      cases next with
      | text first =>
          obtain ⟨here, next, later⟩ := (lexed_cons_iff _ _).mp lexed
          refine (lexed_cons_iff _ _).mpr ⟨⟨by simp, ?_⟩, next, later⟩
          exact plain_cons_of_readTag? missing here.2
      | opening kind written => exact alone trivial
      | unterminated kind remainder => exact alone trivial
      | divider => exact alone trivial
      | closing kind => exact alone trivial

theorem lexed_tokenize (text : Text) : Lexed (tokenize text) := by
  induction size : text.length using Nat.strongRecOn generalizing text with
  | ind size ih =>
      cases found : readTag? text with
      | some read =>
          obtain ⟨tag, rest⟩ := read
          obtain ⟨here, ends⟩ := isLexed_of_readTag? found
          have shorter := length_lt_of_readTag? found
          rw [tokenize_of_tag found, lexed_cons_iff]
          refine ⟨here, ?_, ih rest.length (by omega) rest rfl⟩
          intro next member
          apply (isTag_of_readTag? found).mayPrecede_of_not_unterminated
          rintro kind remainder rfl
          rw [ends ⟨kind, remainder, rfl⟩] at member
          simp at member
      | none =>
          cases text with
          | nil =>
              rw [tokenize_nil]
              exact lexed_nil
          | cons c rest =>
              rw [tokenize_of_char found]
              apply lexed_pushText
              · rw [sources_tokenize]
                exact found
              · exact ih rest.length (by simp [← size]) rest rfl

theorem tokenize_sources_of_part {text : Text} {inner : List Token}
    (part : inner <:+: tokenize text) : tokenize (sources inner) = inner :=
  tokenize_sources ((lexed_tokenize text).of_part part)

end Token

end MailTemplate
