import Mathlib.Logic.Relation
import MailTemplate.Proofs.Markup.Finding
import MailTemplate.Proofs.Markup.Match
import MailTemplate.Proofs.Markup.Standing

/-!
Parts of the tokens of a source. The text of a part, cut out of the source and read by itself, has
the same tokens at the same distances, so that nothing around a part changes how it is read.
-/

namespace MailTemplate

def PlacedToken.shift (distance : Nat) (placed : PlacedToken) : PlacedToken :=
  ⟨placed.sort, placed.span.start + distance, placed.span.stop + distance⟩

/-- The parts of some tokens that the search for a block hands on, each to be read by itself. -/
inductive Scan.HandsOn (options : Options) (tokens : List Token) : List Token → Prop
  | unopened {before : List Token} {reason : Malformed}
      (scanned : ofTokens options tokens = .malformed before reason) : HandsOn options tokens before
  | before {before rest : List Token} {found : FoundBlock}
      (scanned : ofTokens options tokens = .block before found rest) : HandsOn options tokens before
  | block {before rest : List Token} {found : FoundBlock}
      (scanned : ofTokens options tokens = .block before found rest) :
      HandsOn options tokens found.tokens
  | branch {before rest : List Token} {found : FoundBlock} (first : Bool)
      (scanned : ofTokens options tokens = .block before found rest) :
      HandsOn options tokens (found.branch first)
  | rest {before rest : List Token} {found : FoundBlock}
      (scanned : ofTokens options tokens = .block before found rest) : HandsOn options tokens rest

theorem Scan.HandsOn.part {options : Options} {tokens part : List Token}
    (hands : HandsOn options tokens part) : part <:+: tokens := by
  cases hands with
  | unopened scanned => exact (prefix_of_malformed scanned).isInfix
  | @before _ rest found scanned =>
      exact ⟨[], found.tokens ++ rest, by simp [tokens_of_block scanned]⟩
  | @block before rest found scanned => exact ⟨before, rest, (tokens_of_block scanned).symm⟩
  | @branch before rest found first scanned =>
      exact (found.branch_part_tokens first).trans ⟨before, rest, (tokens_of_block scanned).symm⟩
  | @rest before _ found scanned =>
      exact ⟨before ++ found.tokens, [], by simp [tokens_of_block scanned]⟩

namespace Token

variable (start distance : Nat) (tokens : List Token)

theorem length_placeFrom : (placeFrom start tokens).length = tokens.length := by
  induction tokens generalizing start with
  | nil => rfl
  | cons token tokens ih => rw [placeFrom, List.length_cons, ih, List.length_cons]

theorem placeFrom_add :
    placeFrom (start + distance) tokens = (placeFrom start tokens).map (.shift distance) := by
  induction tokens generalizing start with
  | nil => rfl
  | cons token tokens ih =>
      have later := ih (start + token.source.byteSize)
      rw [Nat.add_right_comm] at later
      rw [placeFrom, placeFrom, List.map_cons, later]
      simp only [PlacedToken.shift, Span.ofText, Nat.add_right_comm]

theorem placeFrom_take (count : Nat) :
    (placeFrom start tokens).take count = placeFrom start (tokens.take count) := by
  induction tokens generalizing start count with
  | nil => simp [placeFrom]
  | cons token tokens ih =>
      cases count with
      | zero => rfl
      | succ count => rw [placeFrom, List.take_succ_cons, List.take_succ_cons, placeFrom, ih]

theorem placeFrom_drop (count : Nat) :
    (placeFrom start tokens).drop count =
      placeFrom (start + (sources (tokens.take count)).byteSize) (tokens.drop count) := by
  induction tokens generalizing start count with
  | nil => simp [placeFrom]
  | cons token tokens ih =>
      cases count with
      | zero => rfl
      | succ count =>
          rw [placeFrom, List.drop_succ_cons, List.drop_succ_cons, List.take_succ_cons, ih,
            sources_cons, Text.byteSize_append, Nat.add_assoc]

variable {start tokens}

theorem getElem_placeFrom {index : Nat} (bound : index < (placeFrom start tokens).length) :
    have below : index < tokens.length := length_placeFrom start tokens ▸ bound
    (placeFrom start tokens)[index] =
      tokens[index].placedAt (start + (sources (tokens.take index)).byteSize) := by
  intro below
  have later := placeFrom_drop start tokens index
  rw [List.drop_eq_getElem_cons bound, List.drop_eq_getElem_cons below, placeFrom] at later
  exact (List.cons.inj later).1

theorem stop_getElem_placeFrom {index : Nat} (bound : index < (placeFrom start tokens).length) :
    ((placeFrom start tokens)[index]).span.stop =
      start + (sources (tokens.take (index + 1))).byteSize := by
  have below : index < tokens.length := length_placeFrom start tokens ▸ bound
  rw [getElem_placeFrom bound, List.take_succ_eq_append_getElem below, sources_append,
    Text.byteSize_append, sources_cons, sources_nil, List.append_nil, ← Nat.add_assoc]
  rfl

variable {source : Text} {part : List Token}

theorem place_sources_of_part (inside : part <:+: tokenize source) :
    placeFrom distance part = (place (sources part)).map (.shift distance) := by
  rw [place, tokenize_sources_of_part inside, ← placeFrom_add, Nat.zero_add]

theorem part_of_handsOn {options : Options}
    (hands : Relation.ReflTransGen (Scan.HandsOn options) (tokenize source) part) :
    part <:+: tokenize source := by
  induction hands with
  | refl => exact List.infix_rfl
  | tail _ step ih => exact step.part.trans ih

/-- The text from one token of a source up to a later one has exactly these tokens when it is read
by itself, at their distances from the first of them. So does the text of each part of the tokens
that reading them comes to. -/
theorem place_slice (options : Options) (source : Text) :
    (∀ (first last : Nat) (ordered : first < last) (bound : last ≤ (place source).length),
      let start := (place source)[first].span.start
      ∃ inside, source.slice? start (place source)[last - 1].span.stop = some inside ∧
        (place source).extract first last = (place inside).map (.shift start)) ∧
    ∀ part, Relation.ReflTransGen (Scan.HandsOn options) (tokenize source) part →
      tokenize (sources part) = part := by
  constructor
  · intro first last ordered bound start
    let before := (tokenize source).take first
    let part := ((tokenize source).drop first).take (last - first)
    have front : before ++ part = (tokenize source).take last := by
      rw [← List.take_add, Nat.add_sub_cancel' (Nat.le_of_lt ordered)]
    have split :
        source = sources before ++ sources part ++ sources ((tokenize source).drop last) := by
      rw [← sources_append, front, ← sources_append, List.take_append_drop, sources_tokenize]
    have starts : start = (sources before).byteSize := by
      simp only [start, place, getElem_placeFrom, placedAt, Span.ofText, Nat.zero_add, before]
    have stops : (place source)[last - 1].span.stop =
        (sources before).byteSize + (sources part).byteSize := by
      rw [← Text.byteSize_append, ← sources_append, front]
      have upTo := Nat.sub_add_cancel (Nat.one_le_of_lt ordered)
      simp only [place, stop_getElem_placeFrom, Nat.zero_add, upTo]
    have inside : part <:+: tokenize source :=
      (List.take_prefix _ _).isInfix.trans (List.drop_suffix _ _).isInfix
    refine ⟨sources part, Text.slice?_of_split split starts.symm stops.symm, ?_⟩
    rw [List.extract_eq_take_drop, place, placeFrom_drop, placeFrom_take, Nat.zero_add, starts]
    exact place_sources_of_part _ inside
  · intro part hands
    exact tokenize_sources_of_part (part_of_handsOn hands)

def ragged : List Token :=
  [.text ['{'], .opening .ifTrue [' ', '{', '{', '/', 'i', 'f'], .text ['}', 'x', '{', '{', 'e'],
    .unterminated .unlessTrue ['y', '}']]

theorem tokenize_ragged : tokenize (sources ragged) = ragged := by
  have writable : Text.Writable [' ', '{', '{', '/', 'i', 'f'] := by decide
  have brace : Text.Plain ['{'] := by decide
  have braces : Text.Plain ['}', 'x', '{', '{', 'e'] := by decide
  have endless : ¬tagEnd <:+: ['y', '}'] := by decide
  apply tokenize_sources
  simp [ragged, lexed_cons_iff, lexed_nil, IsLexed, MayPrecede, IsTag, writable, brace, braces,
    endless]

theorem place_slice_ragged :
    4 ≤ (place (sources ragged)).length ∧
      (place (sources ragged)).extract 1 4 =
        (place (sources (ragged.drop 1))).map (.shift 1) ∧
      Scan.HandsOn .lenient (tokenize (sources ragged)) [.text ['{']] ∧
      tokenize (sources [.text ['{']]) = [.text ['{']] := by
  have placed : place (sources ragged) = placeFrom 0 ragged := by rw [place, tokenize_ragged]
  have bound : 4 ≤ (place (sources ragged)).length := by
    rw [placed]
    decide
  have scanned : Scan.ofTokens .lenient ragged =
      .malformed [.text ['{']] (.unclosed .ifTrue [' ', '{', '{', '/', 'i', 'f']) := by decide
  have hands : Scan.HandsOn .lenient (tokenize (sources ragged)) [.text ['{']] :=
    tokenize_ragged.symm ▸ .unopened scanned
  obtain ⟨parts, handed⟩ := place_slice .lenient (sources ragged)
  obtain ⟨inside, cut, same⟩ := parts 1 4 (by decide) bound
  have start : (place (sources ragged))[1].span.start = 1 := by
    simp only [placed]
    rfl
  have stop : (place (sources ragged))[4 - 1].span.stop = (sources ragged).byteSize := by
    simp only [placed]
    rfl
  have whole : (sources ragged).slice? 1 (sources ragged).byteSize =
      some (sources (ragged.drop 1)) := by decide
  rw [start, stop, whole, Option.some.injEq] at cut
  rw [start, ← cut] at same
  exact ⟨bound, same, hands, handed _ (.single hands)⟩

end Token

end MailTemplate
