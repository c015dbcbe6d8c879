import MailTemplate.Markup.Match
import MailTemplate.Proofs.Markup.Lexed
import MailTemplate.Proofs.Text.Slice

/-!
Tokens as stretches of the source: what each of them is and which bytes it takes. A few conditions
on the stretches alone tell the tokens of a source from every other list.
-/

namespace MailTemplate

inductive TokenSort where
  | text
  | opening (kind : BlockKind) (written : Option Text)
  | divider
  | closing (kind : BlockKind)
  deriving DecidableEq, Repr

structure PlacedToken where
  sort : TokenSort
  span : Span
  deriving DecidableEq, Repr

namespace Token

def sort : Token → TokenSort
  | .text _ => .text
  | .opening kind written => .opening kind (some written)
  | .unterminated kind _ => .opening kind none
  | .divider => .divider
  | .closing kind => .closing kind

def placeFrom (start : Nat) : List Token → List PlacedToken
  | [] => []
  | token :: tokens =>
      ⟨token.sort, .ofText start token.source⟩ ::
        placeFrom (start + token.source.byteSize) tokens

def place (source : Text) : List PlacedToken :=
  placeFrom 0 (tokenize source)

end Token

/-- No end of a tag stands in `written ++ tagEnd` before the one at its end. -/
def Text.ReachesTagEnd (written : Text) : Prop :=
  ∀ before after, written ++ tagEnd = before ++ tagEnd ++ after → after = []

theorem Text.reachesTagEnd_iff_writable (written : Text) :
    written.ReachesTagEnd ↔ written.Writable := by
  constructor
  · intro reaches
    refine ⟨?_, ?_⟩
    · rintro ⟨before, after, same⟩
      have last := reaches before (after ++ tagEnd) (by simp [← same])
      simp [tagEnd] at last
    · intro last
      obtain ⟨before, same⟩ := List.getLast?_eq_some_iff.mp last
      have last := reaches before ['}'] (by simp [same, tagEnd])
      cases last
  · intro writable before after same
    have found : breakAt? tagEnd (written ++ tagEnd) = some (written, []) :=
      (breakAt?_tagEnd_iff _ _ _).mpr ⟨by simp, writable⟩
    have earliest := breakAt?_length_le found before after same
    have lengths := congrArg List.length same
    simp only [List.length_append] at lengths
    exact List.length_eq_zero_iff.mp (by omega)

def TokenSort.Writes (content : Text) : TokenSort → Prop
  | .text => content.Plain
  | .opening kind (some written) =>
      content = kind.openingLiteral ++ written ++ tagEnd ∧ written.ReachesTagEnd
  | .opening kind none =>
      ∃ remainder, content = kind.openingLiteral ++ remainder ∧ ¬tagEnd <:+: remainder
  | .divider => content = dividerLiteral
  | .closing kind => content = kind.closingLiteral

namespace PlacedToken

/-- The tokens take the bytes from `start` up to `stop`, each of them at least one and each from
where the one before it stops. -/
def Tiles (stop : Nat) : Nat → List PlacedToken → Prop
  | start, [] => start = stop
  | start, placed :: rest =>
      placed.span.start = start ∧ start < placed.span.stop ∧ Tiles stop placed.span.stop rest

structure IsTokenisation (source : Text) (placed : List PlacedToken) : Prop where
  tiles : Tiles source.byteSize 0 placed
  writes : ∀ token ∈ placed, ∃ content,
    source.slice? token.span.start token.span.stop = some content ∧ token.sort.Writes content
  apart : placed.IsChain fun first second => ¬(first.sort = .text ∧ second.sort = .text)
  last : ∀ token ∈ placed, ∀ kind, token.sort = .opening kind none →
    placed.getLast? = some token ∧ token.span.stop = source.byteSize

theorem Tiles.start_le {stop start : Nat} {placed : List PlacedToken}
    (tiles : Tiles stop start placed) : start ≤ stop := by
  induction placed generalizing start with
  | nil => exact Nat.le_of_eq tiles
  | cons head rest ih =>
      obtain ⟨_, positive, later⟩ := tiles
      have bound := ih later
      omega

theorem Tiles.eq_nil {stop : Nat} {placed : List PlacedToken} (tiles : Tiles stop stop placed) :
    placed = [] := by
  cases placed with
  | nil => rfl
  | cons head rest =>
      obtain ⟨_, positive, later⟩ := tiles
      have bound := later.start_le
      omega

end PlacedToken

namespace Token

theorem IsLexed.source_ne_nil {token : Token} (lexed : token.IsLexed) : token.source ≠ [] := by
  cases token with
  | text content => exact lexed.1
  | opening kind written => simp [source, BlockKind.openingLiteral]
  | unterminated kind remainder => simp [source, BlockKind.openingLiteral]
  | divider => simp [source, dividerLiteral]
  | closing kind => simp [source, BlockKind.closingLiteral]

theorem IsLexed.byteSize_pos {token : Token} (lexed : token.IsLexed) :
    0 < token.source.byteSize :=
  Nat.pos_of_ne_zero fun size => lexed.source_ne_nil (Text.eq_nil_of_byteSize size)

theorem IsLexed.writes {token : Token} (lexed : token.IsLexed) :
    token.sort.Writes token.source := by
  cases token with
  | text content => exact lexed.2
  | opening kind written => exact ⟨rfl, (Text.reachesTagEnd_iff_writable written).mpr lexed⟩
  | unterminated kind remainder => exact ⟨remainder, rfl, lexed⟩
  | divider => rfl
  | closing kind => rfl

theorem exists_of_writes {sort : TokenSort} {content : Text} (writes : sort.Writes content)
    (nonempty : content ≠ []) :
    ∃ token : Token, token.sort = sort ∧ token.source = content ∧ token.IsLexed := by
  cases sort with
  | text => exact ⟨.text content, rfl, rfl, nonempty, writes⟩
  | opening kind written =>
      cases written with
      | none =>
          obtain ⟨remainder, rfl, absent⟩ := writes
          exact ⟨.unterminated kind remainder, rfl, rfl, absent⟩
      | some written =>
          obtain ⟨rfl, reaches⟩ := writes
          exact ⟨.opening kind written, rfl, rfl, (Text.reachesTagEnd_iff_writable _).mp reaches⟩
  | divider =>
      cases writes
      exact ⟨.divider, rfl, rfl, trivial⟩
  | closing kind =>
      cases writes
      exact ⟨.closing kind, rfl, rfl, trivial⟩

theorem tiles_placeFrom {tokens : List Token} (lexed : ∀ token ∈ tokens, token.IsLexed)
    (start : Nat) :
    PlacedToken.Tiles (start + (sources tokens).byteSize) start (placeFrom start tokens) := by
  induction tokens generalizing start with
  | nil => rfl
  | cons token tokens ih =>
      rw [List.forall_mem_cons] at lexed
      have positive := lexed.1.byteSize_pos
      have later := ih lexed.2 (start + token.source.byteSize)
      rw [Nat.add_assoc, ← Text.byteSize_append, ← sources_cons] at later
      exact ⟨rfl, by simp only [Span.ofText]; omega, later⟩

theorem writes_placeFrom {tokens : List Token} (lexed : ∀ token ∈ tokens, token.IsLexed)
    (before : Text) :
    ∀ placed ∈ placeFrom before.byteSize tokens, ∃ content,
      (before ++ sources tokens).slice? placed.span.start placed.span.stop = some content ∧
        placed.sort.Writes content := by
  induction tokens generalizing before with
  | nil => simp [placeFrom]
  | cons token tokens ih =>
      rw [List.forall_mem_cons] at lexed
      rw [placeFrom, List.forall_mem_cons, sources_cons]
      constructor
      · refine ⟨token.source, ?_, lexed.1.writes⟩
        exact Text.slice?_of_split (List.append_assoc _ _ _).symm rfl rfl
      · have later := ih lexed.2 (before ++ token.source)
        rwa [Text.byteSize_append, List.append_assoc] at later

theorem apart_placeFrom_iff (start : Nat) (tokens : List Token) :
    ((placeFrom start tokens).IsChain fun first second =>
        ¬(first.sort = .text ∧ second.sort = .text)) ↔
      tokens.IsChain fun first second => ¬(first.sort = .text ∧ second.sort = .text) := by
  induction tokens generalizing start with
  | nil => simp [placeFrom]
  | cons token tokens ih =>
      have tail := ih (start + token.source.byteSize)
      cases tokens with
      | nil => simp [placeFrom]
      | cons next tokens =>
          rw [placeFrom, placeFrom, List.isChain_cons_cons, List.isChain_cons_cons, ← tail,
            placeFrom]

theorem eq_unterminated_of_sort {token : Token} {kind : BlockKind}
    (sort : token.sort = .opening kind none) : ∃ remainder, token = .unterminated kind remainder := by
  cases token with
  | unterminated other remainder =>
      cases sort
      exact ⟨remainder, rfl⟩
  | text content => cases sort
  | opening other written => cases sort
  | divider => cases sort
  | closing other => cases sort

theorem last_placeFrom {tokens : List Token} (lexed : Lexed tokens) (start : Nat) :
    ∀ placed ∈ placeFrom start tokens, ∀ kind, placed.sort = .opening kind none →
      (placeFrom start tokens).getLast? = some placed ∧
        placed.span.stop = start + (sources tokens).byteSize := by
  induction tokens generalizing start with
  | nil => simp [placeFrom]
  | cons token tokens ih =>
      obtain ⟨_, follows, later⟩ := (lexed_cons_iff _ _).mp lexed
      intro placed member kind sort
      rcases List.mem_cons.mp member with rfl | member
      · obtain ⟨remainder, rfl⟩ := eq_unterminated_of_sort sort
        cases tokens with
        | nil => simp [placeFrom, Span.ofText]
        | cons next tokens => exact (follows next rfl).elim
      · obtain ⟨last, stop⟩ := ih later _ placed member kind sort
        refine ⟨?_, ?_⟩
        · rw [placeFrom, List.getLast?_cons, last]
          rfl
        · rw [stop, sources_cons, Text.byteSize_append, Nat.add_assoc]

theorem mayPrecede_iff (first second : Token) :
    first.MayPrecede second ↔
      ¬(first.sort = .text ∧ second.sort = .text) ∧ ∀ kind, first.sort ≠ .opening kind none := by
  cases first with
  | text content => cases second <;> simp [MayPrecede, IsTag, sort]
  | opening kind written => simp [MayPrecede, sort]
  | unterminated kind remainder => simp [MayPrecede, sort]
  | divider => simp [MayPrecede, sort]
  | closing kind => simp [MayPrecede, sort]

theorem exists_of_tiles {text before after : Text} {placed : List PlacedToken}
    (split : text = before ++ after)
    (tiles : PlacedToken.Tiles text.byteSize before.byteSize placed)
    (writes : ∀ token ∈ placed, ∃ content,
      text.slice? token.span.start token.span.stop = some content ∧ token.sort.Writes content)
    (apart : placed.IsChain fun first second => ¬(first.sort = .text ∧ second.sort = .text))
    (last : ∀ token ∈ placed, ∀ kind, token.sort = .opening kind none →
      token.span.stop = text.byteSize) :
    ∃ tokens, Lexed tokens ∧ sources tokens = after ∧
      placeFrom before.byteSize tokens = placed := by
  induction placed generalizing before after with
  | nil =>
      have size : before.byteSize = text.byteSize := tiles
      rw [split, Text.byteSize_append] at size
      have none : after = [] := Text.eq_nil_of_byteSize (by omega)
      exact ⟨[], lexed_nil, none.symm, rfl⟩
  | cons head rest ih =>
      obtain ⟨start, positive, tiles⟩ := tiles
      rw [List.forall_mem_cons] at writes last
      obtain ⟨⟨content, found, writes⟩, laterWrites⟩ := writes
      obtain ⟨front, back, cut, size, stop⟩ := (Text.slice?_eq_some_iff _ _ _ _).mp found
      rw [List.append_assoc] at cut
      obtain ⟨rfl, rfl⟩ := Text.append_inj_of_byteSize (cut.symm.trans split) (size.trans start)
      have nonempty : content ≠ [] := by
        rintro rfl
        rw [Text.byteSize_nil] at stop
        omega
      obtain ⟨token, sort, rfl, here⟩ := exists_of_writes writes nonempty
      rw [start] at stop
      rw [← stop, ← Text.byteSize_append] at tiles
      obtain ⟨tokens, lexed, rfl, same⟩ := ih (by rw [cut, List.append_assoc]) tiles laterWrites
        apart.tail last.2
      have placement : placeFrom front.byteSize (token :: tokens) = head :: rest := by
        rw [placeFrom, ← Text.byteSize_append, same, sort, Span.ofText, stop, ← start]
      refine ⟨token :: tokens, ?_, sources_cons _ _, placement⟩
      refine (lexed_cons_iff _ _).mpr ⟨here, ?_, lexed⟩
      intro next member
      refine (mayPrecede_iff token next).mpr ⟨?_, ?_⟩
      · rw [← placement, apart_placeFrom_iff] at apart
        exact (List.isChain_cons.mp apart).1 next member
      · intro kind endless
        have whole := last.1 kind (sort ▸ endless)
        rw [whole] at stop
        rw [Text.byteSize_append, stop] at tiles
        rw [tiles.eq_nil] at same
        cases tokens with
        | nil => simp at member
        | cons other tokens => simp [placeFrom] at same

/-- The tokens of a source are the only stretches of it that meet the conditions. -/
theorem isTokenisation_iff_eq_place (source : Text) (placed : List PlacedToken) :
    PlacedToken.IsTokenisation source placed ↔ placed = place source := by
  constructor
  · intro tokenisation
    obtain ⟨tokens, lexed, rfl, same⟩ := exists_of_tiles (List.nil_append source).symm
      tokenisation.tiles tokenisation.writes tokenisation.apart
      fun token member kind sort => (tokenisation.last token member kind sort).2
    rw [place, tokenize_sources lexed]
    exact same.symm
  · rintro rfl
    have lexed := lexed_tokenize source
    have whole := sources_tokenize source
    have tiles := tiles_placeFrom lexed.1 0
    have writes := writes_placeFrom lexed.1 []
    have last := last_placeFrom lexed 0
    rw [whole, Nat.zero_add] at tiles last
    rw [whole, List.nil_append] at writes
    refine ⟨tiles, writes, ?_, last⟩
    rw [place, apart_placeFrom_iff]
    exact lexed.2.imp fun first second precedes => ((mayPrecede_iff first second).mp precedes).1

end Token

end MailTemplate
