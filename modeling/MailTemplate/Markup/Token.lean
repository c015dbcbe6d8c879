import MailTemplate.Text

/-!
The block markup of a template as tokens. A token carries the text it stands for, so the sources of
the tokens of a text, one after the other, are the text again.
-/

namespace MailTemplate

inductive BlockKind where
  | ifTrue
  | unlessTrue
  deriving DecidableEq, Repr

namespace BlockKind

def word : BlockKind → Text
  | .ifTrue => ['i', 'f']
  | .unlessTrue => ['u', 'n', 'l', 'e', 's', 's']

def openingLiteral (kind : BlockKind) : Text :=
  ['{', '{', '#'] ++ kind.word

def closingLiteral (kind : BlockKind) : Text :=
  ['{', '{', '/'] ++ kind.word ++ ['}', '}']

end BlockKind

def dividerLiteral : Text := ['{', '{', 'e', 'l', 's', 'e', '}', '}']

def tagEnd : Text := ['}', '}']

inductive Token where
  | text (content : Text)
  | opening (kind : BlockKind) (written : Text)
  | unterminated (kind : BlockKind) (remainder : Text)
  | divider
  | closing (kind : BlockKind)
  deriving DecidableEq, Repr

namespace Token

def source : Token → Text
  | .text content => content
  | .opening kind written => kind.openingLiteral ++ written ++ tagEnd
  | .unterminated kind remainder => kind.openingLiteral ++ remainder
  | .divider => dividerLiteral
  | .closing kind => kind.closingLiteral

def sources (tokens : List Token) : Text :=
  tokens.flatMap source

@[simp] theorem sources_nil : sources [] = [] := rfl

@[simp] theorem sources_cons (token : Token) (tokens : List Token) :
    sources (token :: tokens) = token.source ++ sources tokens := by
  simp [sources]

@[simp] theorem sources_append (first second : List Token) :
    sources (first ++ second) = sources first ++ sources second := by
  simp [sources]

/-- The opening tag whose literal stands just before `text`, and what follows the tag. The
condition ends at the first end of a tag. -/
def readCondition (kind : BlockKind) (text : Text) : Token × Text :=
  match Text.breakAt? tagEnd text with
  | some (written, rest) => (.opening kind written, rest)
  | none => (.unterminated kind text, [])

def tagReaders : List (Text × (Text → Token × Text)) :=
  [ (BlockKind.ifTrue.openingLiteral, readCondition .ifTrue),
    (BlockKind.unlessTrue.openingLiteral, readCondition .unlessTrue),
    (dividerLiteral, fun rest => (.divider, rest)),
    (BlockKind.ifTrue.closingLiteral, fun rest => (.closing .ifTrue, rest)),
    (BlockKind.unlessTrue.closingLiteral, fun rest => (.closing .unlessTrue, rest)) ]

def readTag? (text : Text) : Option (Token × Text) :=
  tagReaders.findSome? fun (literal, read) => (Text.after? literal text).map read

theorem readCondition_source (kind : BlockKind) (text : Text) :
    (readCondition kind text).1.source ++ (readCondition kind text).2 =
      kind.openingLiteral ++ text := by
  unfold readCondition
  split
  · rename_i written rest found
    simp [source, Text.eq_append_of_breakAt? found]
  · simp [source]

theorem tagReaders_source {literal : Text} {read : Text → Token × Text}
    (member : (literal, read) ∈ tagReaders) (text : Text) :
    (read text).1.source ++ (read text).2 = literal ++ text := by
  simp only [tagReaders, List.mem_cons, Prod.mk.injEq, List.not_mem_nil, or_false] at member
  rcases member with ⟨rfl, rfl⟩ | ⟨rfl, rfl⟩ | ⟨rfl, rfl⟩ | ⟨rfl, rfl⟩ | ⟨rfl, rfl⟩
  · exact readCondition_source _ _
  · exact readCondition_source _ _
  · rfl
  · rfl
  · rfl

theorem source_of_readTag? {text rest : Text} {tag : Token}
    (found : readTag? text = some (tag, rest)) : text = tag.source ++ rest := by
  obtain ⟨⟨literal, read⟩, member, result⟩ := List.exists_of_findSome?_eq_some found
  simp only [Option.map_eq_some_iff] at result
  obtain ⟨after, starts, same⟩ := result
  rw [Text.after?_eq_some_iff] at starts
  rw [starts, ← tagReaders_source member after, same]

theorem source_ne_nil_of_readTag? {text rest : Text} {tag : Token}
    (found : readTag? text = some (tag, rest)) : tag.source ≠ [] := by
  obtain ⟨⟨literal, read⟩, member, result⟩ := List.exists_of_findSome?_eq_some found
  simp only [Option.map_eq_some_iff] at result
  obtain ⟨after, _, same⟩ := result
  simp only [tagReaders, List.mem_cons, Prod.mk.injEq, List.not_mem_nil, or_false] at member
  rcases member with ⟨_, rfl⟩ | ⟨_, rfl⟩ | ⟨_, rfl⟩ | ⟨_, rfl⟩ | ⟨_, rfl⟩
  all_goals
    simp only [readCondition] at same
    try split at same
    all_goals
      cases same
      simp [source, dividerLiteral, BlockKind.openingLiteral, BlockKind.closingLiteral]

theorem length_lt_of_readTag? {text rest : Text} {tag : Token}
    (found : readTag? text = some (tag, rest)) : rest.length < text.length := by
  have split := source_of_readTag? found
  have nonempty := List.length_pos_iff.mpr (source_ne_nil_of_readTag? found)
  rw [split, List.length_append]
  omega

def textBefore (passed : Text) (tokens : List Token) : List Token :=
  if passed.isEmpty then tokens else .text passed.reverse :: tokens

def tokenizeFrom (passed text : Text) : List Token :=
  match _found : readTag? text with
  | some (tag, rest) => textBefore passed (tag :: tokenizeFrom [] rest)
  | none =>
      match text with
      | [] => textBefore passed []
      | c :: rest => tokenizeFrom (c :: passed) rest
termination_by text.length
decreasing_by
  · exact length_lt_of_readTag? _found
  · simp

/-- The tokens of a text: at each place a block tag if one starts there, and else one more
character of text. -/
def tokenize (text : Text) : List Token :=
  tokenizeFrom [] text

@[simp] theorem sources_textBefore (passed : Text) (tokens : List Token) :
    sources (textBefore passed tokens) = passed.reverse ++ sources tokens := by
  unfold textBefore
  split
  · rename_i none
    simp [List.isEmpty_iff.mp none]
  · simp [source]

theorem sources_tokenizeFrom (passed text : Text) :
    sources (tokenizeFrom passed text) = passed.reverse ++ text := by
  fun_induction tokenizeFrom passed text with
  | case1 passed text tag rest found ih =>
      simp [ih, ← source_of_readTag? found]
  | case2 passed _ => simp
  | case3 passed c rest _ ih => simpa using ih

/-- No character of the text is lost, added or moved. -/
theorem sources_tokenize (text : Text) : sources (tokenize text) = text := by
  simp [tokenize, sources_tokenizeFrom]

def pushText (content : Text) : List Token → List Token
  | .text first :: tokens => .text (content ++ first) :: tokens
  | tokens => if content.isEmpty then tokens else .text content :: tokens

def IsTag : Token → Prop
  | .text _ => False
  | .opening _ _ | .unterminated _ _ | .divider | .closing _ => True

theorem isTag_of_readTag? {text rest : Text} {tag : Token}
    (found : readTag? text = some (tag, rest)) : tag.IsTag := by
  obtain ⟨⟨literal, read⟩, member, result⟩ := List.exists_of_findSome?_eq_some found
  obtain ⟨after, _, same⟩ := Option.map_eq_some_iff.mp result
  simp only [tagReaders, List.mem_cons, Prod.mk.injEq, List.not_mem_nil, or_false] at member
  rcases member with ⟨_, rfl⟩ | ⟨_, rfl⟩ | ⟨_, rfl⟩ | ⟨_, rfl⟩ | ⟨_, rfl⟩
  · rw [readCondition] at same
    split at same <;> cases same <;> exact trivial
  · rw [readCondition] at same
    split at same <;> cases same <;> exact trivial
  · cases same
    exact trivial
  · cases same
    exact trivial
  · cases same
    exact trivial

theorem pushText_tag {tag : Token} (isTag : tag.IsTag) (passed : Text) (tokens : List Token) :
    pushText passed.reverse (tag :: tokens) = textBefore passed (tag :: tokens) := by
  cases tag with
  | text content => exact isTag.elim
  | opening kind written => simp [pushText, textBefore]
  | unterminated kind remainder => simp [pushText, textBefore]
  | divider => simp [pushText, textBefore]
  | closing kind => simp [pushText, textBefore]

theorem pushText_append (first second : Text) (tokens : List Token) (nonempty : second ≠ []) :
    pushText (first ++ second) tokens = pushText first (pushText second tokens) := by
  unfold pushText
  split
  · simp
  · simp [nonempty]

theorem tokenizeFrom_of_tag {text rest : Text} {tag : Token}
    (found : readTag? text = some (tag, rest)) (passed : Text) :
    tokenizeFrom passed text = textBefore passed (tag :: tokenize rest) := by
  rw [tokenizeFrom]
  split
  · rename_i other others here
    rw [found] at here
    cases here
    rfl
  · rename_i here
    rw [found] at here
    cases here

theorem tokenizeFrom_of_char {c : Char} {rest : Text} (missing : readTag? (c :: rest) = none)
    (passed : Text) : tokenizeFrom passed (c :: rest) = tokenizeFrom (c :: passed) rest := by
  rw [tokenizeFrom]
  split
  · rename_i here
    rw [missing] at here
    cases here
  · rfl

theorem tokenizeFrom_nil (passed : Text) : tokenizeFrom passed [] = textBefore passed [] := by
  rw [tokenizeFrom]
  split
  · rename_i here
    cases here
  · rfl

theorem tokenizeFrom_eq_pushText (passed text : Text) :
    tokenizeFrom passed text = pushText passed.reverse (tokenize text) := by
  induction size : text.length generalizing passed text with
  | zero =>
      rw [List.length_eq_zero_iff.mp size, tokenize, tokenizeFrom_nil, tokenizeFrom_nil]
      simp [textBefore, pushText]
  | succ length ih =>
      cases found : readTag? text with
      | some read =>
          rw [tokenize, tokenizeFrom_of_tag found, tokenizeFrom_of_tag found]
          exact (pushText_tag (isTag_of_readTag? found) passed _).symm
      | none =>
          cases text with
          | nil => cases size
          | cons c rest =>
              have shorter : rest.length = length := by simpa using size
              rw [tokenize, tokenizeFrom_of_char found, tokenizeFrom_of_char found,
                ih (c :: passed) rest shorter, ih [c] rest shorter, List.reverse_cons]
              exact pushText_append passed.reverse [c] (tokenize rest) (by simp)

@[simp] theorem tokenize_nil : tokenize [] = [] := by
  rw [tokenize, tokenizeFrom_nil]
  rfl

theorem tokenize_of_tag {text rest : Text} {tag : Token}
    (found : readTag? text = some (tag, rest)) : tokenize text = tag :: tokenize rest := by
  rw [tokenize, tokenizeFrom_of_tag found []]
  rfl

theorem tokenize_of_char {c : Char} {rest : Text} (missing : readTag? (c :: rest) = none) :
    tokenize (c :: rest) = pushText [c] (tokenize rest) := by
  rw [tokenize, tokenizeFrom_of_char missing [], tokenizeFrom_eq_pushText]
  rfl

end Token

end MailTemplate
