import MailTemplate.Markup.Token

/-!
The first conditional block of a list of tokens. Opening tags of either kind go one level down and
closing tags of either kind one level up; the closing tag at the level of the opening tag ends the
block, and the first divider at that level separates its branches.
-/

namespace MailTemplate

structure Options where
  /-- Whether a block must be closed by a tag of its own kind. Otherwise the first closing tag at
  the level of the block closes it, of whatever kind. -/
  strictClosers : Bool := false
  deriving DecidableEq, Repr

namespace Options

def lenient : Options := ⟨false⟩

def strict : Options := ⟨true⟩

end Options

structure Body where
  content : List Token
  closer : BlockKind
  rest : List Token
  deriving DecidableEq, Repr

namespace Body

def push (token : Token) (body : Body) : Body :=
  { body with content := token :: body.content }

/-- Reads the body of a block, `depth` blocks inside of it. -/
def read? (depth : Nat) : List Token → Option Body
  | [] => none
  | token :: tokens =>
      match token with
      | .closing kind =>
          if depth = 0 then some ⟨[], kind, tokens⟩
          else (read? (depth - 1) tokens).map (push token)
      | .opening _ _ | .unterminated _ _ => (read? (depth + 1) tokens).map (push token)
      | .text _ | .divider => (read? depth tokens).map (push token)

theorem tokens_of_read? {depth : Nat} {tokens : List Token} {body : Body}
    (found : read? depth tokens = some body) :
    tokens = body.content ++ .closing body.closer :: body.rest := by
  induction tokens generalizing depth body with
  | nil => simp [read?] at found
  | cons token tokens ih =>
      have later {inner : Nat}
          (found : (read? inner tokens).map (push token) = some body) :
          token :: tokens = body.content ++ .closing body.closer :: body.rest := by
        obtain ⟨tail, read, rfl⟩ := Option.map_eq_some_iff.mp found
        simp [push, ← ih read]
      cases token with
      | closing kind =>
          simp only [read?] at found
          split at found
          · cases found
            rfl
          · exact later found
      | opening kind written => exact later found
      | unterminated kind remainder => exact later found
      | text content => exact later found
      | divider => exact later found

end Body

structure Branches where
  consequent : List Token
  alternative : Option (List Token)
  deriving DecidableEq, Repr

namespace Branches

def content (branches : Branches) : List Token :=
  match branches.alternative with
  | none => branches.consequent
  | some alternative => branches.consequent ++ .divider :: alternative

def push (token : Token) (branches : Branches) : Branches :=
  { branches with consequent := token :: branches.consequent }

@[simp] theorem content_push (token : Token) (branches : Branches) :
    (branches.push token).content = token :: branches.content := by
  unfold content push
  cases branches.alternative <;> rfl

def split (depth : Nat) : List Token → Branches
  | [] => ⟨[], none⟩
  | token :: tokens =>
      match token with
      | .divider =>
          if depth = 0 then ⟨[], some tokens⟩
          else (split depth tokens).push token
      | .closing _ => (split (depth - 1) tokens).push token
      | .opening _ _ | .unterminated _ _ => (split (depth + 1) tokens).push token
      | .text _ => (split depth tokens).push token

@[simp] theorem content_split (depth : Nat) (tokens : List Token) :
    (split depth tokens).content = tokens := by
  induction tokens generalizing depth with
  | nil => rfl
  | cons token tokens ih =>
      cases token with
      | divider =>
          simp only [split]
          split
          · rfl
          · simp [ih]
      | closing kind => simp [split, ih]
      | opening kind written => simp [split, ih]
      | unterminated kind remainder => simp [split, ih]
      | text content => simp [split, ih]

end Branches

structure FoundBlock where
  kind : BlockKind
  written : Text
  branches : Branches
  closer : BlockKind
  deriving DecidableEq, Repr

namespace FoundBlock

def openingTag (block : FoundBlock) : Token :=
  .opening block.kind block.written

def closingTag (block : FoundBlock) : Token :=
  .closing block.closer

def tokens (block : FoundBlock) : List Token :=
  block.openingTag :: block.branches.content ++ [block.closingTag]

end FoundBlock

inductive Malformed where
  | unterminatedTag (kind : BlockKind)
  | unclosed (kind : BlockKind) (written : Text)
  | mismatchedClose (kind : BlockKind) (written : Text) (content : List Token) (found : BlockKind)
  deriving DecidableEq, Repr

inductive Scan where
  | literal
  | malformed (before : List Token) (reason : Malformed)
  | block (before : List Token) (found : FoundBlock) (rest : List Token)
  deriving DecidableEq, Repr

namespace Scan

def push (token : Token) : Scan → Scan
  | .literal => .literal
  | .malformed before reason => .malformed (token :: before) reason
  | .block before found rest => .block (token :: before) found rest

def ofBody (options : Options) (kind : BlockKind) (written : Text) (body : Body) : Scan :=
  if options.strictClosers ∧ kind ≠ body.closer then
    .malformed [] (.mismatchedClose kind written body.content body.closer)
  else
    .block [] ⟨kind, written, .split 0 body.content, body.closer⟩ body.rest

def ofTokens (options : Options) : List Token → Scan
  | [] => .literal
  | token :: tokens =>
      match token with
      | .opening kind written =>
          match Body.read? 0 tokens with
          | some body => ofBody options kind written body
          | none => .malformed [] (.unclosed kind written)
      | .unterminated kind _ => .malformed [] (.unterminatedTag kind)
      | .text _ | .divider | .closing _ => (ofTokens options tokens).push token

theorem tokens_of_block {options : Options} {tokens before rest : List Token} {found : FoundBlock}
    (scanned : ofTokens options tokens = .block before found rest) :
    tokens = before ++ found.tokens ++ rest := by
  induction tokens generalizing before with
  | nil => cases scanned
  | cons token tokens ih =>
      have later (scanned : (ofTokens options tokens).push token = .block before found rest) :
          token :: tokens = before ++ found.tokens ++ rest := by
        cases tail : ofTokens options tokens with
        | literal => simp [tail, push] at scanned
        | malformed inner reason => simp [tail, push] at scanned
        | block inner nested after =>
            simp only [tail, push, Scan.block.injEq] at scanned
            obtain ⟨rfl, rfl, rfl⟩ := scanned
            simp [ih tail]
      cases token with
      | text content => exact later scanned
      | divider => exact later scanned
      | closing kind => exact later scanned
      | unterminated kind remainder => cases scanned
      | opening kind written =>
          simp only [ofTokens] at scanned
          split at scanned
          · rename_i body read
            unfold ofBody at scanned
            split at scanned
            · cases scanned
            · cases scanned
              simp [FoundBlock.tokens, FoundBlock.openingTag, FoundBlock.closingTag,
                Body.tokens_of_read? read]
          · cases scanned

theorem length_lt_of_block {options : Options} {tokens before rest : List Token}
    {found : FoundBlock} (scanned : ofTokens options tokens = .block before found rest) :
    found.branches.consequent.length < tokens.length ∧
      (found.branches.alternative.getD []).length < tokens.length ∧
        rest.length < tokens.length := by
  rw [tokens_of_block scanned]
  cases same : found.branches.alternative <;>
    simp only [FoundBlock.tokens, Branches.content, same, List.length_append, List.length_cons,
      Option.getD_none, Option.getD_some, List.length_nil] <;> omega

end Scan

end MailTemplate
