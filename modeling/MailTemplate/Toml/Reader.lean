import MailTemplate.Toml.Quoted
import MailTemplate.Toml.Scalar

/-!
Reading TOML documents: lines that define tables and lines that assign values, with comments and
blank lines between them.
-/

namespace MailTemplate
namespace Toml

def skipSpace (text : Text) : Text :=
  text.dropWhile isSpace

def isKeyChar (c : Char) : Bool :=
  c.isAlphanum || c = '_' || c = '-'

def readKeyPart? (steps : Nat) (text : Text) : Option (Text × Text) :=
  match readLine? steps text with
  | some part => some part
  | none =>
      let word := text.takeWhile isKeyChar
      if word.isEmpty then none else some (word, text.dropWhile isKeyChar)

def readKeyFrom? (bound : Nat) (earlier : List Text) : Nat → Text → Option (List Text × Text)
  | 0, _ => none
  | steps + 1, text =>
      match readKeyPart? bound (skipSpace text) with
      | none => none
      | some (part, rest) =>
          match skipSpace rest with
          | '.' :: rest => readKeyFrom? bound (part :: earlier) steps rest
          | rest => some ((part :: earlier).reverse, rest)

def readKey? (steps : Nat) (text : Text) : Option ((List Text × Text) × Text) := do
  let (parts, rest) ← readKeyFrom? steps [] steps text
  let last ← parts.getLast?
  pure ((parts.dropLast, last), rest)

def endLine? (text : Text) : Option Text :=
  let rest :=
    match skipSpace text with
    | '#' :: comment => comment.dropWhile fun c => !isControl c
    | rest => rest
  match rest with
  | [] => some []
  | rest => afterNewline? rest

def skipLines (steps : Nat) (text : Text) : Text :=
  match steps with
  | 0 => text
  | steps + 1 =>
      match skipSpace text with
      | [] => []
      | rest =>
          match endLine? rest with
          | some rest => skipLines steps rest
          | none => rest

def readItems? (bound : Nat) (readItem? : Text → Option (Toml × Text)) (earlier : List Toml) :
    Nat → Text → Option (List Toml × Text)
  | 0, _ => none
  | steps + 1, text =>
      match skipLines bound text with
      | ']' :: rest => some (earlier.reverse, rest)
      | text =>
          match readItem? text with
          | none => none
          | some (item, rest) =>
              match skipLines bound rest with
              | ',' :: rest => readItems? bound readItem? (item :: earlier) steps rest
              | ']' :: rest => some ((item :: earlier).reverse, rest)
              | _ => none

def readAssignment? {α : Type} (steps : Nat) (skip : Text → Text)
    (readItem? : Text → Option (Toml × Text)) (assign? : List Text → Text → Toml → Option α)
    (text : Text) : Option (α × Text) := do
  let ((path, key), rest) ← readKey? steps text
  let rest ← Text.after? ['='] (skip rest)
  let (value, rest) ← readItem? (skip rest)
  let assigned ← assign? path key value
  pure (assigned, rest)

/-- Assignments with commas between them up to a closing brace, added to a table. As between
brackets, lines may end anywhere and a comma may stand after the last assignment. -/
def readInline? (bound : Nat) (readItem? : Text → Option (Toml × Text)) (base : TomlTable) :
    Nat → Text → Option (TomlTable × Text)
  | 0, _ => none
  | steps + 1, text =>
      let assign? (path : List Text) (key : Text) (value : Toml) := base.assign? path key value
      match skipLines bound text with
      | '}' :: rest => some (base, rest)
      | text =>
          match readAssignment? bound (skipLines bound) readItem? assign? text with
          | none => none
          | some (filled, rest) =>
              match skipLines bound rest with
              | ',' :: rest => readInline? bound readItem? filled steps rest
              | '}' :: rest => some (filled, rest)
              | _ => none

def maxDepth : Nat := 80

def readScalar? (steps : Nat) (text : Text) : Option (Toml × Text) :=
  match readString? steps text with
  | some (value, rest) => some (.string value, rest)
  | none =>
      let (word, rest) := takeWord text
      (ofWord? word).map fun value => (value, rest)

def readValue? (steps : Nat) : Nat → Text → Option (Toml × Text)
  | 0, text => readScalar? steps text
  | depth + 1, text =>
      match text with
      | '[' :: rest =>
          (readItems? steps (readValue? steps depth) [] steps rest).map fun (items, rest) =>
            (.array items, rest)
      | '{' :: rest =>
          (readInline? steps (readValue? steps depth) ⟨.inline, []⟩ steps rest).map
            fun (filled, rest) => (filled.toToml, rest)
      | text => readScalar? steps text

structure Draft where
  root : TomlTable
  current : List Text

namespace Draft

def assign? (draft : Draft) (path : List Text) (key : Text) (value : Toml) : Option Draft :=
  (TomlTable.update? false (TomlTable.assign? path key value) draft.current draft.root).map
    fun root => ⟨root, draft.current⟩

def readHeader? (steps : Nat) (closing : Text)
    (change : List Text → Text → TomlTable → Option TomlTable) (draft : Draft) (text : Text) :
    Option (Draft × Text) := do
  let ((path, key), rest) ← readKey? steps text
  let rest ← Text.after? closing rest
  let root ← change path key draft.root
  pure (⟨root, path ++ [key]⟩, rest)

def readLine? (steps : Nat) (draft : Draft) (text : Text) : Option (Draft × Text) :=
  match text with
  | [] => some (draft, [])
  | '[' :: '[' :: rest => readHeader? steps [']', ']'] TomlTable.extend? draft rest
  | '[' :: rest => readHeader? steps [']'] TomlTable.define? draft rest
  | c :: rest =>
      if c = '#' ∨ c = '\n' ∨ c = '\r' then some (draft, c :: rest)
      else readAssignment? steps skipSpace (readValue? steps maxDepth) draft.assign? (c :: rest)

def readLines? (bound : Nat) : Nat → Draft → Text → Option TomlTable
  | 0, _, _ => none
  | steps + 1, draft, text =>
      match skipSpace text with
      | [] => some draft.root
      | text =>
          match readLine? bound draft text with
          | none => none
          | some (draft, rest) =>
              match endLine? rest with
              | none => none
              | some rest => readLines? bound steps draft rest

end Draft

def ofText? (text : Text) : Option TomlTable :=
  let text :=
    match text with
    | '\ufeff' :: rest => rest
    | text => text
  Draft.readLines? (text.length + 1) (text.length + 1) ⟨.root, []⟩ text

end Toml
end MailTemplate
