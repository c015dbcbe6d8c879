import MailTemplate.Context.Decode
import MailTemplate.Files.Tree
import MailTemplate.Markup.Block
import MailTemplate.Toml.Reader

/-!
The configuration of a project: how its templates are read, default values for their variables, and
how long a loaded context is kept. It stands in a file at one of some places below the root of the
project.
-/

namespace MailTemplate

structure Config where
  options : Options
  context : Context
  ttlSeconds : Nat
  deriving DecidableEq, Repr

namespace Config

def defaultTtlSeconds : Nat := 300

def default : Config := ⟨.lenient, .empty, defaultTtlSeconds⟩

def equals (first second : Config) : Bool :=
  first.options = second.options && first.context.equals second.context &&
    first.ttlSeconds = second.ttlSeconds

def contextFor (config : Config) (recipient : Context) : Context :=
  .layered [config.context, recipient]

def fitsWord (value : Int) : Bool :=
  -Nat.pow 2 63 ≤ value && value < Nat.pow 2 64

def stringsOfToml? : List Toml → Option (List Text)
  | [] => some []
  | .string item :: items => (stringsOfToml? items).map (item :: ·)
  | _ :: _ => none

def valueOfToml? : Toml → Option Value
  | .bool value => some (.bool value)
  | .integer value => if fitsWord value then some (.ofInt value) else none
  | .float value => some (.number value)
  | .string value => some (.string value)
  | .array items => (stringsOfToml? items).map .array
  | .moment _ | .table _ _ | .tables _ => none

def bindingsOfToml? : List (Text × Toml) → Option (List (Text × Value))
  | [] => some []
  | (name, toml) :: entries => do
      let value ← valueOfToml? toml
      let bindings ← bindingsOfToml? entries
      pure ((name, value) :: bindings)

def contextOfToml? (toml : Toml) : Option Context := do
  let bindings ← bindingsOfToml? (← toml.entries?)
  pure (.ofList bindings)

/-- The only setting of a section, by its name in a table or by its place in an array. A missing
setting has its default. -/
def settingOfToml? {α : Type} (key : Text) (missing : α) (read? : Toml → Option α) :
    Toml → Option α
  | .array [] => some missing
  | .array (item :: _) => read? item
  | toml =>
      match toml.entries? with
      | none => none
      | some entries =>
          match Entries.get? entries key with
          | none => some missing
          | some setting => read? setting

def strictClosersOfToml? : Toml → Option Bool
  | .bool value => some value
  | _ => none

def ttlOfToml? : Toml → Option Nat
  | .integer value => if 0 ≤ value ∧ fitsWord value then some value.toNat else none
  | _ => none

def renderKey : Text := ['r', 'e', 'n', 'd', 'e', 'r']

def strictClosersKey : Text :=
  ['s', 't', 'r', 'i', 'c', 't', '_', 'c', 'l', 'o', 's', 'e', 'r', 's']

def contextKey : Text := ['c', 'o', 'n', 't', 'e', 'x', 't']

def cacheKey : Text := ['c', 'a', 'c', 'h', 'e']

def ttlSecondsKey : Text := ['t', 't', 'l', '_', 's', 'e', 'c', 'o', 'n', 'd', 's']

def section? {α : Type} (document : TomlTable) (key : Text) (missing : α)
    (read? : Toml → Option α) : Option α :=
  match document.get? key with
  | none => some missing
  | some toml => read? toml

/-- The configuration that a document holds. Unknown sections and settings are passed over. -/
def ofDocument? (document : TomlTable) : Option Config := do
  let strictClosers ← section? document renderKey false
    (settingOfToml? strictClosersKey false strictClosersOfToml?)
  let context ← section? document contextKey .empty contextOfToml?
  let ttlSeconds ← section? document cacheKey defaultTtlSeconds
    (settingOfToml? ttlSecondsKey defaultTtlSeconds ttlOfToml?)
  pure ⟨⟨strictClosers⟩, context, ttlSeconds⟩

def ofText (text : Text) : Except Error Config :=
  match (Toml.ofText? text).bind ofDocument? with
  | some config => .ok config
  | none => .error .config

/-- The places of the configuration below the root of a project; an earlier one hides the later
ones. -/
def candidates : List Text :=
  ["blockmail.toml".toList, ".blockmail.toml".toList, ".config/blockmail.toml".toList]

def place? (files : Files) (root : Text) : Option Text :=
  candidates.find? fun candidate => files.isFile (Files.join root candidate)

def load (files : Files) (root : Text) : Except Error (Option Config) :=
  match place? files root with
  | none => .ok none
  | some candidate =>
      match files.read (Files.join root candidate) with
      | .error cause => .error (.file cause)
      | .ok text => (ofText text).map some

end Config

end MailTemplate
