import MailTemplate.Entries
import MailTemplate.Toml.Moment

/-!
TOML documents. A table remembers how it came about, because that decides what may still be added
to it: tables are defined once, and inline tables are complete as they stand.
-/

namespace MailTemplate

inductive TableOrigin where
  | implied
  | dotted
  | header
  | inline
  deriving DecidableEq, Repr

inductive Toml where
  | bool (value : Bool)
  | integer (value : Int)
  | float (value : Double)
  | string (value : Text)
  | moment (value : Moment)
  | array (items : List Toml)
  | table (origin : TableOrigin) (entries : List (Text × Toml))
  /-- The tables that headers in double brackets have defined, the latest first. -/
  | tables (items : List (List (Text × Toml)))
  deriving Repr

/-- The key under which a moment that stands for a table has its text. -/
def momentKey : Text := "$__toml_private_datetime".toList

namespace Toml

def entries? : Toml → Option (List (Text × Toml))
  | .table _ entries => some entries
  | .moment value => some [(momentKey, .string value.text)]
  | _ => none

end Toml

structure TomlTable where
  origin : TableOrigin
  entries : List (Text × Toml)
  deriving Repr

namespace TomlTable

def root : TomlTable := ⟨.header, []⟩

def toToml (table : TomlTable) : Toml :=
  .table table.origin table.entries

def get? (table : TomlTable) (key : Text) : Option Toml :=
  Entries.get? table.entries key

def set (table : TomlTable) (key : Text) (value : Toml) : TomlTable :=
  { table with entries := (key, value) :: table.entries.filter fun entry => entry.1 ≠ key }

/-- Changes the table at the end of a path. Missing tables on the way are made; a path leads
through the latest of several tables, never through other values. The path of a dotted key does
not lead into tables that a header has defined. -/
def update? (dotted : Bool) (change : TomlTable → Option TomlTable) :
    List Text → TomlTable → Option TomlTable
  | [], table => change table
  | key :: path, table =>
      match table.get? key with
      | none =>
          let made : TomlTable := ⟨if dotted then .dotted else .implied, []⟩
          (update? dotted change path made).map fun child => table.set key child.toToml
      | some (.table origin entries) =>
          if origin = .inline ∨ (dotted ∧ origin = .header) then none
          else
            (update? dotted change path ⟨origin, entries⟩).map fun child =>
              table.set key child.toToml
      | some (.tables (latest :: earlier)) =>
          (update? dotted change path ⟨.header, latest⟩).map fun child =>
            table.set key (.tables (child.entries :: earlier))
      | some _ => none

/-- Adds the value of a key whose path up to its last part is `path`. The key must be new, and a
table is filled either by dotted keys or by plain ones. -/
def assign? (path : List Text) (key : Text) (value : Toml) (table : TomlTable) :
    Option TomlTable :=
  update? true
    (fun target =>
      if decide (target.origin = .dotted) = path.isEmpty then none
      else if (target.get? key).isSome then none
      else some (target.set key value))
    path table

def define? (path : List Text) (key : Text) (table : TomlTable) : Option TomlTable :=
  update? false
    (fun parent =>
      match parent.get? key with
      | none => some (parent.set key (.table .header []))
      | some (.table .implied entries) => some (parent.set key (.table .header entries))
      | some _ => none)
    path table

def extend? (path : List Text) (key : Text) (table : TomlTable) : Option TomlTable :=
  update? false
    (fun parent =>
      match parent.get? key with
      | none => some (parent.set key (.tables [[]]))
      | some (.tables items) => some (parent.set key (.tables ([] :: items)))
      | some _ => none)
    path table

end TomlTable

end MailTemplate
