import MailTemplate.Entries
import MailTemplate.Value

/-!
Contexts give values to variable names. The entries are kept in ascending order of their names, so
contexts with the same bindings are equal.
-/

namespace MailTemplate

structure Context where
  entries : Entries Value
  ascending : entries.Ascending
  deriving Repr

namespace Context

@[ext] theorem ext {first second : Context} (same : first.entries = second.entries) :
    first = second := by
  cases first
  cases second
  cases same
  rfl

instance : DecidableEq Context := fun first second =>
  if same : first.entries = second.entries then isTrue (ext same)
  else isFalse fun equal => same (congrArg entries equal)

def empty : Context := ⟨[], .nil⟩

def size (context : Context) : Nat :=
  context.entries.length

def get? (context : Context) (name : Text) : Option Value :=
  context.entries.get? name

def contains (context : Context) (name : Text) : Bool :=
  (context.get? name).isSome

def lookup (context : Context) (name : Text) : Value :=
  (context.get? name).getD .null

def insert (context : Context) (name : Text) (value : Value) : Context :=
  ⟨Entries.insert true name value context.entries,
    Entries.ascending_insert true name value context.ascending⟩

def erase (context : Context) (name : Text) : Context :=
  ⟨context.entries.filter fun entry => entry.1 ≠ name, context.ascending.filter _⟩

def merge (context other : Context) : Context :=
  other.entries.foldl (fun merged entry => merged.insert entry.1 entry.2) context

/-- The bindings of all layers, the later layers in place of the earlier ones. -/
def layered (layers : List Context) : Context :=
  layers.foldl merge empty

def ofList (bindings : List (Text × Value)) : Context :=
  ⟨Entries.ofList bindings, Entries.ascending_ofList bindings⟩

def equals (first second : Context) : Bool :=
  first.entries.length = second.entries.length &&
    (first.entries.zip second.entries).all fun (left, right) =>
      left.1 = right.1 && left.2.equals right.2

theorem ext_get? {first second : Context}
    (same : ∀ name, first.get? name = second.get? name) : first = second :=
  ext (Entries.ext_get? first.ascending second.ascending same)

@[simp] theorem get?_empty (name : Text) : empty.get? name = none := rfl

theorem get?_insert (context : Context) (name other : Text) (value : Value) :
    (context.insert name value).get? other =
      if name = other then some value else context.get? other :=
  Entries.get?_insert_true name other value context.entries

end Context

end MailTemplate
