import MailTemplate.Context
import MailTemplate.Error
import MailTemplate.Json.Reader

/-!
Contexts from JSON. An object is a context if each of its members is null, a truth value, a number,
a string or an array of strings; otherwise all of it is refused.

There are two readers. One takes the members in ascending order, each with its last value, and its
error names the first to blame. The other takes the members as they stand in the text, tries the
kinds of values on each of them in turn, and does not say why it refuses.
-/

namespace MailTemplate

namespace Value

def stringsOfJson : List Json → Except Json (List Text)
  | [] => .ok []
  | .string item :: items =>
      match stringsOfJson items with
      | .ok strings => .ok (item :: strings)
      | .error found => .error found
  | item :: _ => .error item

def ofJson (name : Text) : Json → Except Error Value
  | .null => .ok .null
  | .bool value => .ok (.bool value)
  | .number value => .ok (.number value.toDouble)
  | .string value => .ok (.string value)
  | .array items =>
      match stringsOfJson items with
      | .ok strings => .ok (.array strings)
      | .error found => .error (.unsupportedValue name (.arrayItem found))
  | .object _ => .error (.unsupportedValue name .nestedObject)

def readNull? : Json → Option Value
  | .null => some .null
  | _ => none

def readBool? : Json → Option Value
  | .bool value => some (.bool value)
  | _ => none

def readDouble? : Json → Option Value
  | .number value => some (.number value.toDouble)
  | _ => none

def stringOf? : Json → Option Text
  | .string value => some value
  | _ => none

def readString? (json : Json) : Option Value :=
  (stringOf? json).map .string

def stringsOf? : List Json → Option (List Text)
  | [] => some []
  | item :: items =>
      match stringOf? item with
      | none => none
      | some text => (stringsOf? items).map (text :: ·)

def readArray? : Json → Option Value
  | .array items => (stringsOf? items).map .array
  | _ => none

def kinds : List (Json → Option Value) :=
  [readNull?, readBool?, readDouble?, readString?, readArray?]

def decode? (json : Json) : Option Value :=
  kinds.findSome? fun read? => read? json

end Value

namespace Context

def bindingsOfJson : List (Text × Json) → Except Error (List (Text × Value))
  | [] => .ok []
  | (name, json) :: members =>
      match Value.ofJson name json with
      | .error error => .error error
      | .ok value =>
          match bindingsOfJson members with
          | .error error => .error error
          | .ok bindings => .ok ((name, value) :: bindings)

def ofJson (json : Json) : Except Error Context :=
  match json.canonical with
  | .object members => (bindingsOfJson members).map ofList
  | found => .error (.context (.notObject found))

def ofJsonText (text : Text) : Except Error Context :=
  match Json.ofText? text with
  | none => .error (.context .unreadable)
  | some json => ofJson json

def decodeMembers? (context : Context) : List (Text × Json) → Option Context
  | [] => some context
  | (name, json) :: members =>
      match Value.decode? json with
      | none => none
      | some value => decodeMembers? (context.insert name value) members

/-- The context of a JSON text whose members are decoded one by one as they stand in it, those
with a later namesake too. -/
def decode? (text : Text) : Option Context :=
  match Json.ofText? text with
  | some (.object members) => decodeMembers? .empty members
  | _ => none

def mergeJson (json : Json) : ExceptT Error (StateM Context) Unit := do
  let read ← (ofJson json : Except Error Context)
  read.entries.forM fun entry => modify (·.insert entry.1 entry.2)

end Context

end MailTemplate
