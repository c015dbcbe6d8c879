import MailTemplate.Json

/-!
Reading JSON text. White space is space, tab, line feed and carriage return, nothing may follow the
value, and arrays and objects may be nested so deep and no deeper.
-/

namespace MailTemplate
namespace Json

def maxDepth : Nat := 127

def isSpace (c : Char) : Bool :=
  c = ' ' || c = '\t' || c = '\n' || c = '\r'

def skipSpace (text : Text) : Text :=
  text.dropWhile isSpace

def hexValue? (c : Char) : Option Nat :=
  if '0' ≤ c ∧ c ≤ '9' then some (c.toNat - '0'.toNat)
  else if 'a' ≤ c ∧ c ≤ 'f' then some (c.toNat - 'a'.toNat + 10)
  else if 'A' ≤ c ∧ c ≤ 'F' then some (c.toNat - 'A'.toNat + 10)
  else none

def readHex? : Nat → Nat → Text → Option (Nat × Text)
  | 0, value, text => some (value, text)
  | _ + 1, _, [] => none
  | count + 1, value, c :: text => do
      let digit ← hexValue? c
      readHex? count (16 * value + digit) text

def isLowSurrogate (code : Nat) : Bool :=
  0xdc00 ≤ code && code < 0xe000

def isHighSurrogate (code : Nat) : Bool :=
  0xd800 ≤ code && code < 0xdc00

def readUnicode? (text : Text) : Option (Char × Text) := do
  let (code, rest) ← readHex? 4 0 text
  if isLowSurrogate code then none
  else if isHighSurrogate code then
    let rest ← Text.after? ['\\', 'u'] rest
    let (low, rest) ← readHex? 4 0 rest
    if isLowSurrogate low then
      some (Char.ofNat (0x10000 + (code - 0xd800) * 0x400 + (low - 0xdc00)), rest)
    else none
  else some (Char.ofNat code, rest)

def readEscape? : Text → Option (Char × Text)
  | [] => none
  | c :: rest =>
      match c with
      | '\x22' => some ('\x22', rest)
      | '\\' => some ('\\', rest)
      | '/' => some ('/', rest)
      | 'b' => some ('\x08', rest)
      | 'f' => some ('\x0c', rest)
      | 'n' => some ('\n', rest)
      | 'r' => some ('\r', rest)
      | 't' => some ('\t', rest)
      | 'u' => readUnicode? rest
      | _ => none

/-- The rest of a string, after the characters of `passed`, the latest first. Each step takes a
character at least, so the length of the text is enough of them, here and in what follows. -/
def readCharacters? (passed : Text) : Nat → Text → Option (Text × Text)
  | 0, _ => none
  | _ + 1, [] => none
  | steps + 1, c :: rest =>
      if c = '\x22' then some (passed.reverse, rest)
      else if c = '\\' then
        match readEscape? rest with
        | some (escaped, rest) => readCharacters? (escaped :: passed) steps rest
        | none => none
      else if c.toNat < 0x20 then none
      else readCharacters? (c :: passed) steps rest

def readString? (steps : Nat) (text : Text) : Option (Text × Text) :=
  readCharacters? [] steps text

def numberOf? (negative : Bool) (whole : Text) (fraction : Option Text) (exponent : Option Int) :
    Option JsonNumber :=
  let size := Decimal.digitsValue whole
  let isWhole := fraction.isNone && exponent.isNone
  let rounded := (Decimal.ofParts negative whole fraction exponent).toDouble
  if isWhole && !negative && size < Nat.pow 2 64 then some (.integer size)
  else if isWhole && negative && 0 < size && size ≤ Nat.pow 2 63 then some (.integer (-size))
  else if rounded.isFinite then some (.double rounded)
  else none

def readWhole? : Text → Option (Text × Text)
  | '0' :: rest => some (['0'], rest)
  | text =>
      let (digits, rest) := Decimal.takeDigits text
      if digits.isEmpty then none else some (digits, rest)

def readNumber? (text : Text) : Option (JsonNumber × Text) := do
  let (negative, unsigned) : Bool × Text :=
    match text with
    | '-' :: rest => (true, rest)
    | text => (false, text)
  let (whole, rest) ← readWhole? unsigned
  let (fraction, rest) := Decimal.takeFraction rest
  if fraction = some [] then none
  else
    let (exponent, rest) ← Decimal.takeExponent? rest
    let number ← numberOf? negative whole fraction exponent
    pure (number, rest)

def readScalar? (steps : Nat) (text : Text) : Option (Json × Text) :=
  match text with
  | '\x22' :: rest => (readString? steps rest).map fun (value, rest) => (.string value, rest)
  | _ =>
    match Text.after? ['n', 'u', 'l', 'l'] text with
    | some rest => some (.null, rest)
    | none =>
    match Text.after? ['t', 'r', 'u', 'e'] text with
    | some rest => some (.bool true, rest)
    | none =>
    match Text.after? ['f', 'a', 'l', 's', 'e'] text with
    | some rest => some (.bool false, rest)
    | none => (readNumber? text).map fun (value, rest) => (.number value, rest)

def readElements? {α : Type} (readElement? : Text → Option (α × Text)) (close : Char)
    (earlier : List α) : Nat → Text → Option (List α × Text)
  | 0, _ => none
  | steps + 1, text =>
      match readElement? text with
      | none => none
      | some (element, rest) =>
          match skipSpace rest with
          | [] => none
          | c :: rest =>
              if c = close then some ((element :: earlier).reverse, rest)
              else if c = ',' then
                readElements? readElement? close (element :: earlier) steps rest
              else none

def readSequence? {α : Type} (steps : Nat) (readElement? : Text → Option (α × Text))
    (close : Char) (text : Text) : Option (List α × Text) :=
  match skipSpace text with
  | [] => none
  | c :: rest =>
      if c = close then some ([], rest)
      else readElements? readElement? close [] steps (c :: rest)

def readMember? {α : Type} (steps : Nat) (readElement? : Text → Option (α × Text))
    (text : Text) : Option ((Text × α) × Text) :=
  match skipSpace text with
  | '\x22' :: rest => do
      let (name, rest) ← readString? steps rest
      let rest ← Text.after? [':'] (skipSpace rest)
      let (value, rest) ← readElement? rest
      pure ((name, value), rest)
  | _ => none

def readValue? (steps : Nat) : Nat → Text → Option (Json × Text)
  | 0, text => readScalar? steps (skipSpace text)
  | depth + 1, text =>
      match skipSpace text with
      | '[' :: rest =>
          (readSequence? steps (readValue? steps depth) ']' rest).map fun (items, rest) =>
            (.array items, rest)
      | '{' :: rest =>
          let member? := readMember? steps (readValue? steps depth)
          (readSequence? steps member? '}' rest).map fun (members, rest) =>
            (.object members, rest)
      | text => readScalar? steps text

def ofText? (text : Text) : Option Json := do
  let (value, rest) ← readValue? text.length maxDepth text
  if (skipSpace rest).isEmpty then some value else none

end Json
end MailTemplate
