import MailTemplate.Json.Reader

/-!
The four kinds of TOML strings: basic ones with escapes and literal ones without, each on one line
or over several.
-/

namespace MailTemplate
namespace Toml

def isControl (c : Char) : Bool :=
  (c.toNat < 0x20 && c ≠ '\t') || c.toNat = 0x7f

def isSpace (c : Char) : Bool :=
  c = ' ' || c = '\t'

def afterNewline? : Text → Option Text
  | '\n' :: rest => some rest
  | '\r' :: '\n' :: rest => some rest
  | _ => none

def scalar? (code : Nat) : Option Char :=
  if code < 0xd800 ∨ (0xe000 ≤ code ∧ code < 0x110000) then some (Char.ofNat code) else none

def readCode? (count : Nat) (text : Text) : Option (Char × Text) := do
  let (code, rest) ← Json.readHex? count 0 text
  let escaped ← scalar? code
  pure (escaped, rest)

def readEscape? : Text → Option (Char × Text)
  | [] => none
  | c :: rest =>
      match c with
      | 'b' => some ('\x08', rest)
      | 't' => some ('\t', rest)
      | 'n' => some ('\n', rest)
      | 'f' => some ('\x0c', rest)
      | 'r' => some ('\r', rest)
      | 'e' => some ('\x1b', rest)
      | '\x22' => some ('\x22', rest)
      | '\\' => some ('\\', rest)
      | 'x' => readCode? 2 rest
      | 'u' => readCode? 4 rest
      | 'U' => readCode? 8 rest
      | _ => none

def skipBlankLines : Text → Text
  | [] => []
  | '\r' :: '\n' :: rest => skipBlankLines rest
  | c :: rest => if isSpace c || c = '\n' then skipBlankLines rest else c :: rest

def afterLineEnd? (text : Text) : Option Text :=
  (afterNewline? (text.dropWhile isSpace)).map skipBlankLines

structure Quoting where
  quote : Char
  escapes : Bool
  multiline : Bool
  deriving DecidableEq, Repr

namespace Quoting

/-- The content of a string over several lines that ends with a run of quotes: two of them at most
belong to the content. -/
def closeRun? (quoting : Quoting) (passed : Text) (text : Text) : Option (Text × Text) :=
  let run := text.takeWhile (· = quoting.quote)
  let extra := run.length - 3
  if run.length < 3 ∨ 2 < extra then none
  else some (passed.reverse ++ List.replicate extra quoting.quote, text.drop run.length)

/-- The rest of a string after the characters of `passed`, the latest first. Line ends are kept as
they are written. Each step takes a character at least, so the length of the text is enough of
them. -/
def readFrom? (quoting : Quoting) (passed : Text) : Nat → Text → Option (Text × Text)
  | 0, _ => none
  | _ + 1, [] => none
  | steps + 1, c :: rest =>
      if c = quoting.quote then
        if !quoting.multiline then some (passed.reverse, rest)
        else
          match quoting.closeRun? passed (c :: rest) with
          | some closed => some closed
          | none =>
              if [c, c].isPrefixOf rest then none
              else readFrom? quoting (c :: passed) steps rest
      else if quoting.escapes ∧ c = '\\' then
        match if quoting.multiline then afterLineEnd? rest else none with
        | some rest => readFrom? quoting passed steps rest
        | none =>
            match readEscape? rest with
            | some (escaped, rest) => readFrom? quoting (escaped :: passed) steps rest
            | none => none
      else
        let endsLine := quoting.multiline && (afterNewline? (c :: rest)).isSome
        if isControl c && !endsLine then none else readFrom? quoting (c :: passed) steps rest

def read? (quoting : Quoting) (steps : Nat) (text : Text) : Option (Text × Text) :=
  let text := if quoting.multiline then (afterNewline? text).getD text else text
  quoting.readFrom? [] steps text

end Quoting

def readLine? (steps : Nat) : Text → Option (Text × Text)
  | '\x22' :: rest => Quoting.read? ⟨'\x22', true, false⟩ steps rest
  | '\x27' :: rest => Quoting.read? ⟨'\x27', false, false⟩ steps rest
  | _ => none

def readString? (steps : Nat) : Text → Option (Text × Text)
  | '\x22' :: '\x22' :: '\x22' :: rest => Quoting.read? ⟨'\x22', true, true⟩ steps rest
  | '\x27' :: '\x27' :: '\x27' :: rest => Quoting.read? ⟨'\x27', false, true⟩ steps rest
  | text => readLine? steps text

end Toml
end MailTemplate
