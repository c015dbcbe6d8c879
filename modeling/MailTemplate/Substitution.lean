import MailTemplate.Context
import MailTemplate.Event

/-!
Variables in text. A site is a name between double braces, with white space allowed around the
name; where the sites of a text are does not depend on any values, and values are never searched
for sites themselves.
-/

namespace MailTemplate

structure Output where
  text : Text
  events : List Event
  deriving DecidableEq, Repr

namespace Output

def empty : Output := ⟨[], []⟩

def ofText (text : Text) : Output := ⟨text, []⟩

def ofEvents (events : List Event) : Output := ⟨[], events⟩

instance : Append Output where
  append first second := ⟨first.text ++ second.text, first.events ++ second.events⟩

@[simp] theorem events_append (first second : Output) :
    (first ++ second).events = first.events ++ second.events := rfl

def concat (outputs : List Output) : Output :=
  ⟨outputs.flatMap text, outputs.flatMap events⟩

end Output

def isSitePadding (c : Char) : Bool :=
  c = ' ' || c = '\t' || c = '\r' || c = '\n'

def isNameStart (c : Char) : Bool :=
  c.isAlpha || c = '_'

def isNameChar (c : Char) : Bool :=
  c.isAlphanum || c = '_'

def reservedName : Text := ['e', 'l', 's', 'e']

def siteStart : Text := ['{', '{']

structure Site where
  before : Text
  name : Text
  after : Text
  deriving DecidableEq, Repr

namespace Site

def source (site : Site) : Text :=
  siteStart ++ site.before ++ site.name ++ site.after ++ tagEnd

def isName (name : Text) : Bool :=
  name.head?.any isNameStart && name.all isNameChar && name ≠ reservedName

def read? (text : Text) : Option (Site × Text) := do
  let inside ← Text.after? siteStart text
  let named := inside.dropWhile isSitePadding
  let ended := named.dropWhile isNameChar
  let site : Site :=
    ⟨inside.takeWhile isSitePadding, named.takeWhile isNameChar, ended.takeWhile isSitePadding⟩
  let rest ← Text.after? tagEnd (ended.dropWhile isSitePadding)
  if isName site.name then some (site, rest) else none

theorem source_of_read? {text rest : Text} {site : Site} (found : read? text = some (site, rest)) :
    text = site.source ++ rest := by
  simp only [read?, Option.bind_eq_bind, Option.bind_eq_some_iff] at found
  obtain ⟨inside, starts, after, ends, accepted⟩ := found
  rw [Text.after?_eq_some_iff] at starts ends
  split at accepted
  · cases accepted
    simp only [source, starts, List.append_assoc]
    congr 1
    rw [← ends, List.takeWhile_append_dropWhile, List.takeWhile_append_dropWhile,
      List.takeWhile_append_dropWhile]
  · cases accepted

theorem length_lt_of_read? {text rest : Text} {site : Site}
    (found : read? text = some (site, rest)) : rest.length < text.length := by
  rw [source_of_read? found]
  simp [source, siteStart]
  omega

end Site

inductive Piece where
  | copied (c : Char)
  | reference (site : Site)
  deriving DecidableEq, Repr

namespace Piece

def source : Piece → Text
  | .copied c => [c]
  | .reference site => site.source

def splitFrom (earlier : List Piece) (text : Text) : List Piece :=
  match _found : Site.read? text with
  | some (site, rest) => splitFrom (.reference site :: earlier) rest
  | none =>
      match text with
      | [] => earlier.reverse
      | c :: rest => splitFrom (.copied c :: earlier) rest
termination_by text.length
decreasing_by
  · exact Site.length_lt_of_read? _found
  · simp

theorem splitFrom_eq (earlier : List Piece) (text : Text) :
    splitFrom earlier text = earlier.reverse ++ splitFrom [] text := by
  induction length : text.length using Nat.strongRecOn generalizing earlier text with
  | ind count ih =>
      rw [splitFrom, splitFrom.eq_def []]
      split
      · rename_i site rest found
        have shorter : rest.length < count := length ▸ Site.length_lt_of_read? found
        rw [ih _ shorter _ rest rfl, ih _ shorter [_] rest rfl]
        simp
      · cases text with
        | nil => simp
        | cons c rest =>
            have shorter : rest.length < count := by simp [← length]
            dsimp only
            rw [ih _ shorter _ rest rfl, ih _ shorter [_] rest rfl]
            simp

/-- The pieces of a text: at each place the site that starts there, and else one character. -/
def split (text : Text) : List Piece :=
  splitFrom [] text

@[simp] theorem split_nil : split [] = [] := by
  rw [split, splitFrom]
  rfl

theorem split_of_site {text rest : Text} {site : Site}
    (found : Site.read? text = some (site, rest)) :
    split text = .reference site :: split rest := by
  rw [split, splitFrom]
  split
  · rename_i siteHere restHere foundHere
    rw [found] at foundHere
    cases foundHere
    rw [splitFrom_eq, split]
    rfl
  · simp_all

theorem split_of_char {c : Char} {rest : Text} (missing : Site.read? (c :: rest) = none) :
    split (c :: rest) = .copied c :: split rest := by
  rw [split, splitFrom]
  split
  · simp_all
  · dsimp only
    rw [splitFrom_eq, split]
    rfl

theorem sources_split (text : Text) : (split text).flatMap source = text := by
  induction length : text.length using Nat.strongRecOn generalizing text with
  | ind count ih =>
      cases found : Site.read? text with
      | some result =>
          obtain ⟨site, rest⟩ := result
          rw [split_of_site found, List.flatMap_cons,
            ih _ (length ▸ Site.length_lt_of_read? found) rest rfl, source,
            ← Site.source_of_read? found]
      | none =>
          cases text with
          | nil => simp
          | cons c rest =>
              have shorter : rest.length < count := by simp [← length]
              rw [split_of_char found, List.flatMap_cons, ih _ shorter rest rfl, source]
              rfl

def substitute (context : Context) : Piece → Output
  | .copied c => .ofText [c]
  | .reference site =>
      match context.get? site.name with
      | some value => .ofText value.text
      | none => .ofEvents [.variableUndefined site.name]

end Piece

/-- Replaces every site of a text by the text of its variable, empty for an unbound one. -/
def substitute (text : Text) (context : Context) : Output :=
  .concat ((Piece.split text).map (Piece.substitute context))

def referencedNames (text : Text) : List Text :=
  (Piece.split text).filterMap fun piece =>
    match piece with
    | .copied _ => none
    | .reference site => some site.name

end MailTemplate
