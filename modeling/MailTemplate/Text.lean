/-!
Template text is a list of characters. Offsets into it count UTF-8 bytes, so a cut between two
characters is possible exactly at the sizes of its initial segments.
-/

namespace MailTemplate

abbrev Text := List Char

/-- The characters with the Unicode property `White_Space`. -/
def isBlank (c : Char) : Bool :=
  let code := c.toNat
  (0x09 ≤ code && code ≤ 0x0d) || code = 0x20 || code = 0x85 || code = 0xa0 || code = 0x1680 ||
    (0x2000 ≤ code && code ≤ 0x200a) || code = 0x2028 || code = 0x2029 || code = 0x202f ||
    code = 0x205f || code = 0x3000

namespace Text

def byteSize (text : Text) : Nat :=
  text.foldr (fun c size => c.utf8Size + size) 0

@[simp] theorem byteSize_nil : byteSize [] = 0 := rfl

@[simp] theorem byteSize_cons (c : Char) (text : Text) :
    byteSize (c :: text) = c.utf8Size + byteSize text := rfl

@[simp] theorem byteSize_append (first second : Text) :
    byteSize (first ++ second) = byteSize first + byteSize second := by
  induction first with
  | nil => simp
  | cons c first ih => simp [ih, Nat.add_assoc]

def after? : Text → Text → Option Text
  | [], text => some text
  | _ :: _, [] => none
  | expected :: literal, found :: text =>
      if expected = found then after? literal text else none

theorem after?_eq_some_iff (literal text rest : Text) :
    after? literal text = some rest ↔ text = literal ++ rest := by
  induction literal generalizing text with
  | nil => simp [after?]
  | cons expected literal ih =>
      cases text with
      | nil => simp [after?]
      | cons found text =>
          by_cases same : expected = found
          · simp [after?, same, ih]
          · simp [after?, same, Ne.symm same]

/-- The search for `literal` once the characters of `seen`, the latest first, have been passed. -/
def breakFrom (literal seen : Text) : Text → Option (Text × Text)
  | [] => (after? literal []).map fun rest => (seen.reverse, rest)
  | c :: text =>
      match after? literal (c :: text) with
      | some rest => some (seen.reverse, rest)
      | none => breakFrom literal (c :: seen) text

def breakAt? (literal text : Text) : Option (Text × Text) :=
  breakFrom literal [] text

theorem eq_append_of_breakFrom {literal seen text before after : Text}
    (found : breakFrom literal seen text = some (before, after)) :
    seen.reverse ++ text = before ++ literal ++ after := by
  induction text generalizing seen with
  | nil =>
      simp only [breakFrom, Option.map_eq_some_iff] at found
      obtain ⟨rest, read, same⟩ := found
      rw [after?_eq_some_iff] at read
      cases same
      simp [read]
  | cons c text ih =>
      simp only [breakFrom] at found
      split at found
      · rename_i rest read
        rw [after?_eq_some_iff] at read
        cases found
        simp [read]
      · have := ih found
        simpa using this

theorem eq_append_of_breakAt? {literal text before after : Text}
    (found : breakAt? literal text = some (before, after)) :
    text = before ++ literal ++ after := by
  simpa using eq_append_of_breakFrom found

theorem breakFrom_eq_none {literal seen text : Text} (missing : breakFrom literal seen text = none)
    (before after : Text) : text ≠ before ++ literal ++ after := by
  induction text generalizing seen before with
  | nil =>
      rw [breakFrom, Option.map_eq_none_iff] at missing
      intro split
      cases before with
      | nil =>
          rw [List.nil_append] at split
          rw [(after?_eq_some_iff literal [] after).mpr split] at missing
          cases missing
      | cons c before => cases split
  | cons c text ih =>
      rw [breakFrom] at missing
      split at missing
      · cases missing
      · rename_i here
        intro split
        cases before with
        | nil =>
            rw [List.nil_append] at split
            rw [(after?_eq_some_iff literal (c :: text) after).mpr split] at here
            cases here
        | cons d before =>
            injection split with _ rest
            exact ih missing before rest

theorem breakAt?_eq_none_iff (literal text : Text) :
    breakAt? literal text = none ↔ ∀ before after, text ≠ before ++ literal ++ after := by
  constructor
  · intro missing before after
    exact breakFrom_eq_none missing before after
  · intro absent
    cases found : breakAt? literal text with
    | none => rfl
    | some sides => exact absurd (eq_append_of_breakAt? found) (absent sides.1 sides.2)

theorem breakFrom_length_le {literal seen text before after : Text}
    (found : breakFrom literal seen text = some (before, after)) (other rest : Text)
    (split : text = other ++ literal ++ rest) :
    before.length ≤ seen.length + other.length := by
  induction text generalizing seen other with
  | nil =>
      simp only [breakFrom, Option.map_eq_some_iff] at found
      obtain ⟨_, _, same⟩ := found
      cases same
      simp
  | cons c text ih =>
      simp only [breakFrom] at found
      split at found
      · cases found
        simp
      · rename_i here
        cases other with
        | nil =>
            rw [List.nil_append] at split
            rw [(after?_eq_some_iff literal (c :: text) rest).mpr split] at here
            cases here
        | cons d other =>
            injection split with _ later
            have bound := ih found other later
            simp only [List.length_cons] at bound ⊢
            omega

theorem breakAt?_length_le {literal text before after : Text}
    (found : breakAt? literal text = some (before, after)) (other rest : Text)
    (split : text = other ++ literal ++ rest) : before.length ≤ other.length := by
  simpa using breakFrom_length_le found other rest split

def cutFrom (seen : Text) : Nat → Text → Option (Text × Text)
  | 0, text => some (seen.reverse, text)
  | _ + 1, [] => none
  | offset + 1, c :: text =>
      if c.utf8Size ≤ offset + 1 then cutFrom (c :: seen) (offset + 1 - c.utf8Size) text
      else none

def cutAt? (offset : Nat) (text : Text) : Option (Text × Text) :=
  cutFrom [] offset text

theorem eq_nil_of_byteSize {text : Text} (size : byteSize text = 0) : text = [] := by
  cases text with
  | nil => rfl
  | cons c text =>
      have positive := c.utf8Size_pos
      rw [byteSize_cons] at size
      omega

theorem cutFrom_eq_some_iff (seen : Text) (offset : Nat) (text before after : Text) :
    cutFrom seen offset text = some (before, after) ↔
      ∃ inside, text = inside ++ after ∧ byteSize inside = offset ∧
        before = seen.reverse ++ inside := by
  induction text generalizing seen offset with
  | nil =>
      cases offset with
      | zero =>
          constructor
          · intro found
            cases found
            exact ⟨[], rfl, rfl, by simp⟩
          · rintro ⟨inside, split, size, same⟩
            obtain ⟨rfl, rfl⟩ := List.append_eq_nil_iff.mp split.symm
            simp [cutFrom, same]
      | succ offset =>
          simp only [cutFrom, reduceCtorEq, false_iff]
          rintro ⟨inside, split, size, _⟩
          obtain ⟨rfl, rfl⟩ := List.append_eq_nil_iff.mp split.symm
          cases size
  | cons c text ih =>
      cases offset with
      | zero =>
          constructor
          · intro found
            cases found
            exact ⟨[], rfl, rfl, by simp⟩
          · rintro ⟨inside, split, size, same⟩
            rw [eq_nil_of_byteSize size] at split same
            simp [cutFrom, same, split]
      | succ offset =>
          simp only [cutFrom]
          split
          · rename_i fits
            rw [ih]
            constructor
            · rintro ⟨inside, split, size, same⟩
              refine ⟨c :: inside, by simp [split], ?_, by simp [same]⟩
              rw [byteSize_cons]
              omega
            · rintro ⟨inside, split, size, same⟩
              cases inside with
              | nil => cases size
              | cons d inside =>
                  injection split with head tail
                  subst head
                  rw [byteSize_cons] at size
                  exact ⟨inside, tail, by omega, by simp [same]⟩
          · rename_i exceeds
            simp only [reduceCtorEq, false_iff]
            rintro ⟨inside, split, size, _⟩
            cases inside with
            | nil => cases size
            | cons d inside =>
                injection split with head _
                subst head
                rw [byteSize_cons] at size
                omega

theorem cutAt?_eq_some_iff (offset : Nat) (text before after : Text) :
    cutAt? offset text = some (before, after) ↔
      text = before ++ after ∧ byteSize before = offset := by
  rw [cutAt?, cutFrom_eq_some_iff]
  constructor
  · rintro ⟨inside, split, size, rfl⟩
    exact ⟨split, size⟩
  · rintro ⟨split, size⟩
    exact ⟨before, split, size, rfl⟩

def trimStart (text : Text) : Text :=
  text.dropWhile isBlank

def trimEnd (text : Text) : Text :=
  (text.reverse.dropWhile isBlank).reverse

def trim (text : Text) : Text :=
  trimEnd (trimStart text)

def asLine (text : Text) : Text :=
  text ++ ['\n']

def endLine (text : Text) : Text :=
  if text.getLast? = some '\n' then text else asLine text

def joinWith (separator : Text) (items : List Text) : Text :=
  (items.intersperse separator).flatten

end Text

end MailTemplate
