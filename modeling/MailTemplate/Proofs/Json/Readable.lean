import Mathlib.Data.List.TakeWhile
import MailTemplate.Json.Reader
import MailTemplate.Json.Writer
import MailTemplate.Proofs.Number.Numeral

/-!
Reading JSON text that was written. Every value whose numbers are whole and fit 64 bits, and which
is not nested too deep, is read back from its text as it was.
-/

namespace MailTemplate

namespace Json

/-- At most `depth` levels of arrays and objects, and only whole numbers that fit 64 bits. -/
inductive Readable : Nat → Json → Prop
  | null {depth} : Readable depth .null
  | bool {depth} (value : Bool) : Readable depth (.bool value)
  | integer {depth} {value : Int} (low : -((2 ^ 63 : Nat) : Int) ≤ value)
      (high : value < (2 ^ 64 : Nat)) : Readable depth (.number (.integer value))
  | string {depth} (value : Text) : Readable depth (.string value)
  | array {depth items} (each : ∀ item ∈ items, Readable depth item) :
      Readable (depth + 1) (.array items)
  | object {depth members} (each : ∀ member ∈ members, Readable depth member.2) :
      Readable (depth + 1) (.object members)

def EndsNumeral (rest : Text) : Prop :=
  ∀ c ∈ rest.head?, c.isDigit = false ∧ c ≠ '.' ∧ c ≠ 'e' ∧ c ≠ 'E'

theorem hexValue?_digitChar : ∀ value < 16, hexValue? (Nat.digitChar value) = some value := by
  decide

theorem readUnicode?_control {c : Char} (control : c.toNat < 0x20) (rest : Text) :
    readUnicode? ('0' :: '0' :: hexDigit (c.toNat / 16) :: hexDigit c.toNat :: rest) =
      some (c, rest) := by
  have zero : hexValue? '0' = some 0 := by decide
  have high := hexValue?_digitChar (c.toNat / 16 % 16) (Nat.mod_lt _ (by decide))
  have low := hexValue?_digitChar (c.toNat % 16) (Nat.mod_lt _ (by decide))
  have code : 16 * (c.toNat / 16 % 16) + c.toNat % 16 = c.toNat := by omega
  have noLow : isLowSurrogate c.toNat = false := by
    simp only [isLowSurrogate, Bool.and_eq_false_iff, decide_eq_false_iff_not]
    omega
  have noHigh : isHighSurrogate c.toNat = false := by
    simp only [isHighSurrogate, Bool.and_eq_false_iff, decide_eq_false_iff_not]
    omega
  simp [readUnicode?, readHex?, hexDigit, zero, high, low, code, noLow, noHigh, Char.ofNat_toNat]

theorem escapeChar_cases (c : Char) :
    (∃ code, escapeChar c = '\\' :: code ∧ ∀ rest, readEscape? (code ++ rest) = some (c, rest)) ∨
      (escapeChar c = [c] ∧ c ≠ '\x22' ∧ c ≠ '\\' ∧ ¬c.toNat < 0x20) := by
  by_cases short : c ∈ ['\x22', '\\', '\x08', '\x0c', '\n', '\r', '\t']
  · left
    simp only [List.mem_cons, List.not_mem_nil, or_false] at short
    rcases short with rfl | rfl | rfl | rfl | rfl | rfl | rfl <;> exact ⟨_, rfl, fun _ => rfl⟩
  · simp only [List.mem_cons, List.not_mem_nil, or_false, not_or] at short
    by_cases control : c.toNat < 0x20
    · left
      refine ⟨_, by simp only [escapeChar, short, control, if_true, if_false]; rfl, ?_⟩
      intro rest
      exact readUnicode?_control control rest
    · right
      exact ⟨by simp only [escapeChar, short, control, if_false], short.1, short.2.1, control⟩

theorem readCharacters?_escapeChar (c : Char) (passed rest : Text) (steps : Nat) :
    readCharacters? passed (steps + 1) (escapeChar c ++ rest) =
      readCharacters? (c :: passed) steps rest := by
  rcases escapeChar_cases c with ⟨code, escaped, read⟩ | ⟨plain, quote, backslash, printable⟩
  · simp [escaped, readCharacters?, read]
  · simp [plain, readCharacters?, quote, backslash, printable]

theorem readCharacters?_written (value passed rest : Text) {steps : Nat}
    (enough : value.length < steps) :
    readCharacters? passed steps (value.flatMap escapeChar ++ '\x22' :: rest) =
      some (passed.reverse ++ value, rest) := by
  induction value generalizing passed steps with
  | nil =>
      obtain ⟨steps, rfl⟩ := Nat.exists_eq_add_one_of_ne_zero (Nat.ne_of_gt enough)
      simp [readCharacters?]
  | cons c value ih =>
      obtain ⟨steps, rfl⟩ := Nat.exists_eq_add_one_of_ne_zero (Nat.ne_zero_of_lt enough)
      rw [List.length_cons, Nat.add_lt_add_iff_right] at enough
      rw [List.flatMap_cons, List.append_assoc, readCharacters?_escapeChar, ih _ enough,
        List.reverse_cons, List.append_assoc, List.singleton_append]

theorem length_le_escaped (value : Text) : value.length ≤ (value.flatMap escapeChar).length := by
  induction value with
  | nil => exact Nat.le_refl 0
  | cons c value ih =>
      have positive : 1 ≤ (escapeChar c).length := by
        rcases escapeChar_cases c with ⟨code, escaped, _⟩ | ⟨plain, _⟩
        · rw [escaped]
          exact Nat.succ_pos _
        · rw [plain]
          exact Nat.le_refl 1
      rw [List.flatMap_cons, List.length_append, List.length_cons]
      omega

theorem readString?_written (value rest : Text) {steps : Nat}
    (enough : (stringText value).length ≤ steps) :
    readString? steps (value.flatMap escapeChar ++ '\x22' :: rest) = some (value, rest) := by
  have shorter := length_le_escaped value
  simp only [stringText, List.cons_append, List.length_cons, List.length_append,
    List.length_nil] at enough
  exact readCharacters?_written value [] rest (by omega)

theorem head?_toDigits_ne_zero {number : Nat} (positive : 0 < number) :
    (Nat.toDigits 10 number).head? ≠ some '0' := by
  induction number using Nat.strongRecOn with
  | ind number ih =>
      have single : ∀ digit < 10, 0 < digit → [Nat.digitChar digit].head? ≠ some '0' := by decide
      rw [Nat.toDigits_eq_if (by decide)]
      split
      · rename_i small
        exact single number small positive
      · rename_i large
        have shorter := ih (number / 10) (by omega) (by omega)
        rwa [List.head?_append_of_ne_nil _ Nat.toDigits_ne_nil]

theorem readWhole?_written (number : Nat) {rest : Text} (ends : EndsNumeral rest) :
    readWhole? (Nat.toDigits 10 number ++ rest) = some (Nat.toDigits 10 number, rest) := by
  rcases Nat.eq_zero_or_pos number with rfl | positive
  · rfl
  · have taken : Decimal.takeDigits (Nat.toDigits 10 number ++ rest) =
        (Nat.toDigits 10 number, rest) :=
      Decimal.takeDigits_append (Decimal.all_isDigit_toDigits number)
        fun c member => (ends c member).1
    have zero := head?_toDigits_ne_zero positive
    obtain ⟨first, digits, same⟩ := List.exists_cons_of_ne_nil (@Nat.toDigits_ne_nil number 10)
    rw [same] at taken zero ⊢
    have first : first ≠ '0' := fun equal => zero (equal ▸ rfl)
    rw [readWhole?]
    · rw [taken]
      rfl
    · rintro others ⟨⟩
      exact first rfl

theorem numberOf?_natural {size : Nat} (high : size < 2 ^ 64) :
    numberOf? false (Nat.toDigits 10 size) none none = some (.integer size) := by
  have small : size < Nat.pow 2 64 := high
  simp [numberOf?, Decimal.digitsValue_toDigits, small]

theorem numberOf?_negative {size : Nat} (positive : 0 < size) (low : size ≤ 2 ^ 63) :
    numberOf? true (Nat.toDigits 10 size) none none = some (.integer (-size)) := by
  have small : size ≤ Nat.pow 2 63 := low
  simp [numberOf?, Decimal.digitsValue_toDigits, small, positive]

theorem exists_toDigits_eq_cons (number : Nat) :
    ∃ first tail, Nat.toDigits 10 number = first :: tail ∧ first.isDigit = true := by
  obtain ⟨first, tail, shape⟩ := List.exists_cons_of_ne_nil (@Nat.toDigits_ne_nil number 10)
  have digits := Decimal.all_isDigit_toDigits number
  rw [shape, List.all_cons, Bool.and_eq_true] at digits
  exact ⟨first, tail, shape, digits.1⟩

theorem readNumber?_written {value : Int} (low : -((2 ^ 63 : Nat) : Int) ≤ value)
    (high : value < (2 ^ 64 : Nat)) {rest : Text} (ends : EndsNumeral rest) :
    readNumber? ((JsonNumber.integer value).text ++ rest) = some (.integer value, rest) := by
  have whole := readWhole?_written value.natAbs ends
  have point : Decimal.takeFraction rest = (none, rest) := by
    rw [Decimal.takeFraction]
    rintro others rfl
    exact (ends '.' rfl).2.1 rfl
  have exponent : Decimal.takeExponent? rest = some (none, rest) := by
    cases rest with
    | nil => rfl
    | cons c rest => simp [Decimal.takeExponent?, (ends c rfl).2.2]
  rw [JsonNumber.text]
  by_cases negative : value < 0
  · have positive : 0 < value.natAbs := by omega
    have number := numberOf?_negative positive (by omega)
    have same : -(value.natAbs : Int) = value := by omega
    rw [same] at number
    rw [if_pos negative, List.append_assoc]
    simp [readNumber?, whole, point, exponent, number]
  · have small : value.natAbs < 2 ^ 64 := by omega
    have number := numberOf?_natural small
    have same : (value.natAbs : Int) = value := by omega
    have unsigned : ∀ others, Nat.toDigits 10 value.natAbs ++ rest ≠ '-' :: others := by
      intro others same
      obtain ⟨first, tail, shape, digit⟩ := exists_toDigits_eq_cons value.natAbs
      rw [shape] at same
      cases same
      cases digit
    rw [same] at number
    rw [if_neg negative, List.nil_append, readNumber?]
    · simp [whole, point, exponent, number]
    · exact unsigned

def StartsBefore (close : Char) (text : Text) : Prop :=
  ∃ c tail, text = c :: tail ∧ isSpace c = false ∧ c ≠ close

theorem StartsBefore.ne_nil {close : Char} {text : Text} (starts : StartsBefore close text) :
    text ≠ [] := by
  obtain ⟨c, tail, rfl, -⟩ := starts
  exact List.cons_ne_nil c tail

section

variable {α : Type} {written : α → Text} {read? : Text → Option (α × Text)} {items : List α}
  {close : Char}

def joined (written : α → Text) : List α → Text
  | [] => []
  | [item] => written item
  | item :: items => written item ++ ',' :: joined written items

theorem joined_cons_cons (first second : α) (items : List α) :
    joined written (first :: second :: items) =
      written first ++ ',' :: joined written (second :: items) := rfl

theorem length_le_joined (some : ∀ item ∈ items, written item ≠ []) :
    items.length ≤ (joined written items).length := by
  induction items with
  | nil => exact Nat.le_refl 0
  | cons item items ih =>
      rw [List.forall_mem_cons] at some
      have positive := List.length_pos_iff.mpr some.1
      have later := ih some.2
      cases items with
      | nil => exact positive
      | cons next items =>
          simp only [joined, List.length_append, List.length_cons] at later ⊢
          omega

theorem length_written_le {item : α} (member : item ∈ items) :
    (written item).length ≤ (joined written items).length := by
  induction items with
  | nil => cases member
  | cons first items ih =>
      cases items with
      | nil => rw [List.mem_singleton.mp member, joined]
      | cons next items =>
          rw [joined, List.length_append, List.length_cons]
          · rcases List.mem_cons.mp member with rfl | later
            · omega
            · have bound := ih later
              omega
          · simp

def IsClosing (close : Char) : Prop :=
  close = ']' ∨ close = '}'

theorem IsClosing.endsNumeral (closing : IsClosing close) (rest : Text) :
    EndsNumeral (close :: rest) := by
  rintro c ⟨⟩
  rcases closing with rfl | rfl <;> decide

theorem IsClosing.skipSpace (closing : IsClosing close) (rest : Text) :
    skipSpace (close :: rest) = close :: rest := by
  rcases closing with rfl | rfl <;> rfl

theorem endsNumeral_comma (rest : Text) : EndsNumeral (',' :: rest) := by
  rintro c ⟨⟩
  decide

theorem readElements?_joined (closing : IsClosing close)
    (reads : ∀ item ∈ items, ∀ rest, EndsNumeral rest →
      read? (written item ++ rest) = some (item, rest))
    (nonempty : items ≠ []) (earlier : List α) {steps : Nat} (enough : items.length ≤ steps)
    (rest : Text) :
    readElements? read? close earlier steps (joined written items ++ close :: rest) =
      some (earlier.reverse ++ items, rest) := by
  induction items generalizing earlier steps with
  | nil => exact absurd rfl nonempty
  | cons item items ih =>
      obtain ⟨steps, rfl⟩ := Nat.exists_eq_add_one_of_ne_zero (Nat.ne_zero_of_lt enough)
      rw [List.length_cons, Nat.add_le_add_iff_right] at enough
      rw [List.forall_mem_cons] at reads
      cases items with
      | nil =>
          have read := reads.1 _ (closing.endsNumeral rest)
          simp [joined, readElements?, read, closing.skipSpace]
      | cons next items =>
          have read :=
            reads.1 _ (endsNumeral_comma (joined written (next :: items) ++ close :: rest))
          have other : ',' ≠ close := by rcases closing with rfl | rfl <;> decide
          have later := ih reads.2 (by simp) (item :: earlier) enough
          have comma : skipSpace (',' :: (joined written (next :: items) ++ close :: rest)) =
              ',' :: (joined written (next :: items) ++ close :: rest) := rfl
          rw [joined_cons_cons, List.append_assoc, List.cons_append, readElements?, read]
          simp only [comma, other, if_false, if_true]
          rw [later, List.reverse_cons, List.append_assoc, List.singleton_append]

theorem readSequence?_joined (closing : IsClosing close)
    (reads : ∀ item ∈ items, ∀ rest, EndsNumeral rest →
      read? (written item ++ rest) = some (item, rest))
    (starts : ∀ item ∈ items, StartsBefore close (written item))
    {steps : Nat} (enough : items.length ≤ steps) (rest : Text) :
    readSequence? steps read? close (joined written items ++ close :: rest) =
      some (items, rest) := by
  cases items with
  | nil => simp [joined, readSequence?, closing.skipSpace]
  | cons item items =>
      obtain ⟨c, tail, first, space, other⟩ := starts item List.mem_cons_self
      have elements := readElements?_joined closing reads (by simp) [] enough rest
      obtain ⟨after, shape⟩ : ∃ after, joined written (item :: items) = c :: after := by
        cases items with
        | nil => exact ⟨tail, first⟩
        | cons next items => exact ⟨_, by rw [joined_cons_cons, first, List.cons_append]⟩
      rw [shape, List.cons_append] at elements ⊢
      have kept : skipSpace (c :: (after ++ close :: rest)) = c :: (after ++ close :: rest) := by
        simp [skipSpace, space]
      rw [readSequence?, kept]
      simpa [other] using elements

end

def memberText (member : Text × Json) : Text :=
  stringText member.1 ++ ':' :: member.2.text

theorem itemsText_eq (items : List Json) : itemsText items = joined text items := by
  induction items with
  | nil => rfl
  | cons item items ih =>
      cases items with
      | nil => rfl
      | cons next items =>
          rw [joined_cons_cons, ← ih, itemsText]
          simp

theorem membersText_eq (members : List (Text × Json)) :
    membersText members = joined memberText members := by
  induction members with
  | nil => rfl
  | cons member members ih =>
      cases members with
      | nil => rfl
      | cons next members =>
          rw [joined_cons_cons, ← ih, membersText, memberText]
          simp

theorem readMember?_written {read? : Text → Option (Json × Text)} {member : Text × Json}
    {rest : Text} (reads : read? (member.2.text ++ rest) = some (member.2, rest)) {steps : Nat}
    (enough : (memberText member).length ≤ steps) :
    readMember? steps read? (memberText member ++ rest) = some (member, rest) := by
  obtain ⟨name, value⟩ := member
  simp only [memberText, List.length_append] at enough
  have shorter : (stringText name).length ≤ steps := by omega
  have named := readString?_written name (':' :: (value.text ++ rest)) shorter
  have shape : memberText (name, value) ++ rest =
      '\x22' :: (name.flatMap escapeChar ++ '\x22' :: ':' :: (value.text ++ rest)) := by
    simp [memberText, stringText]
  have quote (others : Text) : skipSpace ('\x22' :: others) = '\x22' :: others := rfl
  have colon (others : Text) : skipSpace (':' :: others) = ':' :: others := rfl
  have mark (others : Text) : Text.after? [':'] (':' :: others) = some others := rfl
  rw [shape, readMember?, quote]
  simp [named, colon, mark, reads]

theorem length_value_le (member : Text × Json) :
    member.2.text.length ≤ (memberText member).length := by
  rw [memberText, List.length_append, List.length_cons]
  omega

theorem startsBefore_memberText (member : Text × Json) : StartsBefore '}' (memberText member) :=
  ⟨'\x22', _, rfl, by decide, by decide⟩

def StartsNumeral (text : Text) : Prop :=
  ∃ c tail, text = c :: tail ∧ (c = '-' ∨ c.isDigit = true)

theorem startsNumeral_text (value : Int) : StartsNumeral (JsonNumber.integer value).text := by
  rw [JsonNumber.text]
  by_cases negative : value < 0
  · rw [if_pos negative]
    exact ⟨_, _, rfl, .inl rfl⟩
  · obtain ⟨first, tail, shape, digit⟩ := exists_toDigits_eq_cons value.natAbs
    rw [if_neg negative, List.nil_append]
    exact ⟨first, tail, shape, .inr digit⟩

section

variable {text : Text} (starts : StartsNumeral text) {mark : Char} (sign : mark ≠ '-')
  (other : mark.isDigit = false)

include starts sign other in
theorem StartsNumeral.ne {tail : Text} : text ≠ mark :: tail := by
  rintro rfl
  obtain ⟨c, after, shape, dash | digit⟩ := starts <;> cases shape
  · exact sign dash
  · exact absurd digit (by simp [other])

include starts sign other in
theorem StartsNumeral.after?_eq_none (literal : Text) :
    Text.after? (mark :: literal) text = none := by
  rw [Option.eq_none_iff_forall_ne_some]
  intro rest found
  exact starts.ne sign other ((Text.after?_eq_some_iff _ _ _).mp found)

include starts in
theorem StartsNumeral.isSpace_eq_false {c : Char} {tail : Text} (shape : text = c :: tail) :
    isSpace c = false := by
  simp only [isSpace, Bool.or_eq_false_iff, decide_eq_false_iff_not]
  refine ⟨⟨⟨?_, ?_⟩, ?_⟩, ?_⟩ <;>
  · rintro rfl
    exact starts.ne (by decide) (by decide) shape

include starts in
theorem StartsNumeral.startsBefore : StartsBefore ']' text := by
  obtain ⟨c, tail, shape, member⟩ := id starts
  refine ⟨c, tail, shape, starts.isSpace_eq_false shape, ?_⟩
  rintro rfl
  exact starts.ne (by decide) (by decide) shape

include starts in
theorem StartsNumeral.readValue?_eq (steps depth : Nat) :
    readValue? steps depth text =
      (readNumber? text).map fun (value, rest) => (.number value, rest) := by
  have scalar : readScalar? steps text =
      (readNumber? text).map fun (value, rest) => (.number value, rest) := by
    have null : Text.after? ['n', 'u', 'l', 'l'] text = none :=
      starts.after?_eq_none (by decide) (by decide) _
    have true : Text.after? ['t', 'r', 'u', 'e'] text = none :=
      starts.after?_eq_none (by decide) (by decide) _
    have false : Text.after? ['f', 'a', 'l', 's', 'e'] text = none :=
      starts.after?_eq_none (by decide) (by decide) _
    rw [readScalar?]
    · simp only [null, true, false]
    · exact fun _ => starts.ne (by decide) (by decide)
  have kept : skipSpace text = text := by
    obtain ⟨c, tail, rfl, member⟩ := id starts
    simp [skipSpace, starts.isSpace_eq_false rfl]
  cases depth with
  | zero => rw [readValue?, kept, scalar]
  | succ depth =>
      rw [readValue?, kept]
      split
      · exact absurd rfl (starts.ne (by decide) (by decide))
      · exact absurd rfl (starts.ne (by decide) (by decide))
      · exact scalar

end

theorem StartsNumeral.append {text : Text} (starts : StartsNumeral text) (rest : Text) :
    StartsNumeral (text ++ rest) := by
  obtain ⟨c, tail, rfl, first⟩ := starts
  exact ⟨c, tail ++ rest, rfl, first⟩

namespace Readable

variable {depth steps : Nat} {json : Json} {rest : Text}

theorem startsBefore (readable : Readable depth json) : StartsBefore ']' json.text := by
  cases readable with
  | null => exact ⟨_, _, rfl, by decide, by decide⟩
  | bool value => cases value <;> exact ⟨_, _, rfl, by decide, by decide⟩
  | string value => exact ⟨_, _, rfl, by decide, by decide⟩
  | array each => exact ⟨_, _, rfl, by decide, by decide⟩
  | object each => exact ⟨_, _, rfl, by decide, by decide⟩
  | @integer _ value low high => exact (startsNumeral_text value).startsBefore

theorem readValue?_eq (readable : Readable depth json) (enough : json.text.length ≤ steps)
    (ends : EndsNumeral rest) :
    readValue? steps depth (json.text ++ rest) = some (json, rest) := by
  -- All levels have the same number of steps, which is enough for a part if it is for the whole.
  induction readable generalizing rest with
  | @null depth => cases depth <;> rfl
  | @bool depth value => cases value <;> cases depth <;> rfl
  | @integer depth value low high =>
      have read := readNumber?_written low high ends
      rw [Json.text, ((startsNumeral_text value).append rest).readValue?_eq, read]
      rfl
  | @string depth value =>
      have read := readString?_written value rest enough
      have shape : (Json.string value).text ++ rest =
          '\x22' :: (value.flatMap escapeChar ++ '\x22' :: rest) := by
        simp [Json.text, stringText]
      have scalar : readScalar? steps ((Json.string value).text ++ rest) =
          some (.string value, rest) := by
        rw [shape, readScalar?, read]
        rfl
      rw [← scalar, shape]
      cases depth <;> rfl
  | @array depth items each ih =>
      have shape : (Json.array items).text = '[' :: (joined Json.text items ++ [']']) := by
        simp [Json.text, itemsText_eq]
      rw [shape, List.length_cons, List.length_append, List.length_singleton] at enough
      have few : items.length ≤ steps := by
        have written := length_le_joined fun item member => (each item member).startsBefore.ne_nil
        omega
      have reads : ∀ item ∈ items, ∀ rest, EndsNumeral rest →
          readValue? steps depth (item.text ++ rest) = some (item, rest) := by
        intro item member rest ends
        have part : item.text.length ≤ (joined Json.text items).length := length_written_le member
        exact ih item member (by omega) ends
      have sequence := readSequence?_joined (.inl rfl) reads
        (fun item member => (each item member).startsBefore) few rest
      rw [shape, List.cons_append, List.append_assoc, List.singleton_append]
      change Option.map _ (readSequence? steps (readValue? steps depth) ']' _) = _
      rw [sequence]
      rfl
  | @object depth members each ih =>
      have shape : (Json.object members).text = '{' :: (joined memberText members ++ ['}']) := by
        simp [Json.text, membersText_eq]
      rw [shape, List.length_cons, List.length_append, List.length_singleton] at enough
      have few : members.length ≤ steps := by
        have written := length_le_joined fun member (_ : member ∈ members) =>
          (startsBefore_memberText member).ne_nil
        omega
      have reads : ∀ member ∈ members, ∀ rest, EndsNumeral rest →
          readMember? steps (readValue? steps depth) (memberText member ++ rest) =
            some (member, rest) := by
        intro member inside rest ends
        have part : (memberText member).length ≤ (joined memberText members).length :=
          length_written_le inside
        have value := length_value_le member
        exact readMember?_written (ih member inside (by omega) ends) (by omega)
      have sequence := readSequence?_joined (.inr rfl) reads
        (fun member _ => startsBefore_memberText member) few rest
      rw [shape, List.cons_append, List.append_assoc, List.singleton_append]
      change Option.map _
        (readSequence? steps (readMember? steps (readValue? steps depth)) '}' _) = _
      rw [sequence]
      rfl

theorem ofText?_eq (readable : Readable maxDepth json) {space : Text}
    (blank : space.all isSpace = true) : ofText? (json.text ++ space) = some json := by
  have enough : json.text.length ≤ (json.text ++ space).length := by
    rw [List.length_append]
    omega
  have skipped : skipSpace space = [] :=
    List.dropWhile_eq_nil_iff.mpr (List.all_eq_true.mp blank)
  have ends : EndsNumeral space := by
    intro c member
    have inside : isSpace c = true :=
      List.all_eq_true.mp blank c (List.mem_of_mem_head? member)
    simp only [isSpace, Bool.or_eq_true, decide_eq_true_iff] at inside
    rcases inside with ((rfl | rfl) | rfl) | rfl <;> decide
  rw [ofText?, readable.readValue?_eq enough ends]
  simp [skipped]

end Readable

end Json

end MailTemplate
