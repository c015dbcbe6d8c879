import Mathlib.Algebra.Group.Int.Defs
import MailTemplate.Proofs.Condition.Writing
import MailTemplate.Proofs.Number.Whole
import MailTemplate.Proofs.Number.Written

/-!
Numbers that are written and read again, as the text of a value and as a literal to compare it with.
-/

namespace MailTemplate

open Decimal (Writes signText pointed)

theorem isBlank_eq_false_of_isDigit {c : Char} (digit : c.isDigit = true) : isBlank c = false := by
  rw [Char.isDigit, Bool.and_eq_true, decide_eq_true_iff, decide_eq_true_iff] at digit
  have lower : 48 ≤ c.toNat := digit.1
  have upper : c.toNat ≤ 57 := digit.2
  simp only [isBlank, Bool.or_eq_false_iff, Bool.and_eq_false_iff, decide_eq_false_iff_not]
  omega

theorem Decimal.Writes.of_mem {decimal : Decimal} {text : Text} (writes : Writes decimal text)
    {c : Char} (member : c ∈ text) : c.isDigit = true ∨ c = '-' ∨ c = '.' := by
  cases writes with
  | @digits negative whole fraction some each =>
      rw [List.all_eq_true] at each
      rw [signText, pointed, List.mem_append, List.mem_append] at member
      rcases member with sign | integral | rest
      · split at sign
        · exact .inr (.inl (List.mem_singleton.mp sign))
        · cases sign
      · exact .inl (each c (List.mem_append_left _ integral))
      · split at rest
        · cases rest
        · rcases List.mem_cons.mp rest with point | digit
          · exact .inr (.inr point)
          · exact .inl (each c (List.mem_append_right _ digit))

theorem Decimal.Writes.isWord {decimal : Decimal} {text : Text} (writes : Writes decimal text) :
    text.IsWord := by
  constructor
  · cases writes with
    | digits negative some each => simp [some]
  · intro c member
    rcases writes.of_mem member with digit | rfl | rfl
    · refine ⟨isBlank_eq_false_of_isDigit digit, ?_, ?_⟩
      · rintro (rfl | rfl) <;> exact absurd digit (by decide)
      · rintro (rfl | rfl) <;> exact absurd digit (by decide)
    · exact ⟨rfl, by simp [IsSignChar], by simp [IsQuote]⟩
    · exact ⟨rfl, by simp [IsSignChar], by simp [IsQuote]⟩

namespace Value

section

variable {number : Double}

theorem readNumber?_of_writes {decimal : Decimal} {text : Text} (writes : Writes decimal text)
    (finite : decimal.toDouble.isFinite) : readNumber? text = some decimal.toDouble := by
  rw [readNumber?, writes.isWord.trim_eq, writes.ofText?_eq]
  exact Option.filter_some_pos finite

theorem readNumber?_text (finite : number.isFinite) :
    readNumber? number.text = some (if number.isZero then .zero else number) := by
  obtain ⟨written, writes, same⟩ := number.writes_text finite
  rw [← same]
  apply readNumber?_of_writes writes
  rw [same]
  split
  · decide
  · exact finite

theorem ofText_of_readNumber? {raw : Text} (read : readNumber? raw = some number) :
    ofText raw = .number number := by
  have notTrue : raw ≠ trueWord := by
    rintro rfl
    cases read
  have notFalse : raw ≠ falseWord := by
    rintro rfl
    cases read
  have notNull : raw ≠ nullWord := by
    rintro rfl
    cases read
  rw [ofText, if_neg notTrue, if_neg notFalse, if_neg notNull, read]

theorem near_text (number : Double) :
    number.near (if number.isZero then .zero else number) := by
  by_cases none : number.isZero
  · rw [if_pos none]
    exact Double.near_zero none
  · rw [if_neg none]
    exact number.near_self

theorem looseEq_text (finite : number.isFinite) :
    (Value.number number).looseEq number.text := by
  rw [looseEq, readNumber?_text finite, Option.any_some]
  exact near_text number

theorem parse_comparison (finite : number.isFinite) {name source : Text} (operand : name.IsOperand)
    (writes : Comparison.Writes .looseEq name number.text source ∨
      Comparison.WritesBare .looseEq name number.text source) :
    Condition.parse source = .ok (.compared .looseEq name number.text) := by
  obtain ⟨_, written, _⟩ := number.writes_text finite
  rcases writes with quoted | bare
  · exact Condition.parse_of_writes operand written.isWord.signFree quoted
  · exact Condition.parse_of_writesBare operand written.isWord bare

theorem ofText_text_of_not_isFinite (endless : ¬number.isFinite) :
    ofText number.text = .string number.text := by
  rw [Double.text]
  by_cases real : number.isNaN
  · rw [if_pos real]
    rfl
  · have infinite : number.size = Double.infiniteSize := by
      rw [Double.isNaN, decide_eq_true_iff] at real
      rw [Double.isFinite, decide_eq_true_iff] at endless
      omega
    have some : ¬number.isZero := by
      rw [Double.isZero, decide_eq_true_iff, infinite]
      decide
    have endless : number.isInfinite := decide_eq_true infinite
    rw [if_neg real, if_neg some, if_pos endless]
    cases number.isNegative <;> rfl

end

/-- The text of a finite number reads back as the number, minus zero as plus zero, the number is
loosely equal to it, and a condition that compares them holds. The text of any other number reads as
a string. -/
theorem number_reads_back (number : Double) :
    (number.isFinite →
      ofText (Value.number number).text = .number (if number.isZero then .zero else number) ∧
        (Value.number number).looseEq (Value.number number).text ∧
        (∀ (context : Context) (name : Text), context.get? name = some (.number number) →
          (Condition.compared .looseEq name (Value.number number).text).holds context) ∧
        ∀ name source : Text, name.IsOperand →
          Comparison.Writes .looseEq name (Value.number number).text source ∨
            Comparison.WritesBare .looseEq name (Value.number number).text source →
          Condition.parse source = .ok (.compared .looseEq name (Value.number number).text)) ∧
    (¬number.isFinite → ofText (Value.number number).text = .string (Value.number number).text) := by
  refine ⟨?_, ofText_text_of_not_isFinite⟩
  intro finite
  refine ⟨ofText_of_readNumber? (readNumber?_text finite), looseEq_text finite, ?_, ?_⟩
  · intro context name bound
    rw [Condition.holds, Context.lookup, bound]
    exact looseEq_text finite
  · intro name source operand writes
    exact parse_comparison finite operand writes

/-- The negative number that is nearest to zero. Its text has 324 digits after the point. -/
def leastNegative : Double := ⟨0x8000000000000001⟩

theorem number_reads_back_leastNegative :
    leastNegative.isFinite ∧ ofText (Value.number leastNegative).text = .number leastNegative ∧
      (Value.number leastNegative).looseEq (Value.number leastNegative).text := by
  have finite : leastNegative.isFinite := by decide
  have some : ¬leastNegative.isZero := by decide
  obtain ⟨back, equal, _, _⟩ := (number_reads_back leastNegative).1 finite
  rw [if_neg some] at back
  exact ⟨finite, back, equal⟩

theorem readNumber?_toString {value : Int} (bound : value.natAbs ≤ 2 ^ 51) :
    readNumber? (toString value).toList = some (Double.ofInt value) := by
  have read := readNumber?_text (Double.isFinite_ofInt bound)
  rw [Double.text_ofInt bound] at read
  rw [read]
  by_cases none : value = 0
  · have nothing : Double.ofInt 0 = .zero := by decide +kernel
    rw [none, nothing, ite_self]
  · rw [if_neg (mt (Double.isZero_ofInt_iff bound).mp none)]

/-- Whole numbers up to `2 ^ 51` are written with their own digits, and are equal to each other, or
loosely equal to each other's text, only when they are the same. -/
theorem whole_numbers_distinct {first second : Int} (firstBound : first.natAbs ≤ 2 ^ 51)
    (secondBound : second.natAbs ≤ 2 ^ 51) :
    (ofInt first).text = (toString first).toList ∧
      ((ofInt first).looseEq (toString second).toList ↔ first = second) ∧
      ((ofInt first).equals (ofInt second) ↔ first = second) := by
  have near := Double.near_ofInt_iff firstBound secondBound
  refine ⟨Double.text_ofInt firstBound, ?_, near⟩
  rw [ofInt, looseEq, readNumber?_toString secondBound, Option.any_some]
  exact near

theorem whole_numbers_distinct_greatest :
    (2 ^ 51 : Int).natAbs ≤ 2 ^ 51 ∧ (2 ^ 51 - 1 : Int).natAbs ≤ 2 ^ 51 ∧
      (ofInt (2 ^ 51)).text = (toString (2 ^ 51 : Int)).toList ∧
      ((ofInt (2 ^ 51)).looseEq (toString (2 ^ 51 - 1 : Int)).toList ↔
        (2 ^ 51 : Int) = 2 ^ 51 - 1) ∧
      ((ofInt (2 ^ 51)).equals (ofInt (2 ^ 51 - 1)) ↔ (2 ^ 51 : Int) = 2 ^ 51 - 1) := by
  have greatest : (2 ^ 51 : Int).natAbs ≤ 2 ^ 51 := by decide
  have before : (2 ^ 51 - 1 : Int).natAbs ≤ 2 ^ 51 := by decide
  exact ⟨greatest, before, whole_numbers_distinct greatest before⟩

/-- One whole number further, the next is near. -/
example : (ofInt (2 ^ 51)).equals (ofInt (2 ^ 51 + 1)) = true := by
  decide +kernel

end Value

end MailTemplate
