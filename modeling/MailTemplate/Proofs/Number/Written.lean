import MailTemplate.Number.Shortest
import MailTemplate.Proofs.Number.Numeral

/-!
The text of a finite number. It writes a decimal number whose nearest floating-point number is the
one that was given, but for the sign of a zero.
-/

namespace MailTemplate

open Decimal (Writes signText)

theorem Decimal.writes_toDigits (negative : Bool) (value : Nat) :
    Writes ⟨negative, value, 0⟩ (signText negative ++ Nat.toDigits 10 value) := by
  have written := @Writes.digits negative (Nat.toDigits 10 value) [] Nat.toDigits_ne_nil
    (by rw [List.append_nil, all_isDigit_toDigits])
  rw [List.append_nil, digitsValue_toDigits, pointed, if_pos rfl, List.append_nil] at written
  exact written

namespace Double

theorem size_of_neighbour? {tie : TieRule} {number : Double} {exponent : Int} {found : Decimal}
    (neighbour : number.neighbour? tie exponent = some found) : found.size = number.size := by
  have reads := List.find?_some neighbour
  rw [Decimal.size_of_toDouble (of_decide_eq_true reads), absolute, size_ofParts number.size_lt]

theorem size_exactDecimal {number : Double} (finite : number.isFinite) :
    number.exactDecimal.size = number.size := by
  have above : (-1074 : Int).toNat = 0 := rfl
  have below : (- -1074 : Int).toNat = 1074 := rfl
  have powers : Nat.pow 5 1074 * unitsPerOne = 10 ^ 1074 := by decide +kernel
  apply sizeOfQuotient_units finite number.exactDecimal.divisor_pos
  simp only [Decimal.dividend, Decimal.divisor, exactDecimal, above, below, Nat.pow_zero,
    Nat.mul_one, Nat.mul_assoc, powers]

theorem size_shortest (tie : TieRule) {number : Double} (finite : number.isFinite) :
    (number.shortest tie).size = number.size := by
  rw [shortest]
  cases search : (List.range 17).findSome? fun (count : Nat) =>
      number.neighbour? tie (number.decimalExponent - count) with
  | none => exact size_exactDecimal finite
  | some found =>
      obtain ⟨count, _, neighbour⟩ := List.exists_of_findSome?_eq_some search
      exact size_of_neighbour? neighbour

theorem writes_digitsText {number : Double} (finite : number.isFinite) (negative : Bool) :
    ∃ written, Writes written (signText negative ++ number.digitsText) ∧
      written.negative = negative ∧ written.size = number.size := by
  rw [digitsText]
  by_cases whole : number.isWhole && number.units < wholeLimit * unitsPerOne
  · rw [if_pos whole]
    refine ⟨_, Decimal.writes_toDigits negative _, rfl, ?_⟩
    rw [Bool.and_eq_true, isWhole, decide_eq_true_iff] at whole
    apply sizeOfQuotient_units finite (Decimal.divisor_pos _)
    have exact := Nat.div_mul_cancel (Nat.dvd_of_mod_eq_zero whole.1)
    simp only [Decimal.dividend, Decimal.divisor, Int.toNat_zero, Int.neg_zero, Nat.pow_zero,
      Nat.mul_one, exact]
  · rw [if_neg whole]
    obtain ⟨written, writes, sign, same⟩ :=
      (number.shortest .upward).normalize.writes_positional negative
    refine ⟨written, writes, sign, ?_⟩
    rw [same, Decimal.size_normalize, size_shortest _ finite]

/-- The text of a finite number writes the number, and that of minus zero writes plus zero. -/
theorem writes_text {number : Double} (finite : number.isFinite) :
    ∃ written, Writes written number.text ∧
      written.toDouble = if number.isZero then zero else number := by
  have bound : number.size < infiniteSize := of_decide_eq_true finite
  have real : ¬number.isNaN := by
    rw [isNaN, decide_eq_true_iff]
    exact Nat.lt_asymm bound
  have bounded : ¬number.isInfinite := by
    rw [isInfinite, decide_eq_true_iff]
    exact Nat.ne_of_lt bound
  rw [text, if_neg real]
  by_cases none : number.isZero
  · rw [if_pos none, if_pos none]
    exact ⟨_, Decimal.writes_toDigits false 0, by decide +kernel⟩
  · rw [if_neg none, if_neg none, if_neg bounded]
    obtain ⟨written, writes, sign, same⟩ := number.writes_digitsText finite number.isNegative
    refine ⟨written, writes, ?_⟩
    rw [Decimal.toDouble_eq, sign, same, ofParts_size]

end Double

end MailTemplate
