import MailTemplate.Number.Shortest
import MailTemplate.Proofs.Number.Rounding
import MailTemplate.Proofs.Text.Splitting

/-!
Decimal numbers and the texts that write them without an exponent. Reading such a text gives the
number back, and laying out the digits of a decimal number, or dropping its zeros, keeps the
floating-point number nearest to it.
-/

namespace MailTemplate

namespace Decimal

def dividend (decimal : Decimal) : Nat :=
  decimal.digits * 10 ^ decimal.exponent.toNat

def divisor (decimal : Decimal) : Nat :=
  10 ^ (-decimal.exponent).toNat

def size (decimal : Decimal) : Nat :=
  Double.sizeOfQuotient decimal.dividend decimal.divisor

theorem divisor_pos (decimal : Decimal) : 0 < decimal.divisor :=
  Nat.pow_pos (by decide)

theorem size_lt (decimal : Decimal) : decimal.size < Double.patternsPerSign :=
  Double.sizeOfQuotient_lt

theorem size_of_great {decimal : Decimal} (some : decimal.digits ≠ 0)
    (great : 310 < decimal.exponent) : decimal.size = Double.infiniteSize := by
  have limit : 2 ^ 2098 ≤ 10 ^ 311 * Double.unitsPerOne := by decide +kernel
  have value (places : Nat) (within : places ≤ decimal.exponent.toNat) :
      10 ^ places * Double.unitsPerOne ≤ decimal.dividend * Double.unitsPerOne := by
    have power : 10 ^ places ≤ 10 ^ decimal.exponent.toNat :=
      Nat.pow_le_pow_right (by decide) within
    exact Nat.mul_le_mul_right _
      (Nat.le_trans power (Nat.le_mul_of_pos_left _ (Nat.pos_of_ne_zero some)))
  have whole : decimal.divisor = 1 := by
    rw [divisor, Int.toNat_eq_zero.mpr (by omega), Nat.pow_zero]
  have bound : decimal.divisor * 2 ^ 2098 ≤ decimal.dividend * Double.unitsPerOne := by
    rw [whole, Nat.one_mul]
    exact Nat.le_trans limit (value 311 (by omega))
  exact Nat.le_antisymm Double.sizeOfQuotient_le
    (Double.le_sizeOfQuotient decimal.divisor_pos (by decide) bound)

theorem size_of_small {decimal : Decimal}
    (small : decimal.exponent < -(400 + Nat.log2 decimal.digits)) : decimal.size = 0 := by
  have limit : 2 * (2 * Double.unitsPerOne) ≤ 10 ^ 401 := by decide +kernel
  have digits : decimal.digits < 2 ^ Nat.log2 decimal.digits * 2 := Nat.lt_log2_self
  have powers : 2 ^ Nat.log2 decimal.digits ≤ 10 ^ Nat.log2 decimal.digits :=
    Nat.pow_le_pow_left (by decide) _
  have whole : decimal.dividend = decimal.digits := by
    rw [dividend, Int.toNat_eq_zero.mpr (by omega), Nat.pow_zero, Nat.mul_one]
  have places : Nat.log2 decimal.digits + 401 ≤ (-decimal.exponent).toNat := by omega
  have product := Nat.mul_le_mul powers limit
  simp only [← Nat.pow_add] at product
  have positive : 0 < Double.unitsPerOne := by decide +kernel
  apply Double.sizeOfQuotient_eq_zero
  calc 2 * (decimal.dividend * Double.unitsPerOne)
      < 2 * (2 ^ Nat.log2 decimal.digits * 2 * Double.unitsPerOne) := by
        rw [whole]
        exact Nat.mul_lt_mul_of_pos_left (Nat.mul_lt_mul_of_pos_right digits positive) (by decide)
    _ = 2 ^ Nat.log2 decimal.digits * (2 * (2 * Double.unitsPerOne)) := by
        rw [Nat.mul_assoc, Nat.mul_left_comm]
    _ ≤ 10 ^ (Nat.log2 decimal.digits + 401) := product
    _ ≤ decimal.divisor := Nat.pow_le_pow_right (by decide) places

theorem size_of_zero {decimal : Decimal} (none : decimal.digits = 0) : decimal.size = 0 := by
  apply Double.sizeOfQuotient_eq_zero
  rw [dividend, none, Nat.zero_mul, Nat.zero_mul]
  exact decimal.divisor_pos

/-- The bounds on exponents save work and change nothing. -/
theorem toDouble_eq (decimal : Decimal) :
    decimal.toDouble = .ofParts decimal.negative decimal.size := by
  rw [toDouble]
  by_cases none : decimal.digits = 0
  · rw [if_pos none, size_of_zero none]
  rw [if_neg none]
  by_cases great : 310 < decimal.exponent
  · rw [if_pos great, size_of_great none great]
  rw [if_neg great]
  by_cases small : decimal.exponent < -(400 + Nat.log2 decimal.digits)
  · rw [if_pos small, size_of_small small]
  rw [if_neg small, size, dividend, divisor, Nat.pow_eq, Nat.pow_eq]
  by_cases whole : 0 ≤ decimal.exponent
  · rw [if_pos whole, Double.ofQuotient, Int.toNat_eq_zero.mpr (by omega : -decimal.exponent ≤ 0),
      Nat.pow_zero]
  · rw [if_neg whole, Double.ofQuotient, Int.toNat_eq_zero.mpr (by omega : decimal.exponent ≤ 0),
      Nat.pow_zero, Nat.mul_one]

theorem size_of_toDouble {decimal : Decimal} {number : Double}
    (same : decimal.toDouble = number) : decimal.size = number.size := by
  rw [← same, toDouble_eq, Double.size_ofParts decimal.size_lt]

theorem digitsValue_append (first second : Text) :
    digitsValue (first ++ second) = Nat.ofDigitChars 10 second (digitsValue first) :=
  Nat.ofDigitChars_append 0

theorem digitsValue_append_zeros (digits : Text) (count : Nat) :
    digitsValue (digits ++ List.replicate count '0') = digitsValue digits * 10 ^ count := by
  rw [digitsValue_append, Nat.ofDigitChars_replicate_zero, Nat.mul_comm]

theorem digitsValue_zeros_append (digits : Text) (count : Nat) :
    digitsValue (List.replicate count '0' ++ digits) = digitsValue digits := by
  rw [digitsValue, Nat.ofDigitChars_append, Nat.ofDigitChars_replicate_zero, Nat.mul_zero]
  rfl

theorem digitsValue_toDigits (number : Nat) : digitsValue (Nat.toDigits 10 number) = number :=
  Nat.ofDigitChars_ten_toDigits

theorem exists_mul_of_zeros (number : Nat) :
    ∃ quotient, number = quotient *
      10 ^ ((Nat.toDigits 10 number).reverse.takeWhile (· = '0')).length := by
  have parts := List.takeWhile_append_dropWhile (p := (· = '0'))
    (l := (Nat.toDigits 10 number).reverse)
  have each := List.all_takeWhile (p := (· = '0')) (l := (Nat.toDigits 10 number).reverse)
  generalize List.takeWhile (· = '0') (Nat.toDigits 10 number).reverse = zeros at *
  generalize List.dropWhile (· = '0') (Nat.toDigits 10 number).reverse = rest at parts
  have same : zeros = List.replicate zeros.length '0' := by
    rw [List.eq_replicate_iff]
    exact ⟨rfl, fun c member => by simpa using List.all_eq_true.mp each c member⟩
  have digits : Nat.toDigits 10 number = rest.reverse ++ List.replicate zeros.length '0' := by
    rw [← List.reverse_reverse (Nat.toDigits 10 number), ← parts, List.reverse_append,
      ← List.reverse_replicate, ← same]
  refine ⟨digitsValue rest.reverse, ?_⟩
  rw [← digitsValue_append_zeros, ← digits, digitsValue_toDigits]

theorem size_normalize (decimal : Decimal) : decimal.normalize.size = decimal.size := by
  by_cases none : decimal.digits = 0
  · rw [size_of_zero none, size_of_zero]
    rw [normalize, if_pos none]
  · apply Double.sizeOfQuotient_congr (divisor_pos _) (divisor_pos _)
    obtain ⟨quotient, same⟩ := exists_mul_of_zeros decimal.digits
    rw [dividend, dividend, divisor, divisor, normalize, if_neg none]
    generalize ((Nat.toDigits 10 decimal.digits).reverse.takeWhile (· = '0')).length = zeros at *
    have places : (decimal.exponent + zeros).toNat + (-decimal.exponent).toNat =
        zeros + (decimal.exponent.toNat + (-(decimal.exponent + zeros)).toNat) := by
      omega
    have power : 0 < 10 ^ zeros := Nat.pow_pos (by decide)
    rw [Nat.pow_eq, same, Nat.mul_div_cancel _ power]
    rw [Nat.mul_assoc, ← Nat.pow_add, places, Nat.pow_add, Nat.pow_add, Nat.mul_assoc, Nat.mul_assoc]

def signText (negative : Bool) : Text :=
  if negative then ['-'] else []

def pointed (fraction : Text) : Text :=
  if fraction = [] then [] else '.' :: fraction

inductive Writes : Decimal → Text → Prop
  | digits (negative : Bool) {whole fraction : Text} (some : whole ≠ [])
      (each : (whole ++ fraction).all Char.isDigit = true) :
      Writes ⟨negative, digitsValue (whole ++ fraction), -fraction.length⟩
        (signText negative ++ (whole ++ pointed fraction))

theorem takeSign_signText (negative : Bool) {digits : Text} (some : digits ≠ [])
    (each : digits.all Char.isDigit = true) (rest : Text) :
    takeSign (signText negative ++ (digits ++ rest)) = (negative, digits ++ rest) := by
  cases negative with
  | true => rfl
  | false =>
      obtain ⟨first, digits, rfl⟩ := List.exists_cons_of_ne_nil some
      rw [List.all_cons, Bool.and_eq_true] at each
      have minus : first ≠ '-' := fun same => absurd (same ▸ each.1) (by decide)
      have plus : first ≠ '+' := fun same => absurd (same ▸ each.1) (by decide)
      simp [signText, takeSign, minus, plus]

theorem takeDigits_append {digits rest : Text} (each : digits.all Char.isDigit = true)
    (stop : ∀ c ∈ rest.head?, c.isDigit = false) : takeDigits (digits ++ rest) = (digits, rest) := by
  obtain ⟨taken, left⟩ := Text.span_append rest each stop
  rw [takeDigits, taken, left]

theorem takeFraction_pointed {fraction : Text} (each : fraction.all Char.isDigit = true) :
    takeFraction (pointed fraction) = (if fraction = [] then none else some fraction, []) := by
  rw [pointed]
  by_cases none : fraction = []
  · rw [if_pos none, if_pos none]
    rfl
  · have digits := @takeDigits_append fraction [] each (by simp)
    rw [List.append_nil] at digits
    rw [if_neg none, if_neg none, takeFraction, digits]

theorem ofText?_of_digits {text signed pointed whole : Text} {negative : Bool}
    {fraction : Option Text} (sign : takeSign text = (negative, signed))
    (digits : takeDigits signed = (whole, pointed)) (point : takeFraction pointed = (fraction, []))
    (some : whole ≠ []) : ofText? text = .some (ofParts negative whole fraction none) := by
  have filled : ¬(whole.isEmpty ∧ (fraction.getD []).isEmpty) :=
    fun empty => some (List.isEmpty_iff.mp empty.1)
  rw [ofText?, sign]
  dsimp only
  rw [digits]
  dsimp only
  rw [point]
  dsimp only
  rw [takeExponent?, Option.bind_eq_bind, Option.bind_some, guard, if_pos ⟨rfl, filled⟩]
  rfl

theorem Writes.ofText?_eq {decimal : Decimal} {text : Text} (writes : Writes decimal text) :
    ofText? text = some decimal := by
  cases writes with
  | @digits negative whole fraction some each =>
      rw [List.all_append, Bool.and_eq_true] at each
      have stop : ∀ c ∈ (pointed fraction).head?, c.isDigit = false := by
        intro c member
        rw [pointed] at member
        split at member
        · cases member
        · cases member
          decide
      have read := ofText?_of_digits (takeSign_signText negative some each.1 (pointed fraction))
        (takeDigits_append each.1 stop) (takeFraction_pointed each.2) some
      rw [read, ofParts]
      by_cases none : fraction = [] <;> simp [none]

theorem positional_eq (decimal : Decimal) :
    decimal.positional = decimal.positionalDigits.1 ++ pointed decimal.positionalDigits.2 := by
  rw [positional, pointed]
  split
  · rename_i whole laid
    rw [laid]
    simp
  · rename_i whole fraction some laid
    rw [laid, if_neg]
    intro none
    exact some none

theorem all_isDigit_zeros (count : Nat) : (List.replicate count '0').all Char.isDigit = true := by
  rw [List.all_eq_true]
  intro c member
  rw [(List.mem_replicate.mp member).2]
  rfl

theorem all_isDigit_toDigits (number : Nat) : (Nat.toDigits 10 number).all Char.isDigit = true := by
  rw [List.all_eq_true]
  intro c member
  exact Nat.isDigit_of_mem_toDigits (by decide) (by decide) member

theorem positionalDigits_spec (decimal : Decimal) :
    decimal.positionalDigits.1 ≠ [] ∧
      (decimal.positionalDigits.1 ++ decimal.positionalDigits.2).all Char.isDigit = true ∧
      digitsValue (decimal.positionalDigits.1 ++ decimal.positionalDigits.2) = decimal.dividend ∧
      decimal.positionalDigits.2.length = (-decimal.exponent).toNat := by
  rw [positionalDigits, dividend]
  by_cases whole : 0 ≤ decimal.exponent
  · have places : (-decimal.exponent).toNat = 0 := by omega
    rw [if_pos whole, List.append_nil, digitsValue_append_zeros, digitsValue_toDigits, places]
    refine ⟨?_, ?_, rfl, rfl⟩
    · simp [Nat.toDigits_ne_nil]
    · rw [List.all_append, all_isDigit_toDigits, all_isDigit_zeros]
      rfl
  · have power : decimal.exponent.toNat = 0 := by omega
    rw [if_neg whole, List.splitAt_eq, List.take_append_drop, digitsValue_zeros_append,
      digitsValue_toDigits, power, Nat.pow_zero, Nat.mul_one]
    generalize (-decimal.exponent).toNat = places
    have longer : places + 1 ≤ (List.replicate (places + 1 - (Nat.toDigits 10 decimal.digits).length)
        '0' ++ Nat.toDigits 10 decimal.digits).length := by
      rw [List.length_append, List.length_replicate]
      omega
    refine ⟨?_, ?_, rfl, ?_⟩
    · intro none
      have length := congrArg List.length none
      rw [List.length_take, List.length_nil] at length
      omega
    · rw [List.all_append, all_isDigit_toDigits, all_isDigit_zeros]
      rfl
    · rw [List.length_drop]
      omega

theorem writes_positional (decimal : Decimal) (negative : Bool) :
    ∃ written, Writes written (signText negative ++ decimal.positional) ∧
      written.negative = negative ∧ written.size = decimal.size := by
  obtain ⟨some, each, value, places⟩ := decimal.positionalDigits_spec
  rw [positional_eq]
  refine ⟨_, Writes.digits negative some each, rfl, ?_⟩
  have above : (-((-decimal.exponent).toNat : Int)).toNat = 0 := by omega
  have below : (- -((-decimal.exponent).toNat : Int)).toNat = (-decimal.exponent).toNat := by omega
  rw [value, places]
  simp only [size, divisor, dividend, above, below, Nat.pow_zero, Nat.mul_one]

end Decimal

end MailTemplate
