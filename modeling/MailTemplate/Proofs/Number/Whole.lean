import MailTemplate.Number.Shortest
import MailTemplate.Proofs.Number.Rounding

/-!
Whole numbers as floating-point numbers. Up to `2 ^ 53` none is rounded, up to `2 ^ 51` they lie at
least four steps apart, and each is written with its own digits.
-/

namespace MailTemplate

namespace Double

section

variable {number : Nat}

theorem log2_mul_power (digits : Nat.log2 number ≤ 52) :
    2 ^ Nat.log2 number * 2 ^ (52 - Nat.log2 number) = numbersPerExponent := by
  rw [← Nat.pow_add, Nat.add_sub_cancel' digits, numbersPerExponent_eq]

theorem succ_mul_power_le (digits : Nat.log2 number ≤ 52) :
    (number + 1) * 2 ^ (52 - Nat.log2 number) ≤ 2 * numbersPerExponent := by
  have above : number < 2 ^ (Nat.log2 number + 1) := Nat.lt_log2_self
  rw [← log2_mul_power digits, ← Nat.mul_assoc, ← Nat.pow_succ']
  exact Nat.mul_le_mul_right _ above

theorem le_mul_power (some : number ≠ 0) (digits : Nat.log2 number ≤ 52) :
    numbersPerExponent ≤ number * 2 ^ (52 - Nat.log2 number) := by
  rw [← log2_mul_power digits]
  exact Nat.mul_le_mul_right _ (Nat.log2_self_le some)

theorem significant_whole (some : number ≠ 0) (digits : Nat.log2 number ≤ 52) :
    Significant (number * 2 ^ (52 - Nat.log2 number)) (Nat.log2 number + 1022) := by
  have above := succ_mul_power_le digits
  have power := Nat.two_pow_pos (52 - Nat.log2 number)
  rw [Nat.succ_mul] at above
  exact ⟨by omega, .inr (le_mul_power some digits)⟩

theorem whole_units (digits : Nat.log2 number ≤ 52) :
    number * 2 ^ (52 - Nat.log2 number) * 2 ^ (Nat.log2 number + 1022) = number * unitsPerOne := by
  have units : unitsPerOne = 2 ^ 1074 := by decide +kernel
  have places : 52 - Nat.log2 number + (Nat.log2 number + 1022) = 1074 := by omega
  rw [Nat.mul_assoc, ← pow_add, places, units]

theorem whole_size_lt (some : number ≠ 0) (digits : Nat.log2 number ≤ 52) :
    (Nat.log2 number + 1022) * numbersPerExponent + number * 2 ^ (52 - Nat.log2 number) <
      infiniteSize := by
  have exponents : (Nat.log2 number + 1022) * numbersPerExponent ≤ 1074 * numbersPerExponent :=
    Nat.mul_le_mul_right _ (by omega)
  have digits := (significant_whole some digits).digits
  rw [infiniteSize_eq]
  rw [numbersPerExponent_eq] at *
  omega

theorem sizeOfQuotient_whole (some : number ≠ 0) (digits : Nat.log2 number ≤ 52) :
    sizeOfQuotient number 1 =
      (Nat.log2 number + 1022) * numbersPerExponent + number * 2 ^ (52 - Nat.log2 number) := by
  have bound := Nat.le_of_lt (whole_size_lt some digits)
  have exact : number * unitsPerOne =
      number * 2 ^ (52 - Nat.log2 number) * 2 ^ (Nat.log2 number + 1022) * 1 := by
    rw [whole_units digits, Nat.mul_one]
  rw [sizeOfQuotient_significant (significant_whole some digits) (by decide) exact,
    Nat.min_eq_left bound]

theorem sizeOfQuotient_nothing : sizeOfQuotient 0 1 = 0 :=
  sizeOfQuotient_eq_zero (by rw [Nat.zero_mul]; decide)

end

section

variable {first second : Nat}

theorem log2_le_of_le (bound : second ≤ 2 ^ 51) : Nat.log2 second ≤ 51 := by
  by_cases none : second = 0
  · rw [none]
    decide
  · have digits := (Nat.log2_lt none).mpr (Nat.lt_of_le_of_lt bound (by decide : 2 ^ 51 < 2 ^ 52))
    omega

theorem log2_lt_of_lt (some : first ≠ 0) (bound : first < 2 ^ 51) :
    Nat.log2 first ≤ 50 ∧ 4 ≤ 2 ^ (52 - Nat.log2 first) := by
  have digits := (Nat.log2_lt some).mpr bound
  have power : 2 ^ 2 ≤ 2 ^ (52 - Nat.log2 first) := Nat.pow_le_pow_right (by decide) (by omega)
  exact ⟨by omega, power⟩

/-- Different whole numbers up to `2 ^ 51` are four steps apart or more. -/
theorem sizeOfQuotient_apart (less : first < second) (bound : second ≤ 2 ^ 51) :
    sizeOfQuotient first 1 + 4 ≤ sizeOfQuotient second 1 := by
  have some : second ≠ 0 := by omega
  have secondDigits := log2_le_of_le bound
  rw [sizeOfQuotient_whole some (by omega)]
  by_cases none : first = 0
  · rw [none, sizeOfQuotient_nothing, Nat.add_mul, numbersPerExponent_eq]
    omega
  obtain ⟨firstDigits, quarter⟩ := log2_lt_of_lt none (by omega : first < 2 ^ 51)
  rw [sizeOfQuotient_whole none (by omega)]
  have steps : (first + 1) * 2 ^ (52 - Nat.log2 first) =
      first * 2 ^ (52 - Nat.log2 first) + 2 ^ (52 - Nat.log2 first) := Nat.succ_mul _ _
  by_cases same : Nat.log2 first = Nat.log2 second
  · have next : (first + 1) * 2 ^ (52 - Nat.log2 first) ≤ second * 2 ^ (52 - Nat.log2 first) :=
      Nat.mul_le_mul_right _ less
    rw [← same]
    omega
  · have order : Nat.log2 first ≤ Nat.log2 second :=
      (Nat.le_log2 some).mpr (Nat.le_trans (Nat.log2_self_le none) (Nat.le_of_lt less))
    have exponents : (Nat.log2 first + 1022 + 1) * numbersPerExponent ≤
        (Nat.log2 second + 1022) * numbersPerExponent := Nat.mul_le_mul_right _ (by omega)
    have above := succ_mul_power_le (by omega : Nat.log2 first ≤ 52)
    have below := le_mul_power some (by omega)
    rw [Nat.succ_mul] at exponents
    omega

end

section

variable {value : Int}

theorem size_ofInt (value : Int) : (ofInt value).size = sizeOfQuotient value.natAbs 1 :=
  size_ofParts sizeOfQuotient_lt

theorem isNegative_ofInt (value : Int) : (ofInt value).isNegative = decide (value < 0) :=
  isNegative_ofParts sizeOfQuotient_lt

theorem isNaN_ofInt (value : Int) : ¬(ofInt value).isNaN := by
  rw [isNaN, decide_eq_true_iff, size_ofInt]
  exact Nat.not_lt.mpr sizeOfQuotient_le

theorem place_ofInt (value : Int) :
    (ofInt value).place =
      if value < 0 then -1 - (sizeOfQuotient value.natAbs 1 : Int)
      else sizeOfQuotient value.natAbs 1 := by
  rw [place, isNegative_ofInt, size_ofInt]
  simp only [decide_eq_true_eq]

theorem near_ofInt_iff {first second : Int} (firstBound : first.natAbs ≤ 2 ^ 51)
    (secondBound : second.natAbs ≤ 2 ^ 51) :
    (ofInt first).near (ofInt second) ↔ first = second := by
  constructor
  · intro near
    have close := (near_iff_place fun both => isNaN_ofInt first both.1).mp near
    rw [place_ofInt, place_ofInt] at close
    rcases Nat.lt_trichotomy first.natAbs second.natAbs with less | same | greater
    · have apart := sizeOfQuotient_apart less secondBound
      split at close <;> split at close <;> omega
    · have apart (some : 0 < second.natAbs) := sizeOfQuotient_apart some secondBound
      rw [same] at close
      split at close <;> split at close <;> omega
    · have apart := sizeOfQuotient_apart greater firstBound
      split at close <;> split at close <;> omega
  · rintro rfl
    exact near_self _

theorem exists_significant_ofInt (bound : value.natAbs ≤ 2 ^ 51) :
    ∃ significand shift, Significant significand shift ∧
      (ofInt value).size = shift * numbersPerExponent + significand ∧
      (ofInt value).size < infiniteSize ∧ significand * 2 ^ shift = value.natAbs * unitsPerOne := by
  rw [size_ofInt]
  by_cases none : value.natAbs = 0
  · refine ⟨0, 0, ⟨by decide, .inl rfl⟩, ?_⟩
    simp only [none, sizeOfQuotient_nothing, Nat.zero_mul, true_and, and_true]
    decide
  · have digits : Nat.log2 value.natAbs ≤ 52 := Nat.le_succ_of_le (log2_le_of_le bound)
    rw [sizeOfQuotient_whole none digits]
    exact ⟨_, _, significant_whole none digits, rfl, whole_size_lt none digits, whole_units digits⟩

theorem isFinite_ofInt (bound : value.natAbs ≤ 2 ^ 51) : (ofInt value).isFinite := by
  obtain ⟨_, _, _, _, finite, _⟩ := exists_significant_ofInt bound
  exact decide_eq_true finite

theorem units_ofInt (bound : value.natAbs ≤ 2 ^ 51) :
    (ofInt value).units = value.natAbs * unitsPerOne := by
  obtain ⟨_, _, normal, same, _, exact⟩ := exists_significant_ofInt bound
  rw [units_eq normal same, exact]

theorem isZero_ofInt_iff (bound : value.natAbs ≤ 2 ^ 51) : (ofInt value).isZero ↔ value = 0 := by
  rw [isZero, decide_eq_true_iff, size_ofInt]
  by_cases none : value = 0
  · rw [none]
    exact iff_of_true sizeOfQuotient_nothing rfl
  · have apart := sizeOfQuotient_apart (by omega : 0 < value.natAbs) bound
    omega

theorem digitsText_ofInt (bound : value.natAbs ≤ 2 ^ 51) :
    (ofInt value).digitsText = Nat.toDigits 10 value.natAbs := by
  have positive : 0 < unitsPerOne := by decide +kernel
  have below : value.natAbs < wholeLimit := Nat.lt_of_le_of_lt bound (by decide)
  have whole : (ofInt value).isWhole ∧ (ofInt value).units < wholeLimit * unitsPerOne := by
    rw [isWhole, decide_eq_true_iff, units_ofInt bound, Nat.mul_mod_left]
    exact ⟨rfl, Nat.mul_lt_mul_of_pos_right below positive⟩
  rw [digitsText, if_pos (by simpa using whole), units_ofInt bound,
    Nat.mul_div_cancel _ positive]

theorem toList_toString (value : Int) :
    (toString value).toList =
      (if value < 0 then ['-'] else []) ++ Nat.toDigits 10 value.natAbs := by
  rw [Int.toString_eq_repr]
  cases value with
  | ofNat value =>
      rw [Int.repr, Nat.toList_repr]
      rfl
  | negSucc value =>
      rw [Int.repr, String.toList_append, Nat.toList_repr, if_pos (Int.negSucc_lt_zero value)]
      rfl

theorem text_ofInt (bound : value.natAbs ≤ 2 ^ 51) : (ofInt value).text = (toString value).toList := by
  have bounded : ¬(ofInt value).isInfinite := by
    rw [isInfinite, decide_eq_true_iff]
    exact Nat.ne_of_lt (of_decide_eq_true (isFinite_ofInt bound))
  have zero := isZero_ofInt_iff bound
  rw [text, if_neg (isNaN_ofInt value)]
  by_cases none : value = 0
  · rw [if_pos (zero.mpr none), none]
    rfl
  · rw [if_neg (mt zero.mp none), if_neg bounded, digitsText_ofInt bound, toList_toString,
      isNegative_ofInt]
    simp only [decide_eq_true_eq]

end

end Double

end MailTemplate
