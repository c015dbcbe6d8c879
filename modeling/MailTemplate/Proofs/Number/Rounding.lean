import MailTemplate.Proofs.Number.Line

/-!
Rounding to floating-point numbers. It depends on the value of a quotient alone, it gives back every
finite number from a quotient of its value, and it has known results beyond the greatest number and
far below the least.
-/

namespace MailTemplate

namespace Double

/-- A number is a significand times a power of two. The significand has all its digits unless the
power is the least one. -/
structure Significant (significand shift : Nat) : Prop where
  digits : significand < 2 * numbersPerExponent
  full : shift = 0 ∨ numbersPerExponent ≤ significand

section

variable {significand shift : Nat} {number : Double}

theorem exists_significant (number : Double) : ∃ significand shift,
    Significant significand shift ∧ number.size = shift * numbersPerExponent + significand := by
  have rest : number.size % numbersPerExponent < numbersPerExponent :=
    Nat.mod_lt _ (Nat.two_pow_pos 52)
  have parts := Nat.div_add_mod' number.size numbersPerExponent
  by_cases least : number.size / numbersPerExponent = 0
  · refine ⟨number.size % numbersPerExponent, 0, ⟨by omega, .inl rfl⟩, ?_⟩
    rw [least] at parts
    exact parts.symm
  · obtain ⟨shift, next⟩ := Nat.exists_eq_succ_of_ne_zero least
    refine ⟨numbersPerExponent + number.size % numbersPerExponent, shift,
      ⟨by omega, .inr (Nat.le_add_right _ _)⟩, ?_⟩
    rw [next, Nat.succ_mul] at parts
    omega

theorem units_eq (normal : Significant significand shift)
    (same : number.size = shift * numbersPerExponent + significand) :
    number.units = significand * 2 ^ shift := by
  have digits := normal.digits
  have positive : 0 < numbersPerExponent := Nat.two_pow_pos 52
  rw [units]
  by_cases below : significand < numbersPerExponent
  · have least : shift = 0 := normal.full.resolve_right (by omega)
    subst least
    rw [Nat.zero_mul, Nat.zero_add] at same
    rw [same, Nat.div_eq_of_lt below, Nat.mod_eq_of_lt below, if_pos rfl, Nat.pow_zero, Nat.mul_one]
  · obtain ⟨fraction, rfl⟩ := Nat.exists_eq_add_of_le (Nat.le_of_not_lt below)
    have inside : fraction < numbersPerExponent := by omega
    have carried : number.size = fraction + numbersPerExponent * (shift + 1) := by
      rw [same, Nat.mul_comm shift, Nat.mul_succ]
      omega
    rw [carried, Nat.add_mul_div_left _ _ positive, Nat.add_mul_mod_self_left,
      Nat.div_eq_of_lt inside, Nat.mod_eq_of_lt inside, Nat.zero_add, if_neg (Nat.succ_ne_zero _),
      Nat.add_sub_cancel, Nat.pow_eq]

theorem log2_units (normal : Significant significand shift) :
    Nat.log2 (significand * 2 ^ shift) - 52 = shift := by
  have digits := normal.digits
  rw [numbersPerExponent_eq] at digits
  by_cases none : significand = 0
  · have least : shift = 0 := normal.full.resolve_right (by rw [numbersPerExponent_eq]; omega)
    rw [none, least]
    rfl
  · have some : significand * 2 ^ shift ≠ 0 :=
      Nat.mul_ne_zero none (Nat.ne_of_gt (Nat.two_pow_pos shift))
    have above : significand * 2 ^ shift < 2 ^ (shift + 53) := by
      rw [Nat.pow_add, Nat.mul_comm]
      exact Nat.mul_lt_mul_of_pos_left (by omega) (Nat.two_pow_pos shift)
    have upper := (Nat.log2_lt some).mpr above
    rcases normal.full with least | full
    · omega
    · have below : 2 ^ (shift + 52) ≤ significand * 2 ^ shift := by
        rw [Nat.pow_add, Nat.mul_comm]
        exact Nat.mul_le_mul_right _ full
      have lower := (Nat.le_log2 some).mpr below
      omega

end

section

variable {dividend divisor : Nat}

theorem roundQuotient_scaled {factor : Nat} (positive : 0 < factor) :
    roundQuotient (dividend * factor) (divisor * factor) = roundQuotient dividend divisor := by
  rw [roundQuotient, roundQuotient]
  rw [Nat.mul_div_mul_right _ _ positive, Nat.mul_mod_mul_right, ← Nat.mul_assoc]
  simp only [Nat.mul_lt_mul_right positive]

theorem roundQuotient_exact (positive : 0 < divisor) (quotient : Nat) :
    roundQuotient (quotient * divisor) divisor = quotient := by
  rw [roundQuotient]
  rw [Nat.mul_mod_left, Nat.mul_zero, if_pos positive, Nat.mul_div_cancel _ positive]

theorem div_le_roundQuotient (dividend divisor : Nat) :
    dividend / divisor ≤ roundQuotient dividend divisor := by
  rw [roundQuotient]
  split
  · exact Nat.le_refl _
  · split <;> omega

theorem sizeOfQuotient_scaled {factor : Nat} (positive : 0 < factor) :
    sizeOfQuotient (dividend * factor) (divisor * factor) = sizeOfQuotient dividend divisor := by
  rw [sizeOfQuotient, sizeOfQuotient]
  rw [Nat.mul_right_comm dividend, Nat.mul_div_mul_right _ _ positive, Nat.mul_right_comm divisor,
    roundQuotient_scaled positive]

theorem sizeOfQuotient_congr {otherDividend otherDivisor : Nat} (positive : 0 < divisor)
    (otherPositive : 0 < otherDivisor)
    (same : dividend * otherDivisor = otherDividend * divisor) :
    sizeOfQuotient dividend divisor = sizeOfQuotient otherDividend otherDivisor := by
  calc sizeOfQuotient dividend divisor
      = sizeOfQuotient (dividend * otherDivisor) (divisor * otherDivisor) :=
        (sizeOfQuotient_scaled otherPositive).symm
    _ = sizeOfQuotient (otherDividend * divisor) (otherDivisor * divisor) := by
        rw [same, Nat.mul_comm divisor]
    _ = sizeOfQuotient otherDividend otherDivisor := sizeOfQuotient_scaled positive

theorem sizeOfQuotient_le : sizeOfQuotient dividend divisor ≤ infiniteSize :=
  Nat.min_le_right _ _

theorem sizeOfQuotient_lt : sizeOfQuotient dividend divisor < patternsPerSign :=
  Nat.lt_of_le_of_lt sizeOfQuotient_le (by decide +kernel)

theorem sizeOfQuotient_significant {significand shift : Nat} (normal : Significant significand shift)
    (positive : 0 < divisor)
    (exact : dividend * unitsPerOne = significand * 2 ^ shift * divisor) :
    sizeOfQuotient dividend divisor =
      min (shift * numbersPerExponent + significand) infiniteSize := by
  have power : 0 < divisor * 2 ^ shift := Nat.mul_pos positive (Nat.two_pow_pos shift)
  have scaled : dividend * unitsPerOne = significand * (divisor * 2 ^ shift) := by
    rw [exact, Nat.mul_right_comm, Nat.mul_assoc]
  rw [sizeOfQuotient, exact, Nat.mul_div_cancel _ positive, log2_units normal, Nat.pow_eq, ← exact,
    scaled, roundQuotient_exact power]

theorem sizeOfQuotient_units {number : Double} (finite : number.isFinite) (positive : 0 < divisor)
    (exact : dividend * unitsPerOne = number.units * divisor) :
    sizeOfQuotient dividend divisor = number.size := by
  obtain ⟨significand, shift, normal, same⟩ := number.exists_significant
  have bound : number.size ≤ infiniteSize := Nat.le_of_lt (of_decide_eq_true finite)
  rw [units_eq normal same] at exact
  rw [sizeOfQuotient_significant normal positive exact, ← same, Nat.min_eq_left bound]

theorem sizeOfQuotient_eq_zero (small : 2 * (dividend * unitsPerOne) < divisor) :
    sizeOfQuotient dividend divisor = 0 := by
  have none : dividend * unitsPerOne / divisor = 0 := Nat.div_eq_of_lt (by omega)
  have rest : dividend * unitsPerOne % divisor = dividend * unitsPerOne :=
    Nat.mod_eq_of_lt (by omega)
  have shift : Nat.log2 0 - 52 = 0 := rfl
  have rounded : roundQuotient (dividend * unitsPerOne) divisor = 0 := by
    rw [roundQuotient, rest, none, if_pos small]
  rw [sizeOfQuotient, none, shift, Nat.pow_eq, Nat.pow_zero, Nat.mul_one, rounded, Nat.zero_mul]
  exact Nat.zero_min _

theorem le_sizeOfQuotient {exponent : Nat} (positive : 0 < divisor) (digits : 52 ≤ exponent)
    (great : divisor * 2 ^ exponent ≤ dividend * unitsPerOne) :
    min ((exponent - 51) * numbersPerExponent) infiniteSize ≤ sizeOfQuotient dividend divisor := by
  rw [sizeOfQuotient, Nat.pow_eq]
  have whole : 2 ^ exponent ≤ dividend * unitsPerOne / divisor := by
    rwa [Nat.le_div_iff_mul_le positive, Nat.mul_comm]
  have rounded := div_le_roundQuotient (dividend * unitsPerOne)
    (divisor * 2 ^ (Nat.log2 (dividend * unitsPerOne / divisor) - 52))
  rw [← Nat.div_div_eq_div_mul] at rounded
  generalize dividend * unitsPerOne / divisor = quotient at *
  have some : quotient ≠ 0 := by
    have power := Nat.two_pow_pos exponent
    omega
  have exponents := (Nat.le_log2 some).mpr whole
  obtain ⟨shift, same⟩ := Nat.exists_eq_add_of_le (Nat.le_trans digits exponents)
  have full : numbersPerExponent ≤ quotient / 2 ^ shift := by
    rw [Nat.le_div_iff_mul_le (Nat.two_pow_pos shift), numbersPerExponent_eq, ← Nat.pow_add, ← same]
    exact Nat.log2_self_le some
  rw [same, Nat.add_sub_cancel_left] at rounded ⊢
  refine Nat.le_min.mpr ⟨Nat.le_trans (Nat.min_le_left _ _) ?_, Nat.min_le_right _ _⟩
  calc (exponent - 51) * numbersPerExponent
      ≤ (shift + 1) * numbersPerExponent := Nat.mul_le_mul_right _ (by omega)
    _ = shift * numbersPerExponent + numbersPerExponent := Nat.succ_mul _ _
    _ ≤ _ := Nat.add_le_add_left (Nat.le_trans full rounded) _

end

end Double

end MailTemplate
