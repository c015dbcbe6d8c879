import Mathlib.Algebra.Group.Nat.Defs
import MailTemplate.Number.Double

/-!
The line of the floating-point numbers. A number is its sign and its other bits, its place on the
line determines it, and near numbers are those at most two steps apart.
-/

namespace MailTemplate

namespace Double

theorem patternsPerSign_eq : patternsPerSign = 2 ^ 63 := rfl

theorem numbersPerExponent_eq : numbersPerExponent = 2 ^ 52 := rfl

theorem infiniteSize_eq : infiniteSize = 2047 * 2 ^ 52 := rfl

theorem size_lt (number : Double) : number.size < patternsPerSign :=
  Nat.mod_lt _ (Nat.two_pow_pos 63)

section

variable {negative : Bool} {size : Nat}

theorem toNat_ofParts (bound : size < patternsPerSign) :
    (ofParts negative size).bits.toNat = if negative then patternsPerSign + size else size := by
  rw [patternsPerSign_eq] at bound
  rw [ofParts, UInt64.toNat_ofNat', patternsPerSign_eq, Nat.mod_eq_of_lt]
  split <;> omega

theorem size_ofParts (bound : size < patternsPerSign) : (ofParts negative size).size = size := by
  rw [Double.size, toNat_ofParts bound]
  rw [patternsPerSign_eq] at bound ⊢
  split <;> omega

theorem isNegative_ofParts (bound : size < patternsPerSign) :
    (ofParts negative size).isNegative = negative := by
  rw [isNegative, toNat_ofParts bound]
  cases negative with
  | false => simpa using bound
  | true => simp

end

theorem ofParts_size (number : Double) : ofParts number.isNegative number.size = number := by
  have bound := number.bits.toNat_lt
  have same : (ofParts number.isNegative number.size).bits.toNat = number.bits.toNat := by
    rw [toNat_ofParts number.size_lt, isNegative, Double.size, patternsPerSign_eq]
    by_cases negative : 2 ^ 63 ≤ number.bits.toNat
    · simp only [negative, decide_true, ↓reduceIte]
      omega
    · simp only [negative, decide_false, Bool.false_eq_true, ↓reduceIte]
      omega
  exact congrArg Double.mk (UInt64.toNat_inj.mp same)

theorem rank_lt (number : Double) : number.rank < 2 * patternsPerSign := by
  have bound := number.size_lt
  rw [rank]
  split <;> omega

def ofRank (rank : Nat) : Double :=
  if rank < patternsPerSign then ofParts true (patternsPerSign - 1 - rank)
  else ofParts false (rank - patternsPerSign)

theorem rank_ofRank {place : Nat} (bound : place < 2 * patternsPerSign) :
    (ofRank place).rank = place := by
  rw [ofRank]
  by_cases below : place < patternsPerSign
  · have inside : patternsPerSign - 1 - place < patternsPerSign := by omega
    rw [if_pos below, rank, isNegative_ofParts inside, size_ofParts inside]
    simp only [↓reduceIte]
    omega
  · have inside : place - patternsPerSign < patternsPerSign := by omega
    rw [if_neg below, rank, isNegative_ofParts inside, size_ofParts inside]
    simp only [Bool.false_eq_true, ↓reduceIte]
    omega

def distance (first second : Double) : Nat :=
  min (first.stepsTo second) (second.stepsTo first)

theorem near_iff (first second : Double) : first.near second ↔ first.distance second ≤ 2 := by
  rw [near, distance, Bool.or_eq_true, decide_eq_true_iff, decide_eq_true_iff]
  omega

theorem near_comm (first second : Double) : first.near second = second.near first :=
  Bool.or_comm _ _

theorem near_self (number : Double) : number.near number := by
  have bound := number.rank_lt
  rw [near_iff, distance, stepsTo]
  rw [patternsPerSign_eq] at bound ⊢
  omega

theorem stepsTo_lt (first second : Double) : first.stepsTo second < 2 * patternsPerSign :=
  Nat.mod_lt _ (Nat.mul_pos (by decide) (Nat.two_pow_pos 63))

theorem stepsTo_back (first second : Double) :
    second.stepsTo first = (2 * patternsPerSign - first.stepsTo second) % (2 * patternsPerSign) := by
  have firstBound := first.rank_lt
  have secondBound := second.rank_lt
  rw [stepsTo, stepsTo]
  rw [patternsPerSign_eq] at *
  omega

theorem stepsTo_through (first middle last : Double) :
    first.stepsTo last =
      (first.stepsTo middle + middle.stepsTo last) % (2 * patternsPerSign) := by
  have firstBound := first.rank_lt
  have middleBound := middle.rank_lt
  rw [stepsTo, stepsTo, stepsTo]
  rw [patternsPerSign_eq] at *
  omega

theorem distance_le (first middle last : Double) :
    first.distance last ≤ first.distance middle + middle.distance last := by
  have leftBound := first.stepsTo_lt middle
  have rightBound := middle.stepsTo_lt last
  rw [distance, distance, distance, stepsTo_back first last, stepsTo_back first middle,
    stepsTo_back middle last, stepsTo_through first middle last]
  rw [patternsPerSign_eq] at *
  omega

theorem exists_near_apart (middle : Double) :
    ∃ first last : Double, first.near middle ∧ middle.near last ∧ ¬first.near last := by
  have bound := middle.rank_lt
  have room : 0 < 2 * patternsPerSign := by decide
  refine ⟨ofRank ((middle.rank + 2 * patternsPerSign - 2) % (2 * patternsPerSign)),
    ofRank ((middle.rank + 2) % (2 * patternsPerSign)), ?_⟩
  rw [near_iff, near_iff, near_iff]
  simp only [distance, stepsTo, rank_ofRank (Nat.mod_lt _ room)]
  rw [patternsPerSign_eq] at *
  omega

theorem near_zero {number : Double} (none : number.isZero) : number.near zero := by
  have size : number.size = 0 := of_decide_eq_true none
  rw [← number.ofParts_size, size]
  cases number.isNegative with
  | true => decide
  | false => exact near_self zero

def place (number : Double) : Int :=
  if number.isNegative then -1 - number.size else number.size

/-- The ends of the line, where it is closed, are not numbers. -/
theorem near_iff_place {first second : Double} (real : ¬(first.isNaN ∧ second.isNaN)) :
    first.near second ↔ (first.place - second.place).natAbs ≤ 2 := by
  have firstBound := first.size_lt
  have secondBound := second.size_lt
  rw [isNaN, isNaN, decide_eq_true_iff, decide_eq_true_iff, infiniteSize_eq] at real
  rw [near_iff, distance, stepsTo, stepsTo, rank, rank, place, place]
  rw [patternsPerSign_eq] at *
  split <;> split <;> omega

end Double

end MailTemplate
