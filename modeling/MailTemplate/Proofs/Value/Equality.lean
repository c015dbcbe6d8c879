import MailTemplate.Proofs.Number.Line
import MailTemplate.Value

/-!
Equality of values. It is reflexive and symmetric, but numbers are equal when they are near, and
nearness does not carry over from one pair of numbers to the next.
-/

namespace MailTemplate

namespace Value

def isNumber : Value → Bool
  | .number _ => true
  | _ => false

theorem equals_self (value : Value) : value.equals value := by
  cases value with
  | number value => exact value.near_self
  | null => rfl
  | bool value => exact decide_eq_true rfl
  | string value => exact decide_eq_true rfl
  | array items => exact decide_eq_true rfl

theorem equals_comm (first second : Value) : first.equals second = second.equals first := by
  cases first <;> cases second
  case number.number first second => exact first.near_comm second
  all_goals simp only [equals, eq_comm]

theorem equals_iff_eq {first : Value} (other : first.isNumber = false) (second : Value) :
    first.equals second ↔ first = second := by
  cases first <;> cases second <;> simp_all [equals, isNumber]

theorem equals_of_not_number {first middle last : Value} (other : middle.isNumber = false)
    (left : first.equals middle) (right : middle.equals last) : first.equals last := by
  rw [equals_comm, equals_iff_eq other] at left
  rwa [← left]

/-- Equality is reflexive, symmetric, and identity but for numbers, where it is nearness on the
line. It carries over a value in the middle exactly when that is not a number. Two numbers with a
common near one are still at most four steps apart. -/
theorem equals_carries_iff_not_number (middle : Value) :
    middle.equals middle ∧
    (∀ last : Value, middle.equals last = last.equals middle) ∧
    (∀ last : Value, middle.isNumber = false → (middle.equals last ↔ middle = last)) ∧
    (∀ value last : Double, middle = number value → ¬(value.isNaN ∧ last.isNaN) →
      (middle.equals (number last) ↔ (value.place - last.place).natAbs ≤ 2)) ∧
    ((∀ first last : Value, first.equals middle → middle.equals last → first.equals last) ↔
      middle.isNumber = false) ∧
    ∀ first last : Double, (number first).equals middle → middle.equals (number last) →
      first.distance last ≤ 4 := by
  refine ⟨equals_self middle, equals_comm middle, fun last other => equals_iff_eq other last,
    ?_, ?_, ?_⟩
  · rintro value last rfl real
    exact Double.near_iff_place real
  · constructor
    · intro carries
      cases middle with
      | number middle =>
          obtain ⟨first, last, left, right, apart⟩ := middle.exists_near_apart
          exact absurd (carries (number first) (number last) left right) apart
      | _ => rfl
    · intro other first last left right
      exact equals_of_not_number other left right
  · intro first last left right
    cases middle with
    | number middle =>
        have leftSteps := (Double.near_iff _ _).mp left
        have rightSteps := (Double.near_iff _ _).mp right
        have steps := first.distance_le middle last
        omega
    | _ => exact absurd left Bool.false_ne_true

theorem equals_chain_after_one :
    (number ⟨0x3ff0000000000000⟩).equals (number ⟨0x3ff0000000000002⟩) ∧
      (number ⟨0x3ff0000000000002⟩).equals (number ⟨0x3ff0000000000004⟩) ∧
      ¬(number ⟨0x3ff0000000000000⟩).equals (number ⟨0x3ff0000000000004⟩) := by
  decide

end Value

end MailTemplate
