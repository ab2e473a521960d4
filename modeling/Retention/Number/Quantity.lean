import Retention.Number.Rounding

/-!
# Quantities

A quantity is a finite number: a sign and a whole number of steps of 2⁻¹⁰⁷⁴ below 2¹⁰²⁴, so
zero has two signs. Quantities are compared by value, which is exact and total.
-/

namespace Retention

/-- A step is 2⁻¹⁰⁷⁴. -/
def stepExponent : Nat := 1074

/-- The steps of one. -/
def stepsPerOne : Nat := 2 ^ stepExponent

/-- The steps of 2¹⁰²⁴, which no finite number reaches. -/
def stepLimit : Nat := 2 ^ 2098

structure Quantity where
  negative : Bool
  steps : Nat
  representable : Representable steps
  inRange : steps < stepLimit
deriving DecidableEq

namespace Quantity

/-- The value in steps, with its sign. -/
def value (x : Quantity) : Int := if x.negative then -(x.steps : Int) else x.steps

instance : LT Quantity := ⟨fun x y => x.value < y.value⟩

instance : LE Quantity := ⟨fun x y => x.value ≤ y.value⟩

instance (x y : Quantity) : Decidable (x < y) := inferInstanceAs (Decidable (x.value < y.value))

instance (x y : Quantity) : Decidable (x ≤ y) := inferInstanceAs (Decidable (x.value ≤ y.value))

theorem lt_iff (x y : Quantity) : x < y ↔ x.value < y.value := Iff.rfl

theorem le_iff (x y : Quantity) : x ≤ y ↔ x.value ≤ y.value := Iff.rfl

theorem not_lt (x y : Quantity) : ¬ x < y ↔ y ≤ x := by simp [lt_iff, le_iff]

def zero : Quantity := ⟨false, 0, ⟨0, 0, by decide, rfl⟩, by decide +kernel⟩

def one : Quantity :=
  ⟨false, stepsPerOne, ⟨1, stepExponent, by decide, by rw [Nat.one_mul, stepsPerOne]⟩,
    by decide +kernel⟩

theorem stepsPerOne_pos : 0 < stepsPerOne := by decide +kernel

theorem mul_stepsPerOne_lt (n : Nat) (h : n < 2 ^ 53) : n * stepsPerOne < stepLimit :=
  Nat.lt_of_lt_of_le (Nat.mul_lt_mul_of_pos_right h stepsPerOne_pos) (by decide +kernel)

/-- A natural number that 53 bits hold. -/
def ofNat (n : Nat) (h : n < 2 ^ 53) : Quantity :=
  ⟨false, n * stepsPerOne, ⟨n, stepExponent, h, by rw [stepsPerOne]⟩,
    mul_stepsPerOne_lt n h⟩

end Quantity

end Retention
