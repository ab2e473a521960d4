import Retention.Number.Quantity

/-!
# Numbers

A number is a quantity, an infinity of either sign, or not a number. Whatever is computed or
read is rounded once, and becomes infinite from 2¹⁰²⁴ on.
-/

namespace Retention

inductive Number
  | finite (x : Quantity)
  | infinite (negative : Bool)
  | nan
deriving DecidableEq

namespace Number

def finite? : Number → Option Quantity
  | .finite x => some x
  | _ => none

theorem finite?_eq_some_iff (n : Number) (x : Quantity) : n.finite? = some x ↔ n = .finite x := by
  cases n <;> simp [finite?]

/-- Equality of values: the two zeros are equal, and what is not a number differs from
itself. -/
def same : Number → Number → Bool
  | .finite x, .finite y => x.value == y.value
  | .infinite s, .infinite t => s == t
  | _, _ => false

theorem same_self_iff (n : Number) : n.same n ↔ n ≠ .nan := by
  cases n <;> simp [same]

/-- The number closest to `num / den` steps, infinite from 2¹⁰²⁴ on. -/
def ofSteps (negative : Bool) (num den : Nat) : Number :=
  if h : nearestSteps num den < stepLimit then
    .finite ⟨negative, nearestSteps num den, nearestSteps_representable num den, h⟩
  else .infinite negative

/-- The number closest to `num / den`. -/
def ofRatio (negative : Bool) (num den : Nat) : Number :=
  ofSteps negative (num * stepsPerOne) den

/-- Numbers outside `low` to `high` go to the nearer end. -/
def clamp (low high : Quantity) : Number → Number
  | .finite x => if x < low then .finite low else if high < x then .finite high else .finite x
  | .infinite negative => .finite (if negative then low else high)
  | .nan => .nan

end Number

end Retention
