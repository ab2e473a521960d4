import Retention.Number.Basic

/-!
# Sums and multiples

A sum is the exact sum of the values, rounded once. An exact sum of zero is negative only
when both terms are.
-/

namespace Retention

namespace Quantity

def add (x y : Quantity) : Number :=
  let sum := x.value + y.value
  if sum = 0 then .ofSteps (x.negative && y.negative) 0 1
  else .ofSteps (decide (sum < 0)) sum.natAbs 1

end Quantity

namespace Number

def add : Number → Number → Number
  | .finite x, .finite y => x.add y
  | .infinite s, .infinite t => if s = t then .infinite s else .nan
  | .infinite s, .finite _ => .infinite s
  | .finite _, .infinite t => .infinite t
  | _, _ => .nan

instance : Add Number := ⟨add⟩

/-- A whole multiple, rounded once. -/
def times (k : Nat) : Number → Number
  | .finite x => ofSteps x.negative (x.steps * k) 1
  | .infinite s => if k = 0 then .nan else .infinite s
  | .nan => .nan

def zero : Number := .finite Quantity.zero

/-- The terms added from left to right, starting at zero. -/
def sum (terms : List Number) : Number := terms.foldl (· + ·) zero

end Number

end Retention
