import Retention.Number.Arithmetic
import Retention.Policy.Basic
import Retention.Record
import Retention.Text.Word

/-!
# Churn scores

The risk that a customer leaves is estimated from four signs: a contract by the month, less
than six months of tenure, monthly charges above one hundred, and the segment OTHER. Each adds
its weight, and fields that are missing or malformed add nothing.
-/

namespace Retention

/-! ## Signs -/

def containsText (word : List Char) : List Char → Bool
  | [] => word.isEmpty
  | c :: rest => word.isPrefixOf (c :: rest) || containsText word rest

namespace Record

def monthlyContract (record : Record) : Bool :=
  match record.string? "contract" with
  | some s => containsText "month".toList (s.toList.map Char.toLower)
  | none => false

def shortTenure (record : Record) : Bool :=
  match record.number? "tenure" with
  | some months => months < .ofNat 6 (by decide)
  | none => false

def highCharges (record : Record) : Bool :=
  match record.number? "monthly_charges" with
  | some charges => .ofNat 100 (by decide) < charges
  | none => false

def otherSegment (record : Record) : Bool :=
  match record.string? "segment" with
  | some s => sameIgnoringCase (trim s.toList) "OTHER".toList
  | none => false

/-- The weights of the signs in hundredths, in the order they are added. -/
def churnWeights (record : Record) : List Nat :=
  (if record.monthlyContract then [35] else []) ++ (if record.shortTenure then [25] else []) ++
    (if record.highCharges then [15] else []) ++ (if record.otherSegment then [5] else [])

/-- A number from zero to one. -/
def churnScore (record : Record) : Number :=
  (Number.sum (record.churnWeights.map fun weight => .ofRatio false weight 100)).clamp
    Quantity.zero Quantity.one

/-- Sets the risk of a record to its churn score, unless the risk is a number already. -/
def fillRisk (record : Record) (policy : Policy) : Record :=
  if (record.number? policy.riskField).isSome then record
  else record.set policy.riskField (.number record.churnScore)

end Record

end Retention
