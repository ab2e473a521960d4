import Retention.Label
import Retention.Number.Arithmetic

/-!
# Policies

A policy lists the labels that may be handed out and what each one costs. It names the label
for records that no rule decides, the fields that hold the risk and the segment of a record,
and the risk from which on a record is at high risk. Other settings are kept as text.
-/

namespace Retention

structure Policy where
  labels : List Label
  defaultLabel : Label
  costs : Std.ExtTreeMap Label Quantity
  riskField : String
  segmentField : String
  threshold : Quantity
  extras : Std.ExtTreeMap String String

namespace Policy

def knows (policy : Policy) (label : Label) : Bool := policy.labels.contains label

/-- A label that has no cost entry costs nothing. -/
def cost (policy : Policy) (label : Label) : Quantity := policy.costs[label]?.getD Quantity.zero

def extra? (policy : Policy) (key : String) : Option String := policy.extras[key]?

/-- Whether two policies have the same settings, with costs and thresholds equal by value. -/
def same (p q : Policy) : Bool :=
  p.labels == q.labels && p.defaultLabel == q.defaultLabel &&
    sameCosts p.costs.toList q.costs.toList &&
    p.riskField == q.riskField && p.segmentField == q.segmentField &&
    p.threshold.value == q.threshold.value && p.extras.toList == q.extras.toList
where
  sameCosts (a b : List (Label × Quantity)) : Bool :=
    a.map (fun entry => (entry.1, entry.2.value)) == b.map (fun entry => (entry.1, entry.2.value))

end Policy

/-! ## The standard policy -/

/-- The standard vocabulary, cheapest label first. -/
def standardLabels : List String := ["NO_OFFER", "SMALL", "MEDIUM", "BIG"]

def standardCosts : List (String × Quantity) :=
  [("NO_OFFER", .zero), ("SMALL", .ofNat 10 (by decide)), ("MEDIUM", .ofNat 25 (by decide)),
    ("BIG", .ofNat 50 (by decide))]

def standardRiskField : String := "churn_score"

def standardSegmentField : String := "segment"

/-- The number closest to 0.7. -/
def standardThreshold : Quantity :=
  ⟨false, nearestSteps (7 * stepsPerOne) 10, nearestSteps_representable _ _, by decide +kernel⟩

def Policy.standard : Policy where
  labels := standardLabels.map Label.mk
  defaultLabel := ⟨"NO_OFFER"⟩
  costs := .ofList (standardCosts.map fun entry => (Label.mk entry.1, entry.2)) compare
  riskField := standardRiskField
  segmentField := standardSegmentField
  threshold := standardThreshold
  extras := ∅

end Retention
