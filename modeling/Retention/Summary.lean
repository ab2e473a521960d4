import Retention.Decision

/-!
# Summaries

A summary counts the labels of a batch of decisions, adds up their costs, and says how many
records at high risk got another label than the default. Records and decisions are taken in
pairs, and what has no partner is left out.
-/

namespace Retention

structure Summary where
  records : Nat
  totalCost : Number
  highRisk : Nat
  covered : Nat
  counts : Std.ExtTreeMap Label Nat

namespace Summary

def count (summary : Summary) (label : Label) : Nat := summary.counts[label]?.getD 0

/-- The share of the records at high risk that are covered, zero if there are none. -/
def coverage (summary : Summary) : Number :=
  if summary.highRisk = 0 then .zero else .ofRatio false summary.covered summary.highRisk

def countText (entry : Label × Nat) : String := ", " ++ entry.1.name ++ "=" ++ toString entry.2

def display (summary : Summary) : String :=
  toString summary.records ++ " records, cost " ++ summary.totalCost.fixedText 2 ++ ", coverage " ++
    (summary.coverage.times 100).fixedText 1 ++ "% (" ++ toString summary.covered ++ "/" ++
    toString summary.highRisk ++ " high-risk)" ++ String.join (summary.counts.toList.map countText)

end Summary

/-! ## Aggregation -/

/-- Whether the risk of a record is known and reaches the threshold. -/
def Policy.isHighRisk (policy : Policy) (record : Record) : Bool :=
  match record.number? policy.riskField with
  | some risk => policy.threshold ≤ risk
  | none => false

/-- Whether a record at high risk got a label other than the default. -/
def Policy.isCovered (policy : Policy) (item : Record × Decision) : Bool :=
  policy.isHighRisk item.1 && item.2.label != policy.defaultLabel

/-- How often each label occurs. Labels that do not occur have no entry. -/
def countLabels (labels : List Label) : Std.ExtTreeMap Label Nat :=
  labels.foldl (fun counts label => counts.alter label fun count => some (count.getD 0 + 1)) ∅

def Policy.aggregate (policy : Policy) (records : List Record) (decisions : List Decision) :
    Summary :=
  let items := records.zip decisions
  let labels := items.map fun item => item.2.label
  { records := items.length
    totalCost := .sum (labels.map fun label => .finite (policy.cost label))
    highRisk := items.countP fun item => policy.isHighRisk item.1
    covered := items.countP policy.isCovered
    counts := countLabels labels }

/-! ## Batches -/

structure Batch where
  decisions : List Decision
  summary : Summary

def RuleSet.decideAll (set : RuleSet) (records : List Record) : Batch :=
  let decisions := records.map set.decide
  ⟨decisions, set.policy.aggregate records decisions⟩

end Retention
