import Mathlib.Data.List.Induction
import Retention.Proofs.FirstMatch
import Retention.Proofs.Lists
import Retention.Summary

/-!
# Coverage of a batch

A batch covers the records at high risk that a rule gave a label of its own. Records that the gate
kept back or no rule decided are not covered. The order of the records moves the decisions along
and changes none of the counts.
-/

namespace Retention

/-! ## What made a decision -/

/-- Whether a rule made a decision. -/
def Outcome.isByRule : Outcome → Bool
  | .matched _ _ | .fallback _ _ => true
  | .default | .gate _ => false

theorem isByRule_outcome (placed : PlacedRule) (index : Nat) :
    (placed.outcome index).isByRule := by
  obtain ⟨condition | label, line⟩ := placed <;> rfl

section

variable {policy : Policy} {record : Record} {rules : List PlacedRule} {decision : Decision}

/-- Without a rule the label is the default one. -/
theorem label_of_not_isByRule (h : Decides policy record rules decision)
    (hrule : decision.outcome.isByRule = false) : decision.label = policy.defaultLabel := by
  cases h with
  | noRisk | noSegment | none => rfl
  | @first i placed =>
    rw [isByRule_outcome] at hrule
    cases hrule

/-- Where the fields of the gate differ, a gate on the risk means that the risk is no number. -/
theorem number?_of_gate (h : Decides policy record rules decision)
    (hfields : policy.riskField ≠ policy.segmentField)
    (hgate : decision.outcome = .gate policy.riskField) :
    record.number? policy.riskField = none := by
  cases h with
  | noRisk hrisk => exact hrisk
  | noSegment => exact absurd (Outcome.gate.inj hgate).symm hfields
  | none => cases hgate
  | @first i placed =>
    have houtcome : placed.outcome i = .gate policy.riskField := hgate
    have hrule := isByRule_outcome placed i
    rw [houtcome] at hrule
    cases hrule

end

theorem RuleSet.decides_rules (set : RuleSet) (record : Record) :
    Decides set.policy record set.rules (set.decide record) := by
  unfold RuleSet.decide
  rw [← decide_throughFallback]
  exact decides_decide set.policy record set.rules

/-! ## Counts -/

theorem countLabels_concat (labels : List Label) (label : Label) :
    countLabels (labels ++ [label]) =
      (countLabels labels).alter label fun count => some (count.getD 0 + 1) := by
  unfold countLabels
  rw [List.foldl_append]
  rfl

theorem getElem?_countLabels (labels : List Label) (label : Label) :
    (countLabels labels)[label]? = if label ∈ labels then some (labels.count label) else none := by
  induction labels using List.reverseRec with
  | nil => exact Std.ExtTreeMap.getElem?_empty
  | append_singleton labels last ih =>
    rw [countLabels_concat, Std.ExtTreeMap.getElem?_alter]
    by_cases h : last = label
    · subst h
      by_cases hmem : last ∈ labels <;> simp [ih, hmem, List.count_eq_zero_of_not_mem]
    · simp [ih, h, Ne.symm h, List.count_append]

theorem countLabels_perm {labels others : List Label} (h : labels.Perm others) :
    countLabels labels = countLabels others := by
  refine Std.ExtTreeMap.ext_getElem? fun label => ?_
  rw [getElem?_countLabels, getElem?_countLabels, h.count_eq]
  simp only [h.mem_iff]

theorem Policy.isHighRisk_eq (policy : Policy) (record : Record) : policy.isHighRisk record =
    (record.number? policy.riskField).any (policy.threshold ≤ ·) := by
  unfold isHighRisk
  cases record.number? policy.riskField <;> rfl

namespace RuleSet

variable (set : RuleSet)

/-- A batch is summed up record by record. -/
theorem summary_decideAll (records : List Record) : (set.decideAll records).summary =
    { records := records.length
      totalCost := .sum (records.map fun record =>
        .finite (set.policy.cost (set.decide record).label))
      highRisk := records.countP set.policy.isHighRisk
      covered := records.countP fun record => set.policy.isCovered (record, set.decide record)
      counts := countLabels (records.map fun record => (set.decide record).label) } := by
  unfold decideAll Policy.aggregate
  simp only [← List.map_prod_left_eq_zip, List.length_map, List.map_map, List.countP_map]
  rfl

theorem isCovered_eq (record : Record) : set.policy.isCovered (record, set.decide record) =
    ((set.decide record).outcome.isByRule &&
      (set.decide record).label != set.policy.defaultLabel &&
      (record.number? set.policy.riskField).any (set.policy.threshold ≤ ·)) := by
  unfold Policy.isCovered
  rw [Policy.isHighRisk_eq]
  cases hrule : (set.decide record).outcome.isByRule with
  | true => simp [Bool.and_comm]
  | false => simp [label_of_not_isByRule (set.decides_rules record) hrule]

theorem isHighRisk_eq_of_fields_ne (hfields : set.policy.riskField ≠ set.policy.segmentField)
    (record : Record) : set.policy.isHighRisk record =
      ((set.decide record).outcome != .gate set.policy.riskField &&
        (record.number? set.policy.riskField).any (set.policy.threshold ≤ ·)) := by
  rw [Policy.isHighRisk_eq]
  by_cases hgate : (set.decide record).outcome = .gate set.policy.riskField
  · simp [number?_of_gate (set.decides_rules record) hfields hgate]
  · simp [hgate]

/-! ## The order of the records -/

theorem decisions_decideAll (records : List Record) (order : List Nat) :
    (set.decideAll (order.filterMap (records[·]?))).decisions =
      order.filterMap ((set.decideAll records).decisions[·]?) := by
  unfold decideAll
  rw [List.map_filterMap]
  simp only [List.getElem?_map]

theorem counts_decideAll_perm {records others : List Record} (h : others.Perm records) :
    (set.decideAll others).summary.records = (set.decideAll records).summary.records ∧
      (set.decideAll others).summary.highRisk = (set.decideAll records).summary.highRisk ∧
      (set.decideAll others).summary.covered = (set.decideAll records).summary.covered ∧
      (set.decideAll others).summary.counts = (set.decideAll records).summary.counts := by
  rw [summary_decideAll, summary_decideAll]
  exact ⟨h.length_eq, h.countP_eq _, h.countP_eq _, countLabels_perm (h.map _)⟩

/-- A batch covers the records at high risk that a rule gave another label than the default, so none
that the gate kept back or no rule decided. What the gate kept back for its risk is not at high
risk. Records in another order get their decisions in that order, with the same counts. -/
theorem decideAll_coverage (records : List Record) :
    (set.decideAll records).summary.covered = records.countP (fun record =>
        (set.decide record).outcome.isByRule &&
          (set.decide record).label != set.policy.defaultLabel &&
          (record.number? set.policy.riskField).any (set.policy.threshold ≤ ·)) ∧
      (set.policy.riskField ≠ set.policy.segmentField →
        (set.decideAll records).summary.highRisk = records.countP fun record =>
          (set.decide record).outcome != .gate set.policy.riskField &&
            (record.number? set.policy.riskField).any (set.policy.threshold ≤ ·)) ∧
      ∀ order : List Nat, order.Perm (List.range records.length) →
        let batch := set.decideAll records
        let moved := set.decideAll (order.filterMap (records[·]?))
        moved.decisions = order.filterMap (batch.decisions[·]?) ∧
          moved.summary.records = batch.summary.records ∧
          moved.summary.highRisk = batch.summary.highRisk ∧
          moved.summary.covered = batch.summary.covered ∧
          moved.summary.counts = batch.summary.counts := by
  refine ⟨?_, ?_, ?_⟩
  · rw [summary_decideAll]
    exact congrArg (records.countP ·) (funext set.isCovered_eq)
  · intro hfields
    rw [summary_decideAll]
    exact congrArg (records.countP ·) (funext (set.isHighRisk_eq_of_fields_ne hfields))
  · intro order horder
    have hperm := horder.filterMap (records[·]?)
    rw [filterMap_range_getElem?] at hperm
    exact ⟨set.decisions_decideAll records order, set.counts_decideAll_perm hperm⟩

/-- A record that a rule gives the default label, one that is covered, and one without a risk. -/
theorem decideAll_coverage_of_three_records :
    let set := RuleSet.ofRuleText "IF tenure < 6 THEN RETURN NO_OFFER\nRETURN BIG" .standard
    let risky := (Record.empty.set "churn_score" (.string "0.9")).set "segment" (.string "VIP")
    let records := [risky.set "tenure" (.string "3"), risky.set "tenure" (.string "30"),
      Record.empty.set "segment" (.string "VIP")]
    let order := [2, 0, 1]
    set.policy.riskField ≠ set.policy.segmentField ∧ order.Perm (List.range records.length) ∧
      (set.decideAll records).summary.covered = 1 ∧
      (set.decideAll (order.filterMap (records[·]?))).summary.covered = 1 := by
  intro set risky records order
  have hfields : set.policy.riskField ≠ set.policy.segmentField := by decide
  have horder : order.Perm (List.range records.length) := by decide
  obtain ⟨hcovered, -, hmoved⟩ := decideAll_coverage set records
  have hone : (set.decideAll records).summary.covered = 1 := by
    rw [hcovered]
    decide +kernel
  obtain ⟨-, -, -, hsame, -⟩ := hmoved order horder
  exact ⟨hfields, horder, hone, hsame.trans hone⟩

end RuleSet

end Retention
