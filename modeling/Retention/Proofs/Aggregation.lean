import Mathlib.Algebra.BigOperators.Group.List.Lemmas
import Mathlib.Algebra.Ring.Nat
import Retention.Proofs.Coverage

/-!
# The figures of a summary

A summary counts each position at which both a record and a decision stand, and counts it once.
What stands further down in one list alone changes nothing. The counts of batches that are put
together add up, and moving records and decisions together leaves them as they are.
-/

namespace Retention

/-! ## Positions -/

/-- Whether the record at a position has a risk that is known and reaches the threshold. -/
def Policy.riskAt (policy : Policy) (records : List Record) (i : Nat) : Bool :=
  records[i]?.any fun record => (record.number? policy.riskField).any (policy.threshold ≤ ·)

/-- Whether the decision at a position has a label. -/
def labelAt (decisions : List Decision) (label : Label) (i : Nat) : Bool :=
  decisions[i]?.any fun decision => decision.label == label

/-! ## The counts of labels -/

theorem getD_getElem?_countLabels (labels : List Label) (label : Label) :
    (countLabels labels)[label]?.getD 0 = labels.count label := by
  rw [getElem?_countLabels]
  split
  · rfl
  · rename_i hmem
    exact (List.count_eq_zero_of_not_mem hmem).symm

theorem getElem?_countLabels_ne_zero (labels : List Label) (label : Label) :
    (countLabels labels)[label]? ≠ some 0 := by
  rw [getElem?_countLabels]
  split
  · rename_i hmem
    exact fun h => Nat.ne_of_gt (List.count_pos_iff.2 hmem) (Option.some.inj h)
  · exact (Option.some_ne_none 0).symm

theorem keys_countLabels_perm (labels : List Label) :
    (countLabels labels).keys.Perm labels.dedup := by
  refine (List.perm_ext_iff_of_nodup Std.ExtTreeMap.nodup_keys (List.nodup_dedup labels)).2 ?_
  intro label
  rw [Std.ExtTreeMap.mem_keys, List.mem_dedup, ← Std.ExtTreeMap.isSome_getElem?_iff_mem,
    getElem?_countLabels]
  split <;> simp [*]

theorem sum_countLabels (labels : List Label) :
    ((countLabels labels).toList.map Prod.snd).sum = labels.length := by
  have hvalue : ∀ entry ∈ (countLabels labels).toList, entry.2 = labels.count entry.1 := by
    intro entry hentry
    have hcount := Std.ExtTreeMap.mem_toList_iff_getElem?_eq_some.1 hentry
    rw [← getD_getElem?_countLabels, hcount, Option.getD_some]
  calc ((countLabels labels).toList.map Prod.snd).sum
      = (((countLabels labels).toList.map Prod.fst).map (labels.count ·)).sum := by
        rw [List.map_map]
        exact congrArg List.sum (List.map_congr_left hvalue)
    _ = (labels.dedup.map (labels.count ·)).sum := by
        rw [Std.ExtTreeMap.map_fst_toList_eq_keys]
        exact ((keys_countLabels_perm labels).map _).sum_eq
    _ = labels.length := List.sum_map_count_dedup_eq_length labels

/-! ## Figures -/

namespace Policy

variable {policy : Policy} {records others : List Record} {decisions more : List Decision}

theorem records_aggregate (policy : Policy) (records : List Record) (decisions : List Decision) :
    (policy.aggregate records decisions).records = (records.zip decisions).length := rfl

theorem highRisk_aggregate (policy : Policy) (records : List Record) (decisions : List Decision) :
    (policy.aggregate records decisions).highRisk =
      (records.zip decisions).countP fun item => policy.isHighRisk item.1 := rfl

theorem covered_aggregate (policy : Policy) (records : List Record) (decisions : List Decision) :
    (policy.aggregate records decisions).covered =
      (records.zip decisions).countP policy.isCovered := rfl

theorem count_aggregate (policy : Policy) (records : List Record) (decisions : List Decision)
    (label : Label) : (policy.aggregate records decisions).count label =
      (records.zip decisions).countP fun item => item.2.label == label := by
  have hlabels : (policy.aggregate records decisions).count label =
      ((records.zip decisions).map fun item => item.2.label).count label :=
    getD_getElem?_countLabels _ label
  rw [hlabels, List.count, List.countP_map]
  rfl

/-- A summary depends on the pairs of a record and its decision only. -/
theorem aggregate_congr (h : records.zip decisions = others.zip more) :
    policy.aggregate records decisions = policy.aggregate others more := by
  unfold aggregate
  rw [h]

theorem aggregate_perm (h : (records.zip decisions).Perm (others.zip more)) :
    (policy.aggregate records decisions).records = (policy.aggregate others more).records ∧
      (policy.aggregate records decisions).highRisk = (policy.aggregate others more).highRisk ∧
      (policy.aggregate records decisions).covered = (policy.aggregate others more).covered ∧
      (policy.aggregate records decisions).counts = (policy.aggregate others more).counts :=
  ⟨h.length_eq, h.countP_eq _, h.countP_eq _, countLabels_perm (h.map _)⟩

/-- What a summary says of the positions below `n`. -/
structure CountsBelow (policy : Policy) (records : List Record) (decisions : List Decision)
    (n : Nat) (summary : Summary) : Prop where
  records_eq : summary.records = n
  count_eq : ∀ label, summary.count label = (List.range n).countP (labelAt decisions label)
  counts_ne_zero : ∀ label : Label, summary.counts[label]? ≠ some 0
  counts_sum : (summary.counts.toList.map Prod.snd).sum = n
  highRisk_eq : summary.highRisk = (List.range n).countP (policy.riskAt records)
  covered_eq : summary.covered = (List.range n).countP fun i =>
    policy.riskAt records i && !labelAt decisions policy.defaultLabel i
  covered_le : summary.covered ≤ summary.highRisk
  highRisk_le : summary.highRisk ≤ n

theorem countsBelow_aggregate (policy : Policy) (records : List Record)
    (decisions : List Decision) : policy.CountsBelow records decisions
      (min records.length decisions.length) (policy.aggregate records decisions) := by
  have hlength : (records.zip decisions).length = min records.length decisions.length :=
    List.length_zip
  constructor
  case records_eq => exact hlength
  case count_eq =>
    intro label
    rw [count_aggregate]
    refine countP_zip_eq_countP_range fun i record decision _ hdecision => ?_
    rw [labelAt, hdecision, Option.any_some]
  case counts_ne_zero => exact fun label => getElem?_countLabels_ne_zero _ label
  case counts_sum =>
    refine (sum_countLabels _).trans ?_
    rw [List.length_map, hlength]
  case highRisk_eq =>
    refine countP_zip_eq_countP_range fun i record decision hrecord _ => ?_
    rw [riskAt, hrecord, Option.any_some, isHighRisk_eq]
  case covered_eq =>
    refine countP_zip_eq_countP_range fun i record decision hrecord hdecision => ?_
    rw [riskAt, labelAt, hrecord, hdecision, Option.any_some, Option.any_some, ← isHighRisk_eq]
    rfl
  case covered_le =>
    refine List.countP_mono_left fun item _ hcovered => ?_
    exact (Bool.and_eq_true_iff.1 hcovered).1
  case highRisk_le => exact hlength ▸ List.countP_le_length

theorem aggregate_take (policy : Policy) (records : List Record) (decisions : List Decision) :
    policy.aggregate (records.take (min records.length decisions.length))
        (decisions.take (min records.length decisions.length)) =
      policy.aggregate records decisions :=
  aggregate_congr List.zip_eq_zip_take_min.symm

/-- The counts of batches put together are the sums of their counts. -/
theorem aggregate_flatMap {parts : List (List Record × List Decision)}
    (h : ∀ part ∈ parts, part.1.length = part.2.length) :
    let whole := policy.aggregate (parts.flatMap Prod.fst) (parts.flatMap Prod.snd)
    let summaries := parts.map fun part => policy.aggregate part.1 part.2
    whole.records = (summaries.map Summary.records).sum ∧
      (∀ label, whole.count label = (summaries.map (·.count label)).sum) ∧
      whole.highRisk = (summaries.map Summary.highRisk).sum ∧
      whole.covered = (summaries.map Summary.covered).sum := by
  intro whole summaries
  have hzip := zip_flatMap h
  refine ⟨?_, fun label => ?_, ?_, ?_⟩
  · rw [records_aggregate, hzip, List.length_flatMap, List.map_map]
    rfl
  · rw [count_aggregate, hzip, List.countP_flatMap, List.map_map]
    refine congrArg List.sum (List.map_congr_left fun part _ => ?_)
    exact (count_aggregate policy part.1 part.2 label).symm
  · rw [highRisk_aggregate, hzip, List.countP_flatMap, List.map_map]
    rfl
  · rw [covered_aggregate, hzip, List.countP_flatMap, List.map_map]
    rfl

/-- A summary counts each position that has a record and a decision once. Positions beyond the
shorter list change no figure. The counts of batches add up, and they stay when records and
decisions change places together. -/
theorem figures_aggregate (policy : Policy) (records : List Record) (decisions : List Decision) :
    let n := min records.length decisions.length
    let summary := policy.aggregate records decisions
    policy.CountsBelow records decisions n summary ∧
      policy.aggregate (records.take n) (decisions.take n) = summary ∧
      (∀ parts : List (List Record × List Decision),
        (∀ part ∈ parts, part.1.length = part.2.length) → records = parts.flatMap Prod.fst →
        decisions = parts.flatMap Prod.snd →
        let summaries := parts.map fun part => policy.aggregate part.1 part.2
        summary.records = (summaries.map Summary.records).sum ∧
          (∀ label, summary.count label = (summaries.map (·.count label)).sum) ∧
          summary.highRisk = (summaries.map Summary.highRisk).sum ∧
          summary.covered = (summaries.map Summary.covered).sum) ∧
      ∀ order : List Nat, order.Perm (List.range n) →
        let moved := policy.aggregate (order.filterMap (records[·]?))
          (order.filterMap (decisions[·]?))
        moved.records = summary.records ∧ moved.highRisk = summary.highRisk ∧
          moved.covered = summary.covered ∧ moved.counts = summary.counts := by
  intro n summary
  refine ⟨countsBelow_aggregate policy records decisions, aggregate_take policy records decisions,
    ?_, ?_⟩
  · rintro parts hparts rfl rfl
    exact aggregate_flatMap hparts
  · intro order horder
    exact aggregate_perm (zip_filterMap_perm horder)

/-- A label outside the vocabulary, a record without a risk, and one at high risk that is left with
the default label. -/
theorem figures_aggregate_of_two_batches :
    let policy := Policy.standard
    let risky := Record.empty.set "churn_score" (.string "0.9")
    let decided (name : String) : Decision := ⟨⟨name⟩, .default, 0, []⟩
    let parts := [([risky, Record.empty], [decided "BIG", decided "GIFT"]),
      ([risky], [decided "NO_OFFER"])]
    let records := parts.flatMap Prod.fst
    let decisions := parts.flatMap Prod.snd
    let order := [2, 0, 1]
    let summary := policy.aggregate records decisions
    let moved := policy.aggregate (order.filterMap (records[·]?)) (order.filterMap (decisions[·]?))
    (∀ part ∈ parts, part.1.length = part.2.length) ∧
      order.Perm (List.range (min records.length decisions.length)) ∧
      summary.count ⟨"GIFT"⟩ = 1 ∧ summary.highRisk = 2 ∧ summary.covered = 1 ∧
      moved.covered = 1 ∧
      (parts.map fun part => (policy.aggregate part.1 part.2).highRisk) = [1, 1] := by
  intro policy risky decided parts records decisions order summary moved
  have hparts : ∀ part ∈ parts, part.1.length = part.2.length := by decide
  have horder : order.Perm (List.range (min records.length decisions.length)) := by decide
  obtain ⟨hcounts, -, hsum, hmoved⟩ := figures_aggregate policy records decisions
  have hcovered : summary.covered = 1 := by
    rw [hcounts.covered_eq]
    decide +kernel
  have hgift : summary.count ⟨"GIFT"⟩ = 1 := by
    rw [hcounts.count_eq]
    decide +kernel
  have hparthigh : (parts.map fun part => (policy.aggregate part.1 part.2).highRisk) = [1, 1] := by
    decide +kernel
  obtain ⟨-, -, hhigh, -⟩ := hsum parts hparts rfl rfl
  rw [List.map_map] at hhigh
  have hhigh : summary.highRisk = 2 := hhigh.trans (congrArg List.sum hparthigh)
  obtain ⟨-, -, hsame, -⟩ := hmoved order horder
  exact ⟨hparts, horder, hgift, hhigh, hcovered, hsame.trans hcovered, hparthigh⟩

end Policy

end Retention
