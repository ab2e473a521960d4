import Retention.Churn
import Retention.Proofs.Coverage

/-!
# Filling in the risk

A churn score is a finite number from zero to one, whatever the record holds. Filling it in touches
no field but the risk, and only where the risk is no number, so a second time changes nothing. A
record that passes the gate is decided as before, and no record is kept back for its risk any more.
-/

namespace Retention

/-! ## Sums and bounds -/

namespace Number

theorem ofSteps_ne_nan (negative : Bool) (num den : Nat) : ofSteps negative num den ≠ .nan := by
  unfold ofSteps
  split <;> (intro h; cases h)

theorem add_finite_ne_nan {n : Number} (h : n ≠ .nan) (x : Quantity) : n + .finite x ≠ .nan := by
  cases n with
  | finite y =>
    change y.add x ≠ .nan
    unfold Quantity.add
    simp only
    split <;> exact ofSteps_ne_nan _ _ _
  | infinite negative => exact nofun
  | nan => exact absurd rfl h

/-- Finite terms have a sum, which may be infinite. -/
theorem sum_ne_nan {terms : List Number} (h : ∀ term ∈ terms, ∃ x : Quantity, term = .finite x) :
    sum terms ≠ .nan := by
  unfold sum
  have hzero : zero ≠ .nan := nofun
  generalize zero = start at hzero
  induction terms generalizing start with
  | nil => exact hzero
  | cons term rest ih =>
    rw [List.forall_mem_cons] at h
    obtain ⟨⟨x, rfl⟩, hrest⟩ := h
    exact ih hrest _ (add_finite_ne_nan hzero x)

theorem clamp_mem {low high : Quantity} (hle : low ≤ high) {n : Number} (h : n ≠ .nan) :
    ∃ x : Quantity, n.clamp low high = .finite x ∧ low ≤ x ∧ x ≤ high := by
  have hlow : low ≤ low := Int.le_refl _
  have hhigh : high ≤ high := Int.le_refl _
  cases n with
  | finite x =>
    unfold clamp
    simp only
    split
    · exact ⟨low, rfl, hlow, hle⟩
    · rename_i hx
      split
      · exact ⟨high, rfl, hle, hhigh⟩
      · rename_i hx'
        exact ⟨x, rfl, (Quantity.not_lt _ _).1 hx, (Quantity.not_lt _ _).1 hx'⟩
  | infinite negative =>
    cases negative
    · exact ⟨high, rfl, hle, hhigh⟩
    · exact ⟨low, rfl, hlow, hle⟩
  | nan => exact absurd rfl h

end Number

namespace Record

variable {record : Record} {policy : Policy}

/-! ## The score -/

theorem churnWeights_subset (record : Record) : record.churnWeights ⊆ [35, 25, 15, 5] := by
  intro weight hweight
  unfold churnWeights at hweight
  grind

theorem finite_ofRatio_of_mem_churnWeights {weight : Nat} (h : weight ∈ record.churnWeights) :
    ∃ x : Quantity, Number.ofRatio false weight 100 = .finite x := by
  have hfinite : ∀ weight ∈ [35, 25, 15, 5], (Number.ofRatio false weight 100).finite?.isSome := by
    decide +kernel
  obtain ⟨x, hx⟩ := Option.isSome_iff_exists.1 (hfinite weight (record.churnWeights_subset h))
  exact ⟨x, (Number.finite?_eq_some_iff _ _).1 hx⟩

theorem churnScore_mem (record : Record) : ∃ score : Quantity,
    record.churnScore = .finite score ∧ Quantity.zero ≤ score ∧ score ≤ Quantity.one := by
  have hle : Quantity.zero ≤ Quantity.one := by decide +kernel
  refine Number.clamp_mem hle (Number.sum_ne_nan fun term hterm => ?_)
  obtain ⟨weight, hweight, rfl⟩ := List.mem_map.1 hterm
  exact finite_ofRatio_of_mem_churnWeights hweight

/-! ## Filling -/

theorem fillRisk_of_isSome (h : (record.number? policy.riskField).isSome) :
    record.fillRisk policy = record := if_pos h

theorem fillRisk_of_none (h : record.number? policy.riskField = none) :
    record.fillRisk policy = record.set policy.riskField (.number record.churnScore) := by
  unfold fillRisk
  rw [h]
  rfl

theorem get?_fillRisk_of_ne {name : String} (h : name ≠ policy.riskField) :
    (record.fillRisk policy).get? name = record.get? name := by
  unfold fillRisk
  split
  · rfl
  · exact get?_set_of_ne record _ h.symm

theorem isSome_number?_fillRisk (record : Record) (policy : Policy) :
    ((record.fillRisk policy).number? policy.riskField).isSome := by
  cases h : record.number? policy.riskField with
  | some risk => rw [fillRisk_of_isSome (h ▸ rfl), h, Option.isSome_some]
  | none =>
    obtain ⟨score, hscore, -⟩ := record.churnScore_mem
    rw [fillRisk_of_none h, number?, get?_set_self, hscore]
    rfl

theorem fillRisk_fillRisk (record : Record) (policy : Policy) :
    (record.fillRisk policy).fillRisk policy = record.fillRisk policy :=
  fillRisk_of_isSome (isSome_number?_fillRisk record policy)

/-! ## Decisions -/

theorem isSome_number?_of_passed {set : RuleSet}
    (h : ∀ field, (set.decide record).outcome ≠ .gate field) :
    (record.number? set.policy.riskField).isSome := by
  cases hrisk : record.number? set.policy.riskField with
  | some risk => rfl
  | none =>
    have hgate : set.policy.gateField? record = some set.policy.riskField := by
      unfold Policy.gateField?
      rw [hrisk]
      rfl
    refine absurd ?_ (h set.policy.riskField)
    unfold RuleSet.decide Policy.decide
    rw [hgate]

theorem decide_fillRisk_of_passed {set : RuleSet}
    (h : ∀ field, (set.decide record).outcome ≠ .gate field) :
    set.decide (record.fillRisk set.policy) = set.decide record := by
  rw [fillRisk_of_isSome (isSome_number?_of_passed h)]

theorem outcome_fillRisk_ne_gate {set : RuleSet}
    (hfields : set.policy.riskField ≠ set.policy.segmentField) :
    (set.decide (record.fillRisk set.policy)).outcome ≠ .gate set.policy.riskField := by
  intro hgate
  have hsome := isSome_number?_fillRisk record set.policy
  rw [number?_of_gate (set.decides_rules _) hfields hgate] at hsome
  cases hsome

/-- Filling in the risk changes no other field, keeps a risk that is a number, and sets any other
one to the churn score, a number from zero to one. Filling it in again changes nothing. A record
that the gate let through gets the same decision, and where the segment has a field of its own no
filled record is kept back for its risk. -/
theorem fillRisk_repairs (record : Record) (policy : Policy) :
    let filled := record.fillRisk policy
    (∀ name, name ≠ policy.riskField → filled.get? name = record.get? name) ∧
      ((record.number? policy.riskField).isSome → filled = record) ∧
      (∃ score : Quantity, record.churnScore = .finite score ∧ Quantity.zero ≤ score ∧
        score ≤ Quantity.one ∧ (record.number? policy.riskField = none →
          filled.get? policy.riskField = some (.number (.finite score)))) ∧
      filled.fillRisk policy = filled ∧
      ∀ set : RuleSet, set.policy = policy →
        (policy.riskField ≠ policy.segmentField →
          (set.decide filled).outcome ≠ .gate policy.riskField) ∧
        ((∀ field, (set.decide record).outcome ≠ .gate field) →
          set.decide filled = set.decide record) := by
  intro filled
  refine ⟨fun name => get?_fillRisk_of_ne, fillRisk_of_isSome, ?_, fillRisk_fillRisk record policy,
    ?_⟩
  · obtain ⟨score, hscore, hzero, hone⟩ := record.churnScore_mem
    refine ⟨score, hscore, hzero, hone, fun hnone => ?_⟩
    unfold filled
    rw [fillRisk_of_none hnone, get?_set_self, hscore]
  · rintro set rfl
    exact ⟨outcome_fillRisk_ne_gate, decide_fillRisk_of_passed⟩

/-- The risk stands in the field of the contract, which the score reads. -/
theorem fillRisk_repairs_of_contract :
    let policy := { Policy.standard with riskField := "contract" }
    let set := RuleSet.ofRuleText "IF contract < 0.5 THEN RETURN SMALL" policy
    let record := (Record.empty.set "contract" (.string "Month-to-month")).set
      "segment" (.string "VIP")
    let known := record.set "contract" (.string "0.25")
    let filled := record.fillRisk policy
    "segment" ≠ policy.riskField ∧ policy.riskField ≠ policy.segmentField ∧
      record.number? policy.riskField = none ∧ (known.number? policy.riskField).isSome ∧
      (∀ field, (set.decide known).outcome ≠ .gate field) ∧
      filled.get? "segment" = record.get? "segment" ∧
      filled.get? "contract" = some (.number (.ofRatio false 35 100)) ∧
      filled.fillRisk policy = filled ∧ (set.decide filled).outcome ≠ .gate "contract" ∧
      known.fillRisk policy = known ∧
      set.decide (known.fillRisk policy) = set.decide known := by
  intro policy set record known filled
  have hsegment : "segment" ≠ policy.riskField := by decide
  have hfields : policy.riskField ≠ policy.segmentField := by decide
  have hnone : record.number? policy.riskField = none := by decide +kernel
  have hknown : (known.number? policy.riskField).isSome := by decide +kernel
  have hscore : record.churnScore = .ofRatio false 35 100 := by decide +kernel
  have houtcome : (set.decide known).outcome = .matched 0 1 := by decide +kernel
  have hpassed : ∀ field, (set.decide known).outcome ≠ .gate field := by
    intro field
    rw [houtcome]
    exact nofun
  obtain ⟨hkept, -, ⟨score, hchurn, -, -, hset⟩, hagain, hdecide⟩ := fillRisk_repairs record policy
  obtain ⟨-, hsame, -, -, hdecide'⟩ := fillRisk_repairs known policy
  refine ⟨hsegment, hfields, hnone, hknown, hpassed, hkept "segment" hsegment, ?_, hagain,
    (hdecide set rfl).1 hfields, hsame hknown, (hdecide' set rfl).2 hpassed⟩
  rw [← hscore, hchurn]
  exact hset hnone

end Record

end Retention
