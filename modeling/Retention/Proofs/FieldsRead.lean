import Retention.Decision

/-!
# What a decision reads

A decision reads the fields of the gate and the fields that its rules name. Records that agree on
these fields are decided alike, whatever else they hold.
-/

namespace Retention

/-! ## Records that agree -/

/-- Records that bind the given names to the same values, or leave them unbound alike. -/
def Record.AgreeOn (names : List String) (a b : Record) : Prop :=
  ∀ name ∈ names, a.get? name = b.get? name

namespace Record

variable {a b : Record} {names : List String}

theorem AgreeOn.of_subset {more : List String} (h : AgreeOn more a b) (hsub : names ⊆ more) :
    AgreeOn names a b := fun name hname => h name (hsub hname)

theorem agreeOn_cons_iff {name : String} :
    AgreeOn (name :: names) a b ↔ a.get? name = b.get? name ∧ AgreeOn names a b := by
  unfold AgreeOn
  exact List.forall_mem_cons

theorem agreeOn_append_iff {more : List String} :
    AgreeOn (names ++ more) a b ↔ AgreeOn names a b ∧ AgreeOn more a b := by
  unfold AgreeOn
  exact List.forall_mem_append

theorem agreeOn_set (record : Record) {name : String} (value : Value) (h : name ∉ names) :
    AgreeOn names (record.set name value) record := by
  intro other hother
  apply get?_set_of_ne
  rintro rfl
  exact h hother

end Record

/-! ## Conditions -/

section

variable {a b : Record}

theorem Operand.read_congr {o : Operand} (h : Record.AgreeOn o.fieldName?.toList a b) :
    o.read a = o.read b := by
  cases o with
  | field name =>
    have hname : a.get? name = b.get? name := h name (by simp [Operand.fieldName?])
    unfold Operand.read
    simp only [hname]
  | literal value => rfl

theorem Comparison.test_congr {c : Comparison} (h : Record.AgreeOn c.fieldNames a b) :
    c.test a = c.test b := by
  unfold Comparison.fieldNames at h
  rw [Record.agreeOn_append_iff] at h
  unfold Comparison.test
  rw [Operand.read_congr h.1, Operand.read_congr h.2]

/-- A condition reads the fields it names, those of a side that is not reached included. -/
theorem Condition.evaluate_congr {c : Condition} (h : Record.AgreeOn c.fieldNames a b) :
    c.evaluate a = c.evaluate b := by
  induction c with
  | compare c =>
    unfold Condition.evaluate
    rw [Comparison.test_congr h]
  | and c d ihc ihd | or c d ihc ihd =>
    unfold Condition.fieldNames at h
    rw [Record.agreeOn_append_iff] at h
    unfold Condition.evaluate
    simp only [ihc h.1, ihd h.2]
  | const value => rfl

/-! ## Rules -/

theorem Policy.gateField?_congr {policy : Policy}
    (hrisk : a.get? policy.riskField = b.get? policy.riskField)
    (hsegment : a.get? policy.segmentField = b.get? policy.segmentField) :
    policy.gateField? a = policy.gateField? b := by
  unfold Policy.gateField? Record.hasText Record.number? Record.string?
  rw [hrisk, hsegment]

theorem Policy.firstMatch_congr {policy : Policy} {rules : List PlacedRule}
    (h : Record.AgreeOn (rules.flatMap fun placed => placed.rule.fieldNames) a b) (index : Nat) :
    policy.firstMatch a index rules = policy.firstMatch b index rules := by
  induction rules generalizing index with
  | nil => rfl
  | cons placed rest ih =>
    rw [List.flatMap_cons, Record.agreeOn_append_iff] at h
    obtain ⟨condition | label, line⟩ := placed
    · have hcondition : condition.evaluate a = condition.evaluate b := Condition.evaluate_congr h.1
      unfold Policy.firstMatch
      simp only [hcondition, ih h.2]
    · rfl

end

/-! ## Rule sets -/

namespace RuleSet

theorem mem_fieldNames_iff {set : RuleSet} {name : String} :
    name ∈ set.fieldNames ↔ ∃ placed ∈ set.rules, name ∈ placed.rule.fieldNames := by
  unfold fieldNames
  simp

/-- The fields that a decision can depend on. -/
def fieldsRead (set : RuleSet) : List String :=
  set.policy.riskField :: set.policy.segmentField :: set.fieldNames

theorem decide_congr {set : RuleSet} {a b : Record} (h : Record.AgreeOn set.fieldsRead a b) :
    set.decide a = set.decide b := by
  unfold fieldsRead at h
  simp only [Record.agreeOn_cons_iff] at h
  obtain ⟨hrisk, hsegment, hrules⟩ := h
  have hread : Record.AgreeOn (set.rules.flatMap fun placed => placed.rule.fieldNames) a b := by
    apply hrules.of_subset
    intro name hname
    rw [mem_fieldNames_iff]
    exact List.mem_flatMap.1 hname
  unfold decide Policy.decide
  rw [Policy.gateField?_congr hrisk hsegment, Policy.firstMatch_congr hread]

/-- Records that agree on the fields read are decided alike, and a field that is not read may be
set to anything. -/
theorem decide_eq_of_agreeOn {set : RuleSet} {a b : Record}
    (h : Record.AgreeOn set.fieldsRead a b) :
    set.decide a = set.decide b ∧ ∀ name value, name ∉ set.fieldsRead →
      set.decide (a.set name value) = set.decide b := by
  have hab := decide_congr h
  refine ⟨hab, fun name value hname => ?_⟩
  rw [decide_congr (Record.agreeOn_set a value hname), hab]

/-- One record has a note and the other an age. A rule names a field that both leave unbound. -/
theorem decide_eq_of_agreeOn_of_two_records :
    let condition : Condition := .or (.compare ⟨.field "tenure", .lt, .field "plan.months"⟩)
      (.field "segment" .eq (.string "VIP"))
    let set : RuleSet := ⟨[⟨.conditional condition ⟨"BIG"⟩, 3⟩], .standard, []⟩
    let a := Record.ofList [("churn_score", .string "0.9"), ("segment", .string "VIP"),
      ("tenure", .null), ("note", .string "old")]
    let b := Record.ofList [("age", .string "40"), ("tenure", .null), ("segment", .string "VIP"),
      ("churn_score", .string "0.9")]
    Record.AgreeOn set.fieldsRead a b ∧ a ≠ b ∧
      set.decide a = set.decide b ∧ ∀ name value, name ∉ set.fieldsRead →
        set.decide (a.set name value) = set.decide b := by
  intro condition set a b
  have hread : set.fieldsRead ⊆ ["churn_score", "segment", "tenure", "plan.months"] := by
    intro name hname
    simp only [fieldsRead, List.mem_cons, mem_fieldNames_iff] at hname
    rcases hname with rfl | rfl | ⟨placed, hplaced, hname⟩
    · exact List.mem_cons_self
    · exact List.mem_cons_of_mem _ List.mem_cons_self
    · rw [List.mem_singleton.1 hplaced] at hname
      have hnamed : name ∈ ["tenure", "plan.months", "segment"] := hname
      grind
  have hnamed : Record.AgreeOn ["churn_score", "segment", "tenure", "plan.months"] a b := by
    simp [Record.AgreeOn, a, b, Record.ofList, Record.get?_set, Record.get?_empty]
  have hagree := hnamed.of_subset hread
  have hne : a ≠ b := by
    intro hab
    have hnote := congrArg (Record.get? · "note") hab
    simp [a, b, Record.ofList, Record.get?_set, Record.get?_empty] at hnote
  exact ⟨hagree, hne, decide_eq_of_agreeOn hagree⟩

end RuleSet

end Retention
