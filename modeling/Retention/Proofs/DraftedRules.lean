import Mathlib.Data.List.Induction
import Retention.Proofs.FirstMatch

/-!
# Rule sets built in code

A draft builds unless one of its rules has a label that its policy does not know. What is built
runs the rules through the first fallback and notes the others as unreachable, and it decides each
record as all the rules would.
-/

namespace Retention

/-! ## Steps -/

namespace RuleSetDraft

def Step.rule? : Step → Option Rule
  | .rule added => some added
  | .policy _ => none

def Step.policy? : Step → Option Policy
  | .rule _ => none
  | .policy given => some given

/-- The rules that some steps add, in order. -/
def addedRules (steps : List Step) : List Rule := steps.filterMap Step.rule?

/-- The last policy that some steps give, the standard one if they give none. -/
def lastPolicy (steps : List Step) : Policy :=
  (steps.filterMap Step.policy?).getLast?.getD .standard

theorem ofSteps_concat (steps : List Step) (step : Step) :
    ofSteps (steps ++ [step]) = (ofSteps steps).apply step := by
  simp [ofSteps]

/-- Steps leave the last policy and all the rules, whatever order they stand in. -/
theorem ofSteps_eq (steps : List Step) : ofSteps steps = ⟨lastPolicy steps, addedRules steps⟩ := by
  induction steps using List.reverseRec with
  | nil => rfl
  | append_singleton steps step ih =>
    rw [ofSteps_concat, ih]
    unfold lastPolicy addedRules
    cases step <;> simp [apply, Step.rule?, Step.policy?]

end RuleSetDraft

/-! ## Labels that are not known -/

/-- The rule at an index has a label that is not known, and no rule before it has. -/
def IsFirstUnknown (policy : Policy) (rules : List Rule) (index : Nat) (rule : Rule) : Prop :=
  rules[index]? = some rule ∧ policy.knows rule.label = false ∧
    ∀ before ∈ rules.take index, policy.knows before.label

theorem unknownLabel?_eq_none_iff {policy : Policy} {rules : List Rule} :
    RuleSet.unknownLabel? policy rules = none ↔ ∀ rule ∈ rules, policy.knows rule.label := by
  unfold RuleSet.unknownLabel?
  rw [Option.map_eq_none_iff, List.find?_eq_none]
  constructor
  · intro h rule hrule
    obtain ⟨i, hi, rfl⟩ := List.mem_iff_getElem.1 hrule
    have hitem : (rules[i], i) ∈ rules.zipIdx := List.mk_mem_zipIdx_iff_getElem?.2 (by simp [hi])
    simpa using h _ hitem
  · intro h item hitem
    simp [h item.1 (List.fst_mem_of_mem_zipIdx hitem)]

theorem isFirstUnknown_of_unknownLabel? {policy : Policy} {rules : List Rule} {error : ConfigError}
    (h : RuleSet.unknownLabel? policy rules = some error) :
    ∃ index rule, error = .unknownRuleLabel index rule.label.name ∧
      IsFirstUnknown policy rules index rule := by
  unfold RuleSet.unknownLabel? at h
  obtain ⟨item, hfind, rfl⟩ := Option.map_eq_some_iff.1 h
  obtain ⟨hunknown, i, hi, hitem, hbefore⟩ := List.find?_eq_some_iff_getElem.1 hfind
  rw [List.length_zipIdx] at hi
  obtain rfl : item = (rules[i], i) := by simpa using hitem.symm
  refine ⟨i, rules[i], rfl, by simp [hi], by simpa using hunknown, fun before hmem => ?_⟩
  obtain ⟨j, hj, rfl⟩ := List.mem_take_iff_getElem.1 hmem
  simpa using hbefore j (by omega)

/-! ## What is built -/

/-- The position of the first fallback, counted from one. Without one it lies past the end. -/
def fallbackPosition (rules : List Rule) : Nat := rules.findIdx Rule.isFallback + 1

/-- A rule set that runs the given rules through the first fallback, notes each later rule as
unreachable, and decides as all the rules would. -/
structure RuleSet.Runs (policy : Policy) (rules : List Rule) (set : RuleSet) : Prop where
  policy_eq : set.policy = policy
  rules_eq : set.rules = (PlacedRule.numbered 1 rules).take (fallbackPosition rules)
  diagnostics_eq : set.diagnostics =
    ((PlacedRule.numbered 1 rules).drop (fallbackPosition rules)).map fun placed =>
      .unreachable placed (fallbackPosition rules)
  decide_eq : ∀ record,
    set.decide record = policy.decide (PlacedRule.numbered 1 rules) record

theorem map_rule_numbered (start : Nat) (rules : List Rule) :
    (PlacedRule.numbered start rules).map PlacedRule.rule = rules := by
  induction rules generalizing start with
  | nil => rfl
  | cons rule rest ih => rw [PlacedRule.numbered, List.map_cons, ih]

theorem length_numbered (start : Nat) (rules : List Rule) :
    (PlacedRule.numbered start rules).length = rules.length := by
  rw [← List.length_map PlacedRule.rule, map_rule_numbered]

theorem findIdx_numbered (start : Nat) (rules : List Rule) :
    (PlacedRule.numbered start rules).findIdx PlacedRule.isFallback =
      rules.findIdx Rule.isFallback := by
  conv_rhs => rw [← map_rule_numbered start rules, List.findIdx_map]
  rfl

theorem rule_mem_of_mem_numbered {start : Nat} {rules : List Rule} {placed : PlacedRule}
    (h : placed ∈ PlacedRule.numbered start rules) : placed.rule ∈ rules := by
  rw [← map_rule_numbered start rules]
  exact List.mem_map_of_mem h

theorem filterMap_rule?_map (rules : List PlacedRule) :
    (rules.map Entry.rule).filterMap Entry.rule? = rules := by
  rw [List.filterMap_map]
  exact List.filterMap_some

section

variable {policy : Policy}

theorem knownRules_numbered {rules : List Rule} (h : ∀ rule ∈ rules, policy.knows rule.label)
    (start : Nat) : knownRules policy ((PlacedRule.numbered start rules).map Entry.rule) =
      PlacedRule.numbered start rules := by
  unfold knownRules
  rw [filterMap_rule?_map, List.filter_eq_self]
  intro placed hplaced
  exact h placed.rule (rule_mem_of_mem_numbered hplaced)

/-- Below a fallback each rule leaves a diagnostic. -/
theorem diagnostics_verdicts_of_some {rules : List PlacedRule}
    (h : ∀ placed ∈ rules, policy.knows placed.label) (line : Nat) :
    (RuleSet.ofVerdicts policy (verdicts policy (some line) (rules.map Entry.rule))).diagnostics =
      rules.map fun placed => .unreachable placed line := by
  induction rules with
  | nil => rfl
  | cons placed rest ih =>
    rw [List.forall_mem_cons] at h
    rw [List.map_cons, verdicts_cons, verdict, if_pos h.1, Option.some_or, ofVerdicts_noted,
      ih h.2, List.map_cons]

theorem diagnostics_ofEntries {rules : List Rule} (h : ∀ rule ∈ rules, policy.knows rule.label)
    (start : Nat) :
    (RuleSet.ofEntries policy ((PlacedRule.numbered start rules).map Entry.rule)).diagnostics =
      ((PlacedRule.numbered start rules).drop (fallbackPosition rules)).map fun placed =>
        .unreachable placed (start + rules.findIdx Rule.isFallback) := by
  induction rules generalizing start with
  | nil => rfl
  | cons rule rest ih =>
    rw [List.forall_mem_cons] at h
    have hknown : policy.knows (PlacedRule.mk rule start).label := h.1
    unfold RuleSet.ofEntries at ih ⊢
    rw [PlacedRule.numbered, List.map_cons, verdicts_cons, verdict, if_pos hknown, Option.none_or,
      fallbackPosition, List.findIdx_cons]
    cases hfallback : rule.isFallback with
    | true =>
      have hreturn : Entry.returnLine? policy (.rule ⟨rule, start⟩) = some start :=
        if_pos ⟨hknown, hfallback⟩
      rw [hreturn]
      exact diagnostics_verdicts_of_some
        (fun placed hplaced => h.2 placed.rule (rule_mem_of_mem_numbered hplaced)) start
    | false =>
      have hplaced : PlacedRule.isFallback ⟨rule, start⟩ = false := hfallback
      rw [returnLine?_of_not_isFallback policy hplaced, ofVerdicts_runs, ih h.2, Nat.add_assoc,
        Nat.add_comm 1]
      rfl

theorem runs_ofEntries {rules : List Rule} (h : ∀ rule ∈ rules, policy.knows rule.label) :
    RuleSet.Runs policy rules
      (.ofEntries policy ((PlacedRule.numbered 1 rules).map Entry.rule)) := by
  have hrules := rules_ofEntries policy ((PlacedRule.numbered 1 rules).map Entry.rule)
  rw [knownRules_numbered h] at hrules
  constructor
  case policy_eq => rfl
  case rules_eq => rw [hrules, throughFallback_eq_take, findIdx_numbered, fallbackPosition]
  case diagnostics_eq => rw [diagnostics_ofEntries h, Nat.add_comm, fallbackPosition]
  case decide_eq =>
    intro record
    unfold RuleSet.decide
    rw [hrules]
    exact decide_throughFallback policy record _

end

/-! ## Building -/

namespace RuleSetDraft

/-- A draft fails to build exactly when one of its rules has a label that is not known, and then
the first such rule is reported. Otherwise it builds what runs its rules. -/
theorem build_ofSteps (steps : List Step) :
    let policy := lastPolicy steps
    let rules := addedRules steps
    let built := (ofSteps steps).build
    ((∃ index name, built = .error (.unknownRuleLabel index name)) ↔
        ∃ rule ∈ rules, policy.knows rule.label = false) ∧
      (∀ index name, built = .error (.unknownRuleLabel index name) →
        ∃ rule, name = rule.label.name ∧ IsFirstUnknown policy rules index rule) ∧
      ((∀ rule ∈ rules, policy.knows rule.label) →
        ∃ set, built = .ok set ∧ set.Runs policy rules) := by
  intro policy rules built
  have hbuilt : built = RuleSet.ofRules policy rules := by
    unfold built
    rw [ofSteps_eq, build]
  rw [hbuilt, RuleSet.ofRules]
  cases hfind : RuleSet.unknownLabel? policy rules with
  | none =>
    have hknown := unknownLabel?_eq_none_iff.1 hfind
    refine ⟨⟨?_, ?_⟩, ?_, fun _ => ⟨_, rfl, runs_ofEntries hknown⟩⟩
    · rintro ⟨_, _, h⟩
      cases h
    · rintro ⟨rule, hrule, hunknown⟩
      rw [hknown rule hrule] at hunknown
      cases hunknown
    · intro _ _ h
      cases h
  | some error =>
    obtain ⟨index, rule, rfl, hfirst⟩ := isFirstUnknown_of_unknownLabel? hfind
    have hrule : rule ∈ rules := List.mem_of_getElem? hfirst.1
    refine ⟨⟨fun _ => ⟨rule, hrule, hfirst.2.1⟩, fun _ => ⟨_, _, rfl⟩⟩, ?_, fun hknown => ?_⟩
    · intro _ _ h
      cases h
      exact ⟨rule, rfl, hfirst⟩
    · have hunknown := hfirst.2.1
      rw [hknown rule hrule] at hunknown
      cases hunknown

/-- A policy is given after the rules, and rules stand behind a fallback. With the rule for `VIP`
the draft does not build, although it stands behind the fallback too. -/
theorem build_ofSteps_of_policy_given_last :
    let policy : Policy := { Policy.standard with labels := [⟨"NONE"⟩, ⟨"BIG"⟩] }
    let steps : List Step := [.rule (.conditional (.field "tenure" .lt (.string "6")) ⟨"BIG"⟩),
      .rule (.fallback ⟨"NONE"⟩), .rule (.fallback ⟨"BIG"⟩), .policy policy]
    let more : List Step := steps ++ [.rule (.fallback ⟨"VIP"⟩), .rule (.fallback ⟨"SMALL"⟩)]
    (∀ rule ∈ addedRules steps, (lastPolicy steps).knows rule.label) ∧
      (∃ set, (ofSteps steps).build = .ok set ∧ set.Runs (lastPolicy steps) (addedRules steps)) ∧
      (∃ rule ∈ addedRules more, (lastPolicy more).knows rule.label = false) ∧
      ∃ index name, (ofSteps more).build = .error (.unknownRuleLabel index name) := by
  intro policy steps more
  have hknown : ∀ rule ∈ addedRules steps, (lastPolicy steps).knows rule.label := by decide
  have hunknown : ∃ rule ∈ addedRules more, (lastPolicy more).knows rule.label = false := by decide
  exact ⟨hknown, (build_ofSteps steps).2.2 hknown, hunknown, (build_ofSteps more).1.2 hunknown⟩

end RuleSetDraft

end Retention
