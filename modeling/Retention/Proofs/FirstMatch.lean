import Retention.Decision
import Retention.Proofs.Blocks

/-!
# The first match

A document decides a record as its rule lines do, read from top to bottom. The rules that are
left out because they stand below a fallback leave no trace in a decision.
-/

namespace Retention

/-! ## One rule -/

namespace Rule

/-- A rule that decides each record it is asked about. -/
def fires (record : Record) : Rule → Bool
  | .conditional condition _ => condition.holds record
  | .fallback _ => true

def faults (record : Record) : Rule → List Fault
  | .conditional condition _ => (condition.evaluate record).faults
  | .fallback _ => []

end Rule

def PlacedRule.outcome (index : Nat) : PlacedRule → Outcome
  | ⟨.conditional _ _, line⟩ => .matched index line
  | ⟨.fallback _, line⟩ => .fallback index line

/-! ## One rule after another -/

section

variable (policy : Policy) (record : Record)

theorem firstMatch_cons_of_fires {placed : PlacedRule} (h : placed.rule.fires record) (index : Nat)
    (rest : List PlacedRule) :
    policy.firstMatch record index (placed :: rest) =
      ⟨placed.label, placed.outcome index, index + 1, placed.rule.faults record⟩ := by
  obtain ⟨condition | label, line⟩ := placed
  · have hv : (condition.evaluate record).value = true := h
    simp [Policy.firstMatch, hv, PlacedRule.outcome, PlacedRule.label, Rule.label, Rule.faults]
  · rfl

theorem firstMatch_cons_of_not_fires {placed : PlacedRule}
    (h : placed.rule.fires record = false) (index : Nat) (rest : List PlacedRule) :
    policy.firstMatch record index (placed :: rest) =
      (policy.firstMatch record (index + 1) rest).afterFaults (placed.rule.faults record) := by
  obtain ⟨condition | label, line⟩ := placed
  · have hv : (condition.evaluate record).value = false := h
    simp [Policy.firstMatch, hv, Rule.faults]
  · simp [Rule.fires] at h

/-- Rules below a fallback are never asked. -/
theorem firstMatch_throughFallback (index : Nat) (rules : List PlacedRule) :
    policy.firstMatch record index (throughFallback rules) =
      policy.firstMatch record index rules := by
  induction rules generalizing index with
  | nil => rfl
  | cons placed rest ih =>
    unfold throughFallback
    split
    · rename_i hf
      have hfires : placed.rule.fires record := by
        obtain ⟨condition | label, line⟩ := placed
        · simp [PlacedRule.isFallback, Rule.isFallback] at hf
        · rfl
      rw [firstMatch_cons_of_fires policy record hfires,
        firstMatch_cons_of_fires policy record hfires]
    · cases h : placed.rule.fires record with
      | true =>
        rw [firstMatch_cons_of_fires policy record h, firstMatch_cons_of_fires policy record h]
      | false =>
        rw [firstMatch_cons_of_not_fires policy record h,
          firstMatch_cons_of_not_fires policy record h, ih]

theorem decide_throughFallback (rules : List PlacedRule) :
    policy.decide (throughFallback rules) record = policy.decide rules record := by
  unfold Policy.decide
  rw [firstMatch_throughFallback]

/-- Rules that do not fire only leave their faults. -/
theorem firstMatch_append {before : List PlacedRule}
    (h : ∀ placed ∈ before, placed.rule.fires record = false) (index : Nat)
    (after : List PlacedRule) :
    policy.firstMatch record index (before ++ after) =
      (policy.firstMatch record (index + before.length) after).afterFaults
        (before.flatMap fun placed => placed.rule.faults record) := by
  induction before generalizing index with
  | nil => rfl
  | cons placed rest ih =>
    rw [List.forall_mem_cons] at h
    rw [List.cons_append, firstMatch_cons_of_not_fires policy record h.1, ih h.2, List.length_cons,
      show index + 1 + rest.length = index + (rest.length + 1) by omega]
    simp [Decision.afterFaults]

/-! ## Reading the lines directly -/

/-- The rule that a line holds, if its label is one the policy knows. -/
def Line.declared? (line : Line) : Option PlacedRule :=
  match line.parse with
  | .ok rule => if policy.knows rule.label then some ⟨rule, line.number⟩ else none
  | .error _ => none

theorem Line.declared?_of_not_holdsRule {line : Line} (h : ¬ line.holdsRule = true) :
    line.declared? policy = none := by
  unfold declared?
  cases hparse : line.parse with
  | error reason => rfl
  | ok rule => exact absurd (holdsRule_of_parse hparse) h

/-- The rules of some lines, top to bottom. -/
def declaredRules (lines : List Line) : List PlacedRule :=
  lines.filterMap (Line.declared? policy)

/-- How rules read from top to bottom decide a record, with the trace of the decision. -/
inductive Decides (rules : List PlacedRule) : Decision → Prop
  | noRisk : record.number? policy.riskField = none →
    Decides rules ⟨policy.defaultLabel, .gate policy.riskField, 0, []⟩
  | noSegment : record.number? policy.riskField ≠ none →
    record.hasText policy.segmentField = false →
    Decides rules ⟨policy.defaultLabel, .gate policy.segmentField, 0, []⟩
  | first {i : Nat} {placed : PlacedRule} : record.number? policy.riskField ≠ none →
    record.hasText policy.segmentField → rules[i]? = some placed → placed.rule.fires record →
    (∀ before ∈ rules.take i, before.rule.fires record = false) →
    Decides rules ⟨placed.label, placed.outcome i, i + 1,
      (rules.take (i + 1)).flatMap fun asked => asked.rule.faults record⟩
  | none : record.number? policy.riskField ≠ none →
    record.hasText policy.segmentField →
    (∀ placed ∈ rules, placed.rule.fires record = false) →
    Decides rules ⟨policy.defaultLabel, .default, rules.length,
      rules.flatMap fun asked => asked.rule.faults record⟩

theorem decides_decide (rules : List PlacedRule) :
    Decides policy record rules (policy.decide (throughFallback rules) record) := by
  unfold Policy.decide Policy.gateField?
  cases hrisk : record.number? policy.riskField with
  | none => exact .noRisk hrisk
  | some x =>
    have hsome : record.number? policy.riskField ≠ none := by simp [hrisk]
    cases hseg : record.hasText policy.segmentField with
    | false => exact .noSegment hsome hseg
    | true =>
      simp only [Option.isNone_some, Bool.false_eq_true, if_false, not_true_eq_false]
      rw [firstMatch_throughFallback]
      cases hfind : rules.find? fun placed => placed.rule.fires record with
      | none =>
        have hall : ∀ placed ∈ rules, placed.rule.fires record = false := by
          simpa [List.find?_eq_none] using hfind
        have h := firstMatch_append policy record hall 0 []
        rw [List.append_nil] at h
        rw [h]
        simpa [Policy.firstMatch, Decision.afterFaults] using Decides.none hsome hseg hall
      | some placed =>
        obtain ⟨hfires, before, after, rfl, hbefore⟩ := List.find?_eq_some_iff_append.1 hfind
        have hall : ∀ placed ∈ before, placed.rule.fires record = false := by
          simpa using hbefore
        rw [firstMatch_append policy record hall, firstMatch_cons_of_fires policy record hfires,
          Nat.zero_add]
        have hat : (before ++ placed :: after)[before.length]? = some placed := by simp
        have h := Decides.first hsome hseg hat hfires (by simpa using hall)
        simpa [Decision.afterFaults, List.take_append, List.take_of_length_le] using h

theorem not_fires_of_lt {rules : List PlacedRule} {i j : Nat} {placed : PlacedRule}
    (hi : rules[i]? = some placed) (hij : i < j)
    (hj : ∀ before ∈ rules.take j, before.rule.fires record = false) :
    placed.rule.fires record = false := by
  refine hj placed (List.mem_of_getElem? (i := i) ?_)
  rwa [List.getElem?_take_of_lt hij]

/-- Rules decide a record in one way only. -/
theorem eq_of_decides {rules : List PlacedRule} {d e : Decision}
    (h : Decides policy record rules d) (h' : Decides policy record rules e) : d = e := by
  cases h with
  | noRisk hrisk => cases h' <;> simp_all
  | noSegment hrisk hseg => cases h' <;> simp_all
  | none hrisk hseg hall =>
    cases h' with
    | noRisk hrisk' => exact absurd hrisk' hrisk
    | noSegment _ hseg' => simp [hseg] at hseg'
    | none => rfl
    | first _ _ hi hfires _ => simp [hall _ (List.mem_of_getElem? hi)] at hfires
  | @first i placed hrisk hseg hi hfires hbefore =>
    cases h' with
    | noRisk hrisk' => exact absurd hrisk' hrisk
    | noSegment _ hseg' => simp [hseg] at hseg'
    | none _ _ hall => simp [hall _ (List.mem_of_getElem? hi)] at hfires
    | @first j other _ _ hj hfires' hbefore' =>
      rcases Nat.lt_trichotomy i j with hlt | rfl | hlt
      · simp [not_fires_of_lt record hi hlt hbefore'] at hfires
      · rw [hi] at hj
        cases hj
        rfl
      · simp [not_fires_of_lt record hj hlt hbefore] at hfires'

theorem knownRules_entry (line : Line) (rest : List Entry) :
    knownRules policy (line.entry :: rest) =
      (line.declared? policy).toList ++ knownRules policy rest := by
  unfold Line.declared?
  cases h : line.parse with
  | error reason => rw [Line.entry_of_error h, knownRules_malformed]; rfl
  | ok rule =>
    rw [Line.entry_of_ok h, knownRules_rule]
    by_cases hk : policy.knows rule.label <;> simp [PlacedRule.label, hk]

theorem knownRules_readRuleLines (lines : List Line) :
    knownRules policy (readRuleLines lines) = declaredRules policy lines := by
  rw [readRuleLines_eq]
  induction lines with
  | nil => rfl
  | cons line rest ih =>
    have hcons : declaredRules policy (line :: rest) =
        (line.declared? policy).toList ++ declaredRules policy rest := by
      unfold declaredRules
      rw [List.filterMap_cons]
      cases line.declared? policy <;> rfl
    rw [hcons, ← ih, List.filter_cons]
    split
    · rw [List.map_cons, knownRules_entry]
    · rename_i hno
      rw [Line.declared?_of_not_holdsRule policy hno]
      rfl

end

/-! ## Documents -/

theorem RuleSet.policy_ofDocument (document : Document) :
    (ofDocument document).policy = .ofLines document.policyLines := rfl

theorem RuleSet.policy_compile (text : String) : (compile text).policy = Policy.parse text :=
  policy_ofDocument (Document.parse text)

theorem RuleSet.rules_compile (text : String) : (compile text).rules =
    throughFallback (declaredRules (Policy.parse text) (Document.parse text).ruleLines) := by
  rw [← knownRules_readRuleLines]
  exact rules_ofEntries _ _

/-- Compiling a document and then deciding agrees with reading the lines of its rule block, and
these are lines of the document in their order. Only a block of blank lines may be left out. -/
theorem decides_compile (text : String) (record : Record) :
    ((Document.parse text).ruleLines = (Block.ofRules (splitLines text.toList)).numbered ∨
      (Document.parse text).ruleLines = [] ∧
        (Block.ofRules (splitLines text.toList)).numbered.all Line.isBlank) ∧
    (∀ line ∈ (Document.parse text).ruleLines,
      1 ≤ line.number ∧ (splitLines text.toList)[line.number - 1]? = some line.chars) ∧
    ((Document.parse text).ruleLines.Pairwise fun a b => a.number < b.number) ∧
    ∀ decision, Decides (Policy.parse text) record
      (declaredRules (Policy.parse text) (Document.parse text).ruleLines) decision ↔
        (RuleSet.compile text).decide record = decision := by
  have hsub := Document.ruleLines_sublist text
  have hlines : ∀ line ∈ (Document.parse text).ruleLines, 1 ≤ line.number ∧
      (splitLines text.toList)[line.number - 1]? = some line.chars :=
    fun line hline => Line.getElem?_splitLines_of_mem (hsub.subset hline)
  refine ⟨ruleLines_eq_or text, hlines, (Line.ofText_pairwise text).sublist hsub,
    fun decision => ?_⟩
  unfold RuleSet.decide
  rw [RuleSet.rules_compile, RuleSet.policy_compile]
  constructor
  · exact eq_of_decides (Policy.parse text) record (decides_decide _ _ _)
  · rintro rfl
    exact decides_decide _ _ _

end Retention
