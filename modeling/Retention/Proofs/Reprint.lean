import Retention.Proofs.Blocks
import Retention.Proofs.DraftedRules
import Retention.Proofs.Grammar.Printed
import Retention.Proofs.KnownLabels
import Retention.Proofs.Lists

/-!
# Printed rules read again

The rules of a rule set, printed one on a line and read again, are the same rules but for those
with a connective. Each of these leaves a diagnostic at its line.
-/

namespace Retention

/-! ## One rule read again -/

/-- The entry of a printed rule on its line. -/
def PlacedRule.reread (placed : PlacedRule) : Entry := readRuleText placed.line placed.rule.text

/-- A diagnostic that gives the printed rule and its line. -/
def SkipsPrinted (placed : PlacedRule) (diagnostic : Diagnostic) : Prop :=
  ∃ reason, diagnostic = ⟨placed.line, placed.rule.text, .skipped reason⟩

section

variable {placed : PlacedRule}

theorem reread_of_not_hasConnective (h : placed.rule.isPrintable)
    (hlabel : placed.label.isIdentifier) (hc : placed.rule.hasConnective = false) :
    placed.reread = .rule placed := by
  unfold PlacedRule.reread readRuleText
  rw [parse_text_of_not_hasConnective h hlabel hc]

theorem reread_of_hasConnective (hc : placed.rule.hasConnective) :
    ∃ reason, placed.reread = .malformed ⟨placed.line, placed.rule.text, reason⟩ := by
  obtain ⟨reason, hparse⟩ := exists_error_of_hasConnective hc
  refine ⟨reason, ?_⟩
  unfold PlacedRule.reread readRuleText
  rw [hparse]

end

theorem readRuleLines_text {rules : List Rule} (h : ∀ rule ∈ rules, rule.label.isIdentifier)
    (start : Nat) :
    readRuleLines (Line.numbered start (rules.map fun rule => rule.text.toList)) =
      (PlacedRule.numbered start rules).map PlacedRule.reread := by
  unfold readRuleLines
  induction rules generalizing start with
  | nil => rfl
  | cons rule rest ih =>
    rw [List.forall_mem_cons] at h
    rw [List.map_cons, Line.numbered, String.ofList_toList,
      List.filterMap_cons_some (readRuleLine?_text h.1 start), ih h.2]
    rfl

/-! ## All rules read again -/

section

variable {rules : List PlacedRule}

theorem filterMap_rule?_reread
    (h : ∀ placed ∈ rules, placed.rule.isPrintable ∧ placed.label.isIdentifier) :
    (rules.map PlacedRule.reread).filterMap Entry.rule? =
      rules.filter fun placed => !placed.rule.hasConnective := by
  induction rules with
  | nil => rfl
  | cons placed rest ih =>
    rw [List.forall_mem_cons] at h
    rw [List.map_cons, List.filterMap_cons, List.filter_cons, ih h.2]
    cases hc : placed.rule.hasConnective with
    | false => rw [reread_of_not_hasConnective h.1.1 h.1.2 hc]; rfl
    | true =>
      obtain ⟨reason, hreread⟩ := reread_of_hasConnective hc
      rw [hreread]
      rfl

theorem forall₂_diagnostic?_reread
    (h : ∀ placed ∈ rules, placed.rule.isPrintable ∧ placed.label.isIdentifier) :
    List.Forall₂ SkipsPrinted (rules.filter fun placed => placed.rule.hasConnective)
      ((rules.map PlacedRule.reread).filterMap Entry.diagnostic?) := by
  induction rules with
  | nil => exact .nil
  | cons placed rest ih =>
    rw [List.forall_mem_cons] at h
    rw [List.map_cons, List.filterMap_cons, List.filter_cons]
    cases hc : placed.rule.hasConnective with
    | false =>
      rw [reread_of_not_hasConnective h.1.1 h.1.2 hc]
      exact ih h.2
    | true =>
      obtain ⟨reason, hreread⟩ := reread_of_hasConnective hc
      rw [hreread]
      exact .cons ⟨reason, rfl⟩ (ih h.2)

theorem returnLine?_reread_pairwise (policy : Policy)
    (h : ∀ placed ∈ rules, placed.rule.isPrintable ∧ placed.label.isIdentifier)
    (hfallback : rules.Pairwise fun above _ => above.isFallback = false) :
    (rules.map PlacedRule.reread).Pairwise fun above _ => above.returnLine? policy = none := by
  rw [List.pairwise_map]
  refine hfallback.imp_of_mem fun {above _} hmem _ hf => ?_
  cases hc : above.rule.hasConnective with
  | false =>
    rw [reread_of_not_hasConnective (h above hmem).1 (h above hmem).2 hc]
    exact returnLine?_of_not_isFallback policy hf
  | true =>
    obtain ⟨reason, hreread⟩ := reread_of_hasConnective hc
    rw [hreread]
    rfl

end

/-! ## The same rules -/

theorem Value.same_self {v : Value} (h : Operand.isPrintable (.literal v)) : v.same v := by
  cases v with
  | number n =>
    refine (Number.same_self_iff n).2 ?_
    rintro rfl
    cases h
  | string s => exact beq_self_eq_true s
  | null => rfl

theorem Operand.same_self {o : Operand} (h : o.isPrintable) : o.same o := by
  cases o with
  | field name => exact beq_self_eq_true name
  | literal v => exact Value.same_self h

theorem Condition.same_self {c : Condition} (h : c.isPrintable) : c.same c := by
  induction c with
  | compare c =>
    simp only [Condition.isPrintable, Bool.and_eq_true] at h
    simp [Condition.same, Comparison.same, Operand.same_self h.1, Operand.same_self h.2]
  | and a b iha ihb | or a b iha ihb =>
    simp only [Condition.isPrintable, Bool.and_eq_true] at h
    simp [Condition.same, iha h.1, ihb h.2]
  | const value => exact beq_self_eq_true value

/-- Printable rules have no number that differs from itself. -/
theorem Rule.same_self {rule : Rule} (h : rule.isPrintable) : rule.same rule := by
  cases rule with
  | conditional c l => simp [Rule.same, Condition.same_self h]
  | fallback l => exact beq_self_eq_true l

/-! ## A rule set printed and read again -/

/-- The rules of a set, numbered by their positions. -/
def RuleSet.renumbered (set : RuleSet) : List PlacedRule :=
  PlacedRule.numbered 1 (set.rules.map PlacedRule.rule)

section

variable {set : RuleSet}

theorem forall_mem_renumbered {p : Rule → Prop} (h : ∀ placed ∈ set.rules, p placed.rule) :
    ∀ placed ∈ set.renumbered, p placed.rule := by
  intro placed hplaced
  obtain ⟨other, hother, hrule⟩ := List.mem_map.1 (rule_mem_of_mem_numbered hplaced)
  rw [← hrule]
  exact h other hother

theorem map_rule_filter_renumbered (p : Rule → Bool) :
    (set.renumbered.filter fun placed => p placed.rule).map PlacedRule.rule =
      (set.rules.map PlacedRule.rule).filter p := by
  conv_rhs => rw [← map_rule_numbered 1 (set.rules.map PlacedRule.rule), List.filter_map]
  rfl

theorem label_of_obtained (h : set.Obtained) : ∀ placed ∈ set.rules,
    set.policy.knows placed.rule.label ∧ placed.rule.label.isIdentifier := by
  obtain ⟨policy, entries, hpolicy, rfl⟩ := exists_entries_of_obtained h
  intro placed hplaced
  have hmem := label_mem_of_mem_ofEntries hplaced
  exact ⟨List.contains_iff_mem.2 hmem, (isSound_of_obtained hpolicy).labels_identifier _ hmem⟩

/-- A fallback can only be the last rule. -/
theorem renumbered_pairwise (h : set.Obtained) :
    set.renumbered.Pairwise fun above _ => above.isFallback = false := by
  have hrules : set.rules.Pairwise fun above _ => above.isFallback = false := by
    obtain ⟨policy, entries, -, rfl⟩ := exists_entries_of_obtained h
    rw [rules_ofEntries]
    exact throughFallback_pairwise _
  have hmapped : (set.rules.map PlacedRule.rule).Pairwise fun above _ => above.isFallback = false :=
    List.pairwise_map.2 hrules
  rw [← map_rule_numbered 1 (set.rules.map PlacedRule.rule)] at hmapped
  exact List.pairwise_map.1 hmapped

theorem ofRuleText_ruleText_entries (h : ∀ placed ∈ set.rules,
    placed.rule.isPrintable ∧ placed.rule.label.isIdentifier) :
    Entry.ofRuleText set.ruleText = set.renumbered.map PlacedRule.reread := by
  have hlines : ∀ line ∈ set.rules.map fun placed => placed.rule.text.toList, '\n' ∉ line := by
    rw [List.forall_mem_map]
    exact fun placed hplaced => newline_notMem_text (h placed hplaced).1 (h placed hplaced).2
  have hlabels : ∀ rule ∈ set.rules.map PlacedRule.rule, rule.label.isIdentifier := by
    rw [List.forall_mem_map]
    exact fun placed hplaced => (h placed hplaced).2
  have hread := readRuleLines_text hlabels 1
  rw [List.map_map] at hread
  unfold Entry.ofRuleText Line.ofText RuleSet.ruleText
  rw [String.toList_ofList, readRuleLines_splitLines_join hlines]
  exact hread

theorem renumbered_printable (h : set.Obtained)
    (hprints : ∀ placed ∈ set.rules, placed.rule.isPrintable) :
    ∀ placed ∈ set.renumbered, placed.rule.isPrintable ∧ placed.label.isIdentifier :=
  forall_mem_renumbered (p := fun rule => rule.isPrintable ∧ rule.label.isIdentifier)
    fun placed hplaced => ⟨hprints placed hplaced, (label_of_obtained h placed hplaced).2⟩

theorem ofRuleText_ruleText_eq (h : set.Obtained)
    (hprints : ∀ placed ∈ set.rules, placed.rule.isPrintable) :
    RuleSet.ofRuleText set.ruleText set.policy =
      ⟨(set.renumbered.map PlacedRule.reread).filterMap Entry.rule?, set.policy,
        (set.renumbered.map PlacedRule.reread).filterMap Entry.diagnostic?⟩ := by
  have hrules := fun placed hplaced =>
    And.intro (hprints placed hplaced) (label_of_obtained h placed hplaced).2
  have hrenumbered := renumbered_printable h hprints
  unfold RuleSet.ofRuleText
  rw [ofRuleText_ruleText_entries hrules]
  refine ofEntries_of_pairwise (fun placed hplaced => ?_)
    (returnLine?_reread_pairwise set.policy hrenumbered (renumbered_pairwise h))
  have hmem : placed ∈ (set.renumbered.map PlacedRule.reread).filterMap Entry.rule? :=
    List.mem_filterMap.2 ⟨_, hplaced, rfl⟩
  rw [filterMap_rule?_reread hrenumbered] at hmem
  have hknown := forall_mem_renumbered (p := fun rule => set.policy.knows rule.label)
    fun placed hplaced => (label_of_obtained h placed hplaced).1
  exact hknown placed (List.mem_of_mem_filter hmem)

end

/-- The rules without a connective are read again as they were, at their positions, and each other
rule is skipped at its own. -/
theorem RuleSet.ofRuleText_ruleText {set : RuleSet} (h : set.Obtained)
    (hprints : ∀ placed ∈ set.rules, placed.rule.isPrintable) :
    let again := RuleSet.ofRuleText set.ruleText set.policy
    again.rules = (set.renumbered.filter fun placed => !placed.rule.hasConnective) ∧
      List.Forall₂ SkipsPrinted (set.renumbered.filter fun placed => placed.rule.hasConnective)
        again.diagnostics ∧
      (again.rules.map PlacedRule.rule = set.rules.map PlacedRule.rule ↔
        ∀ placed ∈ set.rules, placed.rule.hasConnective = false) ∧
      (again.sameRules set ↔ ∀ placed ∈ set.rules, placed.rule.hasConnective = false) := by
  intro again
  have hrenumbered := renumbered_printable h hprints
  have hagain : again = ⟨_, set.policy, _⟩ := ofRuleText_ruleText_eq h hprints
  have hrules : again.rules = set.renumbered.filter fun placed => !placed.rule.hasConnective := by
    rw [hagain]
    exact filterMap_rule?_reread hrenumbered
  have hmapped : again.rules.map PlacedRule.rule =
      (set.rules.map PlacedRule.rule).filter fun rule => !rule.hasConnective := by
    rw [hrules]
    exact map_rule_filter_renumbered fun rule => !rule.hasConnective
  have hplain : (∀ placed ∈ set.rules, placed.rule.hasConnective = false) ↔
      ∀ rule ∈ set.rules.map PlacedRule.rule, (!rule.hasConnective) = true := by
    rw [List.forall_mem_map]
    simp only [Bool.not_eq_true']
  refine ⟨hrules, ?_, ?_, ?_⟩
  · rw [hagain]
    exact forall₂_diagnostic?_reread hrenumbered
  · rw [hmapped, hplain, List.filter_eq_self]
  · unfold sameRules
    rw [hmapped, hplain]
    constructor
    · intro hsame
      exact List.length_filter_eq_length_iff.1 (length_eq_of_isEqv hsame)
    · intro hall
      rw [List.filter_eq_self.2 hall]
      refine isEqv_self ?_
      rw [List.forall_mem_map]
      exact fun placed hplaced => Rule.same_self (hprints placed hplaced)

/-- One of the four rules has a connective, and one has two slashes in a string. -/
theorem RuleSet.ofRuleText_ruleText_of_four_rules :
    let set := RuleSet.ofRuleText ("if plan == 'a//b' then return \"BIG\"\n\n" ++
      "IF tenure < 6 OR true THEN RETURN SMALL\nIF NULL != 0.50 THEN RETURN BIG\n" ++
      "no rule\nRETURN NO_OFFER\nRETURN BIG") .standard
    let again := RuleSet.ofRuleText set.ruleText set.policy
    set.Obtained ∧ (∀ placed ∈ set.rules, placed.rule.isPrintable) ∧
      again.rules = (set.renumbered.filter fun placed => !placed.rule.hasConnective) ∧
      List.Forall₂ SkipsPrinted (set.renumbered.filter fun placed => placed.rule.hasConnective)
        again.diagnostics ∧
      (again.rules.map PlacedRule.rule = set.rules.map PlacedRule.rule ↔
        ∀ placed ∈ set.rules, placed.rule.hasConnective = false) ∧
      (again.sameRules set ↔ ∀ placed ∈ set.rules, placed.rule.hasConnective = false) := by
  intro set again
  have hset : set.Obtained := .ofRuleText _ .standard
  have hprints : ∀ placed ∈ set.rules, placed.rule.isPrintable := by decide +kernel
  exact ⟨hset, hprints, ofRuleText_ruleText hset hprints⟩

end Retention
