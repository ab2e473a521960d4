import Retention.Decision
import Retention.Proofs.Policy.Draft
import Retention.Proofs.Verdicts

/-!
# Only known labels are handed out

Every policy that can be had lists distinct identifiers, its default label among them, and has
costs for its own labels only. The rules that run return labels of the policy, so each decision
does.
-/

namespace Retention

/-! ## Policies -/

/-- What holds of every policy that can be had. Costs and thresholds are quantities, so they are
finite. -/
structure Policy.IsSound (policy : Policy) : Prop where
  labels_ne_nil : policy.labels ≠ []
  labels_identifier : ∀ label ∈ policy.labels, label.isIdentifier
  labels_nodup : policy.labels.Nodup
  default_mem : policy.defaultLabel ∈ policy.labels
  cost_mem : ∀ (label : Label) (cost : Quantity), policy.costs[label]? = some cost →
    label ∈ policy.labels
  cost_nonneg : ∀ (label : Label) (cost : Quantity), policy.costs[label]? = some cost →
    Quantity.zero ≤ cost
  riskField_name : isFieldName policy.riskField.toList
  segmentField_name : isFieldName policy.segmentField.toList

/-- The ways to a policy: the standard one, settings that build, or the text of a document. -/
inductive Policy.Obtained : Policy → Prop
  | standard : Obtained .standard
  | built {settings : List Setting} {policy : Policy} :
    Policy.ofSettings settings = .ok policy → Obtained policy
  | parsed (text : String) : Obtained (.parse text)

theorem injective_labelMk : Function.Injective Label.mk := by
  intro a b h
  exact congrArg Label.name h

theorem isSound_of_gives {draft : PolicyDraft} {policy : Policy} (hvalid : draft.Valid)
    (hgives : draft.Gives policy) : policy.IsSound := by
  have hmem : ∀ name, Label.mk name ∈ policy.labels ↔ name ∈ draft.labels := by
    intro name
    rw [hgives.labels, List.mem_map_of_injective injective_labelMk]
  have hcost : ∀ (label : Label) (cost : Quantity), policy.costs[label]? = some cost →
      draft.cost? label.name = some (.finite cost) := by
    intro label cost h
    rw [← hgives.cost label.name, h]
    rfl
  constructor
  case labels_ne_nil =>
    rw [hgives.labels]
    simpa using hvalid.labels_ne_nil
  case labels_identifier =>
    intro label hlabel
    exact hvalid.labels_identifier label.name ((hmem label.name).1 hlabel)
  case labels_nodup =>
    rw [hgives.labels]
    exact hvalid.labels_nodup.map injective_labelMk
  case default_mem =>
    have hdefault := hgives.default
    refine (hmem policy.defaultLabel.name).2 ?_
    cases hset : draft.defaultLabel? with
    | some name =>
      rw [hset, Option.some_or, Option.some.injEq] at hdefault
      rw [hdefault]
      exact hvalid.default_mem name hset
    | none =>
      rw [hset, Option.none_or] at hdefault
      exact List.mem_of_head? hdefault.symm
  case cost_mem =>
    intro label cost h
    exact (hmem label.name).2 (hvalid.cost_mem _ _ (hcost label cost h))
  case cost_nonneg =>
    intro label cost h
    obtain ⟨x, hx, hpos⟩ := hvalid.cost_finite _ _ (hcost label cost h)
    rwa [Number.finite.inj hx]
  case riskField_name =>
    rw [hgives.riskField]
    exact hvalid.riskField_name
  case segmentField_name =>
    rw [hgives.segmentField]
    exact hvalid.segmentField_name

theorem isSound_of_ofSettings {settings : List Setting} {policy : Policy}
    (h : Policy.ofSettings settings = .ok policy) : policy.IsSound := by
  have hbuild := (PolicyDraft.build_eq_ok_iff (PolicyDraft.costsDistinct_ofSettings settings)).1 h
  exact isSound_of_gives hbuild.1 hbuild.2

theorem isSound_standard : Policy.standard.IsSound := by
  have h : Policy.ofSettings [] = .ok .standard := build_standard
  exact isSound_of_ofSettings h

theorem isSound_of_obtained {policy : Policy} (h : policy.Obtained) : policy.IsSound := by
  cases h with
  | standard => exact isSound_standard
  | built h => exact isSound_of_ofSettings h
  | parsed text =>
    unfold Policy.parse Policy.ofLines Policy.ofEntries
    split
    · rename_i policy h
      exact isSound_of_ofSettings h
    · exact isSound_standard

/-! ## Rule sets -/

/-- The ways to a rule set: a document, a rule text under a policy, or steps that build. -/
inductive RuleSet.Obtained : RuleSet → Prop
  | ofDocument (text : String) : Obtained (.compile text)
  | ofRuleText (text : String) {policy : Policy} : policy.Obtained →
    Obtained (.ofRuleText text policy)
  | built {steps : List RuleSetDraft.Step} {set : RuleSet} :
    (∀ policy, .policy policy ∈ steps → policy.Obtained) →
    (RuleSetDraft.ofSteps steps).build = .ok set → Obtained set

theorem policy_foldl_apply {p : Policy → Prop} {steps : List RuleSetDraft.Step}
    (hsteps : ∀ policy, .policy policy ∈ steps → p policy) {draft : RuleSetDraft}
    (hdraft : p draft.policy) : p (steps.foldl RuleSetDraft.apply draft).policy := by
  induction steps generalizing draft with
  | nil => exact hdraft
  | cons step rest ih =>
    have hrest : ∀ policy, .policy policy ∈ rest → p policy :=
      fun policy h => hsteps policy (List.mem_cons_of_mem step h)
    cases step with
    | policy policy => exact ih hrest (hsteps policy List.mem_cons_self)
    | rule rule => exact ih hrest hdraft

/-- Whatever the way to a rule set, it comes from entries under a policy that can be had. -/
theorem exists_entries_of_obtained {set : RuleSet} (h : set.Obtained) :
    ∃ policy entries, policy.Obtained ∧ set = .ofEntries policy entries := by
  cases h with
  | ofDocument text =>
    exact ⟨.parse text, Entry.ofDocument (Document.parse text), .parsed text, rfl⟩
  | ofRuleText text hpolicy => exact ⟨_, Entry.ofRuleText text, hpolicy, rfl⟩
  | @built steps _ hsteps hbuild =>
    unfold RuleSetDraft.build RuleSet.ofRules at hbuild
    split at hbuild
    · cases hbuild
    · cases hbuild
      refine ⟨(RuleSetDraft.ofSteps steps).policy, _, ?_, rfl⟩
      exact policy_foldl_apply hsteps .standard

theorem label_mem_of_mem_ofEntries {policy : Policy} {entries : List Entry} {placed : PlacedRule}
    (h : placed ∈ (RuleSet.ofEntries policy entries).rules) : placed.label ∈ policy.labels := by
  rw [rules_ofEntries] at h
  have hknown := (throughFallback_sublist _).subset h
  unfold knownRules at hknown
  have hlabel := (List.mem_filter.1 hknown).2
  unfold Policy.knows at hlabel
  exact List.contains_iff_mem.1 hlabel

/-! ## Decisions -/

/-- The label of a decision is the default label or the label of a rule. -/
theorem label_firstMatch (policy : Policy) (record : Record) (index : Nat)
    (rules : List PlacedRule) :
    (policy.firstMatch record index rules).label = policy.defaultLabel ∨
      ∃ placed ∈ rules, (policy.firstMatch record index rules).label = placed.label := by
  induction rules generalizing index with
  | nil => exact .inl rfl
  | cons placed rest ih =>
    obtain ⟨condition | label, line⟩ := placed
    · unfold Policy.firstMatch
      simp only
      split
      · exact .inr ⟨_, List.mem_cons_self, rfl⟩
      · rcases ih (index + 1) with h | ⟨other, hother, h⟩
        · exact .inl h
        · exact .inr ⟨other, List.mem_cons_of_mem _ hother, h⟩
    · exact .inr ⟨_, List.mem_cons_self, rfl⟩

theorem label_decide_mem {policy : Policy} {rules : List PlacedRule}
    (hdefault : policy.defaultLabel ∈ policy.labels)
    (hrules : ∀ placed ∈ rules, placed.label ∈ policy.labels) (record : Record) :
    (policy.decide rules record).label ∈ policy.labels := by
  unfold Policy.decide
  split
  · exact hdefault
  · rcases label_firstMatch policy record 0 rules with h | ⟨placed, hplaced, h⟩
    · rw [h]
      exact hdefault
    · rw [h]
      exact hrules placed hplaced

/-- However a rule set was had, its policy is sound, its rules return labels of the policy, and
every record gets a label of the policy. -/
theorem labels_known_of_obtained {set : RuleSet} (h : set.Obtained) :
    set.policy.IsSound ∧ (∀ placed ∈ set.rules, placed.label ∈ set.policy.labels) ∧
      ∀ record, (set.decide record).label ∈ set.policy.labels := by
  obtain ⟨policy, entries, hpolicy, rfl⟩ := exists_entries_of_obtained h
  have hsound : policy.IsSound := isSound_of_obtained hpolicy
  have hrules : ∀ placed ∈ (RuleSet.ofEntries policy entries).rules,
      placed.label ∈ policy.labels := fun _ hplaced => label_mem_of_mem_ofEntries hplaced
  exact ⟨hsound, hrules, label_decide_mem hsound.default_mem hrules⟩

/-- A rule returns a quoted label with a blank, and the text of the policy sets a cost for a label
that it does not list. -/
theorem labels_known_of_obtained_of_texts :
    let policy := Policy.parse "[POLICY]\nLABELS=NONE,big\nDEFAULT_LABEL=big\nCOST_SMALL=-1\n"
    let set := RuleSet.ofRuleText "IF tenure < 6 THEN RETURN \"A B\"\nRETURN big" policy
    set.Obtained ∧ set.policy.IsSound ∧
      (∀ placed ∈ set.rules, placed.label ∈ set.policy.labels) ∧
      ∀ record, (set.decide record).label ∈ set.policy.labels := by
  intro policy set
  have hset : set.Obtained := .ofRuleText _ (.parsed _)
  exact ⟨hset, labels_known_of_obtained hset⟩

end Retention
