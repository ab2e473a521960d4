import Retention.Proofs.Policy.History

/-!
# What a run of settings builds

A run builds if what it leaves passes every check, and the policy has what the run leaves. A run
whose settings can each be used always builds if its vocabulary stands in front.
-/

namespace Retention

/-! ## Runs that build -/

namespace Setting

/-- Everything that is checked of what a run of settings leaves. -/
structure Buildable (settings : List Setting) : Prop where
  labels_ne_nil : vocabulary settings ≠ []
  labels_identifier : ∀ name ∈ vocabulary settings, isIdentifier name.toList
  labels_nodup : (vocabulary settings).Nodup
  default_mem : ∀ name, last? defaultLabel? settings = some name → name ∈ vocabulary settings
  cost_mem : ∀ name cost, costLeft? name settings = some cost → name ∈ vocabulary settings
  cost_finite : ∀ name cost, costLeft? name settings = some cost →
    ∃ x : Quantity, cost = .finite x ∧ Quantity.zero ≤ x
  threshold_finite : ∃ x : Quantity,
    (last? threshold? settings).getD (.finite standardThreshold) = .finite x
  riskField_name : isFieldName ((last? riskField? settings).getD standardRiskField).toList
  segmentField_name :
    isFieldName ((last? segmentField? settings).getD standardSegmentField).toList

end Setting

/-- The policy has what a run of settings leaves, and the first label where no default is set. -/
structure Policy.Follows (policy : Policy) (settings : List Setting) : Prop where
  labels : policy.labels = (Setting.vocabulary settings).map Label.mk
  default : some policy.defaultLabel.name =
    (Setting.last? Setting.defaultLabel? settings).or (Setting.vocabulary settings).head?
  cost : ∀ name, policy.costs[Label.mk name]?.map Number.finite =
    Setting.costLeft? name settings
  riskField : policy.riskField =
    (Setting.last? Setting.riskField? settings).getD standardRiskField
  segmentField : policy.segmentField =
    (Setting.last? Setting.segmentField? settings).getD standardSegmentField
  threshold : .finite policy.threshold =
    (Setting.last? Setting.threshold? settings).getD (.finite standardThreshold)
  extra : ∀ key, policy.extra? key = Setting.last? (Setting.extra? key) settings

namespace PolicyDraft

variable {settings : List Setting} {draft : PolicyDraft}

theorem Leaves.valid_iff (h : draft.Leaves settings) :
    draft.Valid ↔ Setting.Buildable settings := by
  have hlabels : draft.labels = Setting.vocabulary settings := h.labels
  constructor
  · intro hvalid
    constructor
    case labels_ne_nil => exact hlabels ▸ hvalid.labels_ne_nil
    case labels_identifier => exact hlabels ▸ hvalid.labels_identifier
    case labels_nodup => exact hlabels ▸ hvalid.labels_nodup
    case default_mem => exact hlabels ▸ h.defaultLabel? ▸ hvalid.default_mem
    case cost_mem =>
      intro name cost hcost
      exact hlabels ▸ hvalid.cost_mem name cost ((h.cost? name).trans hcost)
    case cost_finite =>
      intro name cost hcost
      exact hvalid.cost_finite name cost ((h.cost? name).trans hcost)
    case threshold_finite => exact h.threshold ▸ hvalid.threshold_finite
    case riskField_name => exact h.riskField ▸ hvalid.riskField_name
    case segmentField_name => exact h.segmentField ▸ hvalid.segmentField_name
  · intro hbuildable
    constructor
    case labels_ne_nil => exact hlabels ▸ hbuildable.labels_ne_nil
    case labels_identifier => exact hlabels ▸ hbuildable.labels_identifier
    case labels_nodup => exact hlabels ▸ hbuildable.labels_nodup
    case default_mem => exact hlabels ▸ h.defaultLabel? ▸ hbuildable.default_mem
    case cost_mem =>
      intro name cost hcost
      exact hlabels ▸ hbuildable.cost_mem name cost ((h.cost? name).symm.trans hcost)
    case cost_finite =>
      intro name cost hcost
      exact hbuildable.cost_finite name cost ((h.cost? name).symm.trans hcost)
    case threshold_finite => exact h.threshold ▸ hbuildable.threshold_finite
    case riskField_name => exact h.riskField ▸ hbuildable.riskField_name
    case segmentField_name => exact h.segmentField ▸ hbuildable.segmentField_name

theorem Leaves.follows (h : draft.Leaves settings) {policy : Policy} (hgives : draft.Gives policy) :
    policy.Follows settings := by
  have hlabels : draft.labels = Setting.vocabulary settings := h.labels
  constructor
  case labels => rw [hgives.labels, hlabels]
  case default => rw [hgives.default, h.defaultLabel?, hlabels]
  case cost =>
    intro name
    rw [hgives.cost, h.cost?]
  case riskField => rw [hgives.riskField, h.riskField]
  case segmentField => rw [hgives.segmentField, h.segmentField]
  case threshold => rw [hgives.threshold, h.threshold]
  case extra =>
    intro key
    rw [Policy.extra?, hgives.extras, h.extras]

theorem Leaves.gives (h : draft.Leaves settings) {policy : Policy}
    (hfollows : policy.Follows settings) : draft.Gives policy := by
  have hlabels : draft.labels = Setting.vocabulary settings := h.labels
  constructor
  case labels => rw [hfollows.labels, hlabels]
  case default => rw [hfollows.default, h.defaultLabel?, hlabels]
  case cost =>
    intro name
    rw [hfollows.cost, h.cost?]
  case riskField => rw [hfollows.riskField, h.riskField]
  case segmentField => rw [hfollows.segmentField, h.segmentField]
  case threshold => rw [hfollows.threshold, h.threshold]
  case extras =>
    exact Std.ExtTreeMap.ext_getElem? fun key => (hfollows.extra key).trans (h.extras key).symm

end PolicyDraft

section

variable {settings : List Setting}

theorem exists_ofSettings_iff :
    (∃ policy, Policy.ofSettings settings = .ok policy) ↔ Setting.Buildable settings := by
  have hdistinct := PolicyDraft.costsDistinct_ofSettings settings
  rw [← (PolicyDraft.leaves_ofSettings settings).valid_iff]
  constructor
  · rintro ⟨policy, hpolicy⟩
    exact PolicyDraft.valid_of_build hdistinct hpolicy
  · exact PolicyDraft.exists_build_of_valid hdistinct

theorem follows_of_ofSettings {policy : Policy} (h : Policy.ofSettings settings = .ok policy) :
    policy.Follows settings :=
  (PolicyDraft.leaves_ofSettings settings).follows
    (PolicyDraft.gives_of_build (PolicyDraft.costsDistinct_ofSettings settings) h)

theorem Policy.Follows.cost_eq {policy : Policy} (h : policy.Follows settings) (name : String) :
    .finite (policy.cost ⟨name⟩) = (Setting.costLeft? name settings).getD (.finite .zero) := by
  rw [← h.cost, Policy.cost]
  cases policy.costs[Label.mk name]? <;> rfl

/-- What a run leaves makes up the whole policy. -/
theorem Policy.Follows.unique {p q : Policy} (hp : p.Follows settings) (hq : q.Follows settings) :
    p = q :=
  have hleaves := PolicyDraft.leaves_ofSettings settings
  PolicyDraft.eq_of_gives (hleaves.gives hp) (hleaves.gives hq)

/-- A run builds if what it leaves passes every check, and then the policy has what it leaves. A
label without a cost that is left costs nothing. -/
theorem ofSettings_ok_iff_buildable (settings : List Setting) :
    ((∃ policy, Policy.ofSettings settings = .ok policy) ↔ Setting.Buildable settings) ∧
      ∀ policy, Policy.ofSettings settings = .ok policy → policy.Follows settings ∧
        ∀ name, .finite (policy.cost ⟨name⟩) =
          (Setting.costLeft? name settings).getD (.finite .zero) := by
  refine ⟨exists_ofSettings_iff, fun policy hpolicy => ?_⟩
  have hfollows := follows_of_ofSettings hpolicy
  exact ⟨hfollows, hfollows.cost_eq⟩

/-- A vocabulary in the middle drops two costs, which the last vocabulary does not bring back. -/
theorem ofSettings_ok_iff_buildable_of_dropped_cost :
    let fifteen := Number.finite (.ofNat 15 (by decide))
    let settings : List Setting := [.cost "BIG" fifteen, .labels ["NONE", "VIP"],
      .cost "VIP" fifteen, .defaultLabel "SMALL", .labels ["VIP", "BIG", "SMALL"],
      .riskField "risk.score"]
    ∃ policy, Policy.ofSettings settings = .ok policy ∧ policy.Follows settings ∧
      .finite (policy.cost ⟨"VIP"⟩) = fifteen ∧ policy.cost ⟨"BIG"⟩ = .zero ∧
      policy.cost ⟨"SMALL"⟩ = .zero := by
  intro fifteen settings
  have hdraft : (PolicyDraft.ofSettings settings).costs = [("VIP", fifteen)] := rfl
  have hmem : ∀ name cost, (PolicyDraft.ofSettings settings).cost? name = some cost →
      name = "VIP" ∧ cost = fifteen := by
    intro name cost hcost
    have hentry := mem_of_lookup hcost
    rw [hdraft, List.mem_singleton] at hentry
    exact Prod.mk.inj hentry
  have hvalid : (PolicyDraft.ofSettings settings).Valid := by
    constructor
    case cost_mem =>
      intro name cost hcost
      rw [(hmem name cost hcost).1]
      decide
    case cost_finite =>
      intro name cost hcost
      exact ⟨_, (hmem name cost hcost).2, by decide +kernel⟩
    case default_mem =>
      rintro _ ⟨⟩
      decide
    case threshold_finite => exact ⟨standardThreshold, rfl⟩
    all_goals decide
  obtain ⟨policy, hpolicy⟩ := (ofSettings_ok_iff_buildable settings).1.2
    ((PolicyDraft.leaves_ofSettings settings).valid_iff.1 hvalid)
  obtain ⟨hfollows, hcost⟩ := (ofSettings_ok_iff_buildable settings).2 policy hpolicy
  exact ⟨policy, hpolicy, hfollows, hcost "VIP", Number.finite.inj (hcost "BIG"),
    Number.finite.inj (hcost "SMALL")⟩

end

/-! ## Settings that can be used -/

namespace Setting

/-- What a policy can take under a vocabulary. -/
def isUsable (labels : List String) : Setting → Bool
  | .labels names => names ≠ [] ∧ names.Nodup ∧ ∀ name ∈ names, isIdentifier name.toList
  | .defaultLabel name => name ∈ labels
  | .cost name value => name ∈ labels ∧ value.finite?.any (Quantity.zero ≤ ·)
  | .riskField name | .segmentField name => isFieldName name.toList
  | .threshold value => value.finite?.isSome
  | .extra _ _ => true

section

variable {settings : List Setting}

theorem isUsable_of_last? {labels : List String} (h : ∀ setting ∈ settings, setting.isUsable labels)
    {β : Type} {take : Setting → Option β} {b : β} (hlast : last? take settings = some b) :
    ∃ setting, take setting = some b ∧ setting.isUsable labels := by
  obtain ⟨setting, hmem, htake⟩ := exists_of_last? hlast
  exact ⟨setting, htake, h setting hmem⟩

theorem vocabulary_of_usable
    (h : ∀ setting ∈ settings, setting.isUsable (vocabulary settings)) :
    vocabulary settings ≠ [] ∧ (vocabulary settings).Nodup ∧
      ∀ name ∈ vocabulary settings, isIdentifier name.toList := by
  cases hlast : last? labels? settings with
  | none =>
    rw [vocabulary, hlast, Option.getD_none]
    decide
  | some names =>
    obtain ⟨setting, htake, husable⟩ := isUsable_of_last? h hlast
    cases setting <;> cases htake
    rw [vocabulary, hlast, Option.getD_some]
    exact of_decide_eq_true husable

/-- A cost that is left was set for a label, or it is the standard cost of one. -/
theorem cost_of_usable (h : ∀ setting ∈ settings, setting.isUsable (vocabulary settings))
    (hfirst : LabelsFirst settings) {name : String} {cost : Number}
    (hcost : costLeft? name settings = some cost) :
    name ∈ vocabulary settings ∧ ∃ x : Quantity, cost = .finite x ∧ Quantity.zero ≤ x := by
  have hstandard := PolicyDraft.valid_of_build PolicyDraft.costsDistinct_standard build_standard
  rw [costLeft?_of_labelsFirst hfirst, Option.or_eq_some_iff] at hcost
  rcases hcost with hlast | ⟨-, hcost⟩
  · obtain ⟨setting, htake, husable⟩ := isUsable_of_last? h hlast
    rw [cost?_eq_some_iff.1 htake] at husable
    simp only [isUsable, decide_eq_true_eq, Option.any_eq_true] at husable
    obtain ⟨hname, x, hx, hpos⟩ := husable
    exact ⟨hname, x, (Number.finite?_eq_some_iff cost x).1 hx, hpos⟩
  · split at hcost
    · rename_i hname
      exact ⟨hname, hstandard.cost_finite name cost hcost⟩
    · cases hcost

theorem buildable_of_usable (h : ∀ setting ∈ settings, setting.isUsable (vocabulary settings))
    (hfirst : LabelsFirst settings) : Buildable settings := by
  obtain ⟨hne, hnodup, hidentifier⟩ := vocabulary_of_usable h
  constructor
  case labels_ne_nil => exact hne
  case labels_identifier => exact hidentifier
  case labels_nodup => exact hnodup
  case default_mem =>
    intro name hset
    obtain ⟨setting, htake, husable⟩ := isUsable_of_last? h hset
    cases setting <;> cases htake
    exact of_decide_eq_true husable
  case cost_mem => exact fun _ _ hcost => (cost_of_usable h hfirst hcost).1
  case cost_finite => exact fun _ _ hcost => (cost_of_usable h hfirst hcost).2
  case threshold_finite =>
    cases hlast : last? threshold? settings with
    | none => exact ⟨standardThreshold, rfl⟩
    | some value =>
      obtain ⟨setting, htake, husable⟩ := isUsable_of_last? h hlast
      cases setting <;> cases htake
      obtain ⟨x, hx⟩ := Option.isSome_iff_exists.1 husable
      exact ⟨x, (Number.finite?_eq_some_iff value x).1 hx⟩
  case riskField_name =>
    cases hlast : last? riskField? settings with
    | none => decide
    | some name =>
      obtain ⟨setting, htake, husable⟩ := isUsable_of_last? h hlast
      cases setting <;> cases htake
      exact husable
  case segmentField_name =>
    cases hlast : last? segmentField? settings with
    | none => decide
    | some name =>
      obtain ⟨setting, htake, husable⟩ := isUsable_of_last? h hlast
      cases setting <;> cases htake
      exact husable

end

end Setting

end Retention
