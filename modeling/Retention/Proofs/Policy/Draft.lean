import Mathlib.Data.List.Nodup
import Retention.Policy.Text
import Retention.Proofs.Lists

/-!
# What a draft builds

A draft that passes every check builds a policy, and the policy has the settings of the draft. The
costs of a draft are looked up by name, since no name has two of them.
-/

namespace Retention

/-! ## Costs by name -/

namespace PolicyDraft

def cost? (draft : PolicyDraft) (name : String) : Option Number := draft.costs.lookup name

/-- No name has two costs. -/
def CostsDistinct (draft : PolicyDraft) : Prop := (draft.costs.map Prod.fst).Nodup

theorem mem_costs_iff {draft : PolicyDraft} (h : draft.CostsDistinct) {name : String}
    {cost : Number} : (name, cost) ∈ draft.costs ↔ draft.cost? name = some cost :=
  ⟨lookup_of_mem h, mem_of_lookup⟩

theorem cost?_apply (draft : PolicyDraft) (setting : Setting) (name : String) :
    (draft.apply setting).cost? name = match setting with
      | .labels names => if name ∈ names then draft.cost? name else none
      | .cost other cost => if name = other then some cost else draft.cost? name
      | _ => draft.cost? name := by
  unfold apply cost?
  cases setting with
  | labels names =>
    have h : (draft.costs.filter fun entry => names.contains entry.1).lookup name =
        if names.contains name then draft.costs.lookup name else none :=
      lookup_filter_fst names.contains draft.costs name
    simpa using h
  | cost other cost =>
    have h : (draft.costs.filter fun entry => entry.1 != other).lookup name =
        if name != other then draft.costs.lookup name else none :=
      lookup_filter_fst (· != other) draft.costs name
    have hlast : [(other, cost)].lookup name = if name = other then some cost else none := by
      by_cases hname : name = other
      · simp [hname]
      · simp [List.lookup_cons, beq_eq_false_iff_ne.2 hname, hname]
    simp only [List.lookup_append, h, hlast]
    by_cases hname : name = other <;> simp [hname]
  | _ => rfl

theorem costsDistinct_apply {draft : PolicyDraft} (h : draft.CostsDistinct) (setting : Setting) :
    (draft.apply setting).CostsDistinct := by
  unfold CostsDistinct at h
  unfold apply CostsDistinct
  cases setting with
  | labels names => exact h.sublist (List.filter_sublist.map Prod.fst)
  | cost name cost =>
    have hrest := h.sublist ((List.filter_sublist (p := fun e => e.1 != name)).map Prod.fst)
    simp only [List.map_append, List.map_cons, List.map_nil]
    refine List.nodup_append.2 ⟨hrest, List.nodup_singleton name, ?_⟩
    intro other hother found hfound
    obtain ⟨entry, hentry, rfl⟩ := List.mem_map.1 hother
    rw [List.mem_singleton] at hfound
    subst hfound
    simpa using (List.mem_filter.1 hentry).2
  | _ => exact h

theorem costsDistinct_standard : standard.CostsDistinct := by
  unfold CostsDistinct
  decide

theorem costsDistinct_foldl {draft : PolicyDraft} (h : draft.CostsDistinct)
    (settings : List Setting) : (settings.foldl apply draft).CostsDistinct := by
  induction settings generalizing draft with
  | nil => exact h
  | cons setting rest ih => exact ih (costsDistinct_apply h setting)

theorem costsDistinct_ofSettings (settings : List Setting) : (ofSettings settings).CostsDistinct :=
  costsDistinct_foldl costsDistinct_standard settings

/-! ## Building -/

/-- Everything that is checked of a draft. -/
structure Valid (draft : PolicyDraft) : Prop where
  labels_ne_nil : draft.labels ≠ []
  labels_identifier : ∀ name ∈ draft.labels, isIdentifier name.toList
  labels_nodup : draft.labels.Nodup
  default_mem : ∀ name, draft.defaultLabel? = some name → name ∈ draft.labels
  cost_mem : ∀ name cost, draft.cost? name = some cost → name ∈ draft.labels
  cost_finite : ∀ name cost, draft.cost? name = some cost →
    ∃ x : Quantity, cost = .finite x ∧ Quantity.zero ≤ x
  threshold_finite : ∃ x : Quantity, draft.threshold = .finite x
  riskField_name : isFieldName draft.riskField.toList
  segmentField_name : isFieldName draft.segmentField.toList

/-- The policy has the settings of the draft, and the first label where no default is set. -/
structure Gives (draft : PolicyDraft) (policy : Policy) : Prop where
  labels : policy.labels = draft.labels.map Label.mk
  default : some policy.defaultLabel.name = draft.defaultLabel?.or draft.labels.head?
  cost : ∀ name, policy.costs[Label.mk name]?.map Number.finite = draft.cost? name
  riskField : policy.riskField = draft.riskField
  segmentField : policy.segmentField = draft.segmentField
  threshold : .finite policy.threshold = draft.threshold
  extras : policy.extras = draft.extras

theorem bind_eq_ok_iff {α β : Type} {first : Except ConfigError α} {next : α → Except ConfigError β}
    {b : β} : (first >>= next) = .ok b ↔ ∃ a, first = .ok a ∧ next a = .ok b := by
  cases first <;> simp [bind, Except.bind]

theorem checkDefault_eq_ok_iff {labels : List String} {default? : Option String} :
    checkDefault labels default? = .ok () ↔ ∀ name, default? = some name → name ∈ labels := by
  cases default? <;> simp [checkDefault]

theorem checkThreshold_eq_ok_iff {value : Number} {x : Quantity} :
    checkThreshold value = .ok x ↔ value = .finite x := by
  cases value <;> simp [checkThreshold, Number.finite?]

theorem checkField_eq_ok_iff {name : String} :
    checkField name = .ok () ↔ isFieldName name.toList := by
  simp [checkField]

/-- The policy of a draft whose costs and threshold are read as quantities. -/
def policyOf (draft : PolicyDraft) (default : String) (costs : List (Label × Quantity))
    (threshold : Quantity) : Policy where
  labels := draft.labels.map Label.mk
  defaultLabel := ⟨default⟩
  costs := .ofList costs compare
  riskField := draft.riskField
  segmentField := draft.segmentField
  threshold := threshold
  extras := draft.extras

theorem build_eq_ok_iff_checks {draft : PolicyDraft} {policy : Policy} :
    draft.build = .ok policy ↔ ∃ first rest costs threshold, draft.labels = first :: rest ∧
      checkLabels [] draft.labels = .ok () ∧
      checkDefault draft.labels draft.defaultLabel? = .ok () ∧
      checkCosts draft.labels draft.costs = .ok costs ∧
      checkThreshold draft.threshold = .ok threshold ∧ checkField draft.riskField = .ok () ∧
      checkField draft.segmentField = .ok () ∧
      policyOf draft (draft.defaultLabel?.getD first) costs threshold = policy := by
  unfold build
  split
  · rename_i hnil
    simp [hnil]
  · rename_i first rest hcons
    simp only [bind_eq_ok_iff, hcons, List.cons.injEq, policyOf]
    constructor
    · rintro ⟨_, hlabels, _, hdefault, costs, hcosts, threshold, hthreshold, _, hrisk, _, hsegment,
        hpolicy⟩
      cases hpolicy
      exact ⟨first, rest, costs, threshold, ⟨rfl, rfl⟩, hlabels, hdefault, hcosts, hthreshold,
        hrisk, hsegment, rfl⟩
    · rintro ⟨_, _, costs, threshold, ⟨rfl, rfl⟩, hlabels, hdefault, hcosts, hthreshold, hrisk,
        hsegment, rfl⟩
      exact ⟨(), hlabels, (), hdefault, costs, hcosts, threshold, hthreshold, (), hrisk, (),
        hsegment, rfl⟩

theorem valid_of_build {draft : PolicyDraft} {policy : Policy} (hcosts : draft.CostsDistinct)
    (h : draft.build = .ok policy) : draft.Valid := by
  obtain ⟨first, rest, costs, threshold, hcons, hlabels, hdefault, hchecked, hthreshold, hrisk,
    hsegment, -⟩ := build_eq_ok_iff_checks.1 h
  obtain ⟨hidentifier, hnodup, -⟩ := checkLabels_eq_ok_iff.1 hlabels
  obtain ⟨hmem, hpos, heq⟩ := checkCosts_eq_ok_iff.1 hchecked
  constructor
  case labels_ne_nil =>
    rw [hcons]
    exact List.cons_ne_nil first rest
  case labels_identifier => exact hidentifier
  case labels_nodup => exact hnodup
  case default_mem => exact checkDefault_eq_ok_iff.1 hdefault
  case cost_mem =>
    intro name cost hcost
    exact hmem (name, cost) ((mem_costs_iff hcosts).2 hcost)
  case cost_finite =>
    intro name cost hcost
    rw [← mem_costs_iff hcosts, heq] at hcost
    obtain ⟨entry, hentry, hpair⟩ := List.mem_map.1 hcost
    exact ⟨entry.2, (congrArg Prod.snd hpair).symm, hpos entry hentry⟩
  case threshold_finite => exact ⟨threshold, checkThreshold_eq_ok_iff.1 hthreshold⟩
  case riskField_name => exact checkField_eq_ok_iff.1 hrisk
  case segmentField_name => exact checkField_eq_ok_iff.1 hsegment

/-- The costs by label of a list of costs in which no label has two. -/
theorem getElem?_ofList_costs {costs : List (Label × Quantity)}
    (h : (costs.map fun entry => entry.1.name).Nodup) (name : String) :
    (Std.ExtTreeMap.ofList costs compare)[Label.mk name]?.map Number.finite =
      (costs.map fun entry => (entry.1.name, Number.finite entry.2)).lookup name := by
  have hdistinct : costs.Pairwise fun a b => ¬ compare a.1 b.1 = .eq := by
    rw [List.nodup_iff_pairwise_ne, List.pairwise_map] at h
    refine h.imp fun hne heq => hne ?_
    rw [Std.compare_eq_iff_eq.1 heq]
  have hnodup : ((costs.map fun entry => (entry.1.name, Number.finite entry.2)).map
      Prod.fst).Nodup := by
    rw [List.map_map]
    exact h
  cases hlookup : (costs.map fun entry => (entry.1.name, Number.finite entry.2)).lookup name with
  | none =>
    have habsent : Label.mk name ∉ costs.map Prod.fst := by
      intro hmem
      obtain ⟨entry, hentry, hname⟩ := List.mem_map.1 hmem
      have hpair := List.lookup_eq_none_iff.1 hlookup _ (List.mem_map_of_mem hentry)
      simp [hname] at hpair
    have hcontains : (costs.map Prod.fst).contains (Label.mk name) = false := by
      simpa using habsent
    rw [Std.ExtTreeMap.getElem?_ofList_of_contains_eq_false hcontains]
    rfl
  | some cost =>
    obtain ⟨⟨⟨other⟩, x⟩, hentry, hpair⟩ := List.mem_map.1 (mem_of_lookup hlookup)
    simp only [Prod.mk.injEq] at hpair
    obtain ⟨rfl, rfl⟩ := hpair
    rw [Std.ExtTreeMap.getElem?_ofList_of_mem Std.ReflCmp.compare_self hdistinct hentry]
    rfl

theorem gives_of_build {draft : PolicyDraft} {policy : Policy} (hcosts : draft.CostsDistinct)
    (h : draft.build = .ok policy) : draft.Gives policy := by
  obtain ⟨first, rest, costs, threshold, hcons, -, -, hchecked, hthreshold, -, -, rfl⟩ :=
    build_eq_ok_iff_checks.1 h
  obtain ⟨-, -, heq⟩ := checkCosts_eq_ok_iff.1 hchecked
  constructor
  case labels => rfl
  case default =>
    rw [hcons]
    cases hdefault : draft.defaultLabel? <;> simp [policyOf]
  case cost =>
    intro name
    have hnames : (costs.map fun entry => entry.1.name).Nodup := by
      unfold CostsDistinct at hcosts
      rwa [heq, List.map_map] at hcosts
    unfold cost?
    rw [heq]
    exact getElem?_ofList_costs hnames name
  case riskField => rfl
  case segmentField => rfl
  case threshold => exact (checkThreshold_eq_ok_iff.1 hthreshold).symm
  case extras => rfl

theorem exists_checked {costs : List (String × Number)}
    (h : ∀ entry ∈ costs, ∃ x, entry.2 = .finite x ∧ Quantity.zero ≤ x) :
    ∃ checked : List (Label × Quantity), (∀ entry ∈ checked, Quantity.zero ≤ entry.2) ∧
      costs = checked.map fun entry => (entry.1.name, .finite entry.2) := by
  induction costs with
  | nil => exact ⟨[], by simp, rfl⟩
  | cons entry rest ih =>
    rw [List.forall_mem_cons] at h
    obtain ⟨⟨x, hx, hpos⟩, hrest⟩ := h
    obtain ⟨checked, hall, rfl⟩ := ih hrest
    refine ⟨(⟨entry.1⟩, x) :: checked, List.forall_mem_cons.2 ⟨hpos, hall⟩, ?_⟩
    rw [List.map_cons, ← hx]

theorem exists_build_of_valid {draft : PolicyDraft} (hcosts : draft.CostsDistinct)
    (h : draft.Valid) : ∃ policy, draft.build = .ok policy := by
  obtain ⟨first, rest, hcons⟩ := List.exists_cons_of_ne_nil h.labels_ne_nil
  obtain ⟨threshold, hthreshold⟩ := h.threshold_finite
  have hmem : ∀ entry ∈ draft.costs, entry.1 ∈ draft.labels :=
    fun entry hentry => h.cost_mem _ _ ((mem_costs_iff hcosts).1 hentry)
  have hfinite : ∀ entry ∈ draft.costs, ∃ x, entry.2 = .finite x ∧ Quantity.zero ≤ x :=
    fun entry hentry => h.cost_finite _ _ ((mem_costs_iff hcosts).1 hentry)
  obtain ⟨costs, hpos, heq⟩ := exists_checked hfinite
  have hchecked := checkCosts_eq_ok_iff.2 ⟨hmem, hpos, heq⟩
  exact ⟨_, build_eq_ok_iff_checks.2 ⟨first, rest, costs, threshold, hcons,
    checkLabels_eq_ok_iff.2 ⟨h.labels_identifier, h.labels_nodup, by simp⟩,
    checkDefault_eq_ok_iff.2 h.default_mem, hchecked, checkThreshold_eq_ok_iff.2 hthreshold,
    checkField_eq_ok_iff.2 h.riskField_name, checkField_eq_ok_iff.2 h.segmentField_name, rfl⟩⟩

theorem eq_of_gives {draft : PolicyDraft} {p q : Policy} (hp : draft.Gives p) (hq : draft.Gives q) :
    p = q := by
  have hlabels : p.labels = q.labels := hp.labels.trans hq.labels.symm
  have hdefault : p.defaultLabel = q.defaultLabel := by
    have h := hp.default.trans hq.default.symm
    rw [Option.some.injEq] at h
    cases hp' : p.defaultLabel
    cases hq' : q.defaultLabel
    rw [hp', hq'] at h
    exact congrArg Label.mk h
  have hcosts : p.costs = q.costs := by
    refine Std.ExtTreeMap.ext_getElem? fun label => ?_
    have h := (hp.cost label.name).trans (hq.cost label.name).symm
    exact Option.map_injective (fun _ _ heq => Number.finite.inj heq) h
  have hthreshold : p.threshold = q.threshold :=
    Number.finite.inj (hp.threshold.trans hq.threshold.symm)
  cases p
  cases q
  rw [Policy.mk.injEq]
  exact ⟨hlabels, hdefault, hcosts, hp.riskField.trans hq.riskField.symm,
    hp.segmentField.trans hq.segmentField.symm, hthreshold, hp.extras.trans hq.extras.symm⟩

/-- A draft builds the policy that has its settings, if it passes every check. -/
theorem build_eq_ok_iff {draft : PolicyDraft} {policy : Policy} (hcosts : draft.CostsDistinct) :
    draft.build = .ok policy ↔ draft.Valid ∧ draft.Gives policy := by
  constructor
  · intro h
    exact ⟨valid_of_build hcosts h, gives_of_build hcosts h⟩
  · rintro ⟨hvalid, hgives⟩
    obtain ⟨other, hother⟩ := exists_build_of_valid hcosts hvalid
    rw [hother, eq_of_gives hgives (gives_of_build hcosts hother)]

end PolicyDraft

/-! ## The standard policy -/

theorem build_standard : PolicyDraft.standard.build = .ok .standard := by
  have hlabels : PolicyDraft.checkLabels [] standardLabels = .ok () :=
    PolicyDraft.checkLabels_eq_ok_iff.2 (by decide)
  have hcosts : PolicyDraft.checkCosts standardLabels
      (standardCosts.map fun entry => (entry.1, .finite entry.2)) =
      .ok (standardCosts.map fun entry => (Label.mk entry.1, entry.2)) :=
    PolicyDraft.checkCosts_eq_ok_iff.2 ⟨by decide, by decide +kernel, rfl⟩
  unfold PolicyDraft.build
  simp only [PolicyDraft.standard, hlabels, hcosts]
  rfl

/-- The policy of no lines is the standard policy. -/
theorem policy_ofLines_nil : Policy.ofLines [] = .standard := by
  have hsettings : PolicyEntry.settings [] = [] := rfl
  have hbuild : Policy.ofSettings [] = .ok .standard := build_standard
  unfold Policy.ofLines Policy.ofEntries PolicyEntry.readLines
  rw [List.filterMap_nil, hsettings, hbuild]

end Retention
