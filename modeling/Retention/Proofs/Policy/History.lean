import Mathlib.Data.List.DropRight
import Mathlib.Data.List.Induction
import Retention.Proofs.Policy.Draft

/-!
# What a run of settings leaves

Of several settings of one thing the last one counts. Behind the vocabulary only the last setting
of each key matters, so runs that set nothing twice leave the same draft whatever the order of
their settings.
-/

namespace Retention

/-! ## What a setting sets -/

namespace Setting

/-- The key that a setting has in the text of a policy. -/
def key : Setting → String
  | .labels _ => "LABELS"
  | .defaultLabel _ => "DEFAULT_LABEL"
  | .cost name _ => "COST_" ++ name
  | .riskField _ => "RISK_FIELD"
  | .segmentField _ => "SEGMENT_FIELD"
  | .threshold _ => "HIGH_RISK_THRESHOLD"
  | .extra key _ => key

def labels? : Setting → Option (List String)
  | .labels names => some names
  | _ => none

def defaultLabel? : Setting → Option String
  | .defaultLabel name => some name
  | _ => none

def cost? (name : String) : Setting → Option Number
  | .cost other value => if name = other then some value else none
  | _ => none

def riskField? : Setting → Option String
  | .riskField name => some name
  | _ => none

def segmentField? : Setting → Option String
  | .segmentField name => some name
  | _ => none

def threshold? : Setting → Option Number
  | .threshold value => some value
  | _ => none

def extra? (key : String) : Setting → Option String
  | .extra other value => if key = other then some value else none
  | _ => none

theorem cost?_eq_some_iff {setting : Setting} {name : String} {value : Number} :
    setting.cost? name = some value ↔ setting = .cost name value := by
  cases setting <;> grind [cost?]

theorem extra?_eq_some_iff {setting : Setting} {key value : String} :
    setting.extra? key = some value ↔ setting = .extra key value := by
  cases setting <;> grind [extra?]

theorem key_of_labels? (setting : Setting) (names : List String)
    (h : setting.labels? = some names) : setting.key = "LABELS" := by
  cases setting <;> cases h
  rfl

theorem key_of_defaultLabel? (setting : Setting) (name : String)
    (h : setting.defaultLabel? = some name) : setting.key = "DEFAULT_LABEL" := by
  cases setting <;> cases h
  rfl

theorem key_of_cost? (name : String) (setting : Setting) (value : Number)
    (h : setting.cost? name = some value) : setting.key = "COST_" ++ name := by
  rw [cost?_eq_some_iff.1 h]
  rfl

theorem key_of_riskField? (setting : Setting) (name : String)
    (h : setting.riskField? = some name) : setting.key = "RISK_FIELD" := by
  cases setting <;> cases h
  rfl

theorem key_of_segmentField? (setting : Setting) (name : String)
    (h : setting.segmentField? = some name) : setting.key = "SEGMENT_FIELD" := by
  cases setting <;> cases h
  rfl

theorem key_of_threshold? (setting : Setting) (value : Number)
    (h : setting.threshold? = some value) : setting.key = "HIGH_RISK_THRESHOLD" := by
  cases setting <;> cases h
  rfl

theorem key_of_extra? (key : String) (setting : Setting) (value : String)
    (h : setting.extra? key = some value) : setting.key = key := by
  rw [extra?_eq_some_iff.1 h]
  rfl

/-! ## The last setting of a kind -/

section

variable {β : Type} {take : Setting → Option β}

/-- The last thing of a kind that some settings set. -/
def last? (take : Setting → Option β) (settings : List Setting) : Option β :=
  (settings.filterMap take).getLast?

theorem last?_concat (take : Setting → Option β) (settings : List Setting) (setting : Setting) :
    last? take (settings ++ [setting]) = (take setting).or (last? take settings) := by
  unfold last?
  rw [List.filterMap_append, List.getLast?_append]
  cases htake : take setting <;> simp [htake]

theorem exists_of_last? {settings : List Setting} {b : β} (h : last? take settings = some b) :
    ∃ setting ∈ settings, take setting = some b :=
  List.mem_filterMap.1 (List.mem_of_getLast? h)

theorem last?_eq_none_iff {settings : List Setting} :
    last? take settings = none ↔ ∀ setting ∈ settings, take setting = none := by
  unfold last?
  rw [List.getLast?_eq_none_iff, List.filterMap_eq_nil_iff]

/-- Settings of one key are one setting. -/
def KeysDistinct (settings : List Setting) : Prop :=
  ∀ a ∈ settings, ∀ b ∈ settings, a.key = b.key → a = b

variable {key : String}

/-- Where nothing is set twice the order does not matter. -/
theorem last?_eq_some_iff (hkey : ∀ setting b, take setting = some b → setting.key = key)
    {settings : List Setting} (hdistinct : KeysDistinct settings) {b : β} :
    last? take settings = some b ↔ ∃ setting ∈ settings, take setting = some b := by
  constructor
  · exact exists_of_last?
  · rintro ⟨setting, hmem, htake⟩
    cases hlast : last? take settings with
    | none =>
      rw [last?_eq_none_iff.1 hlast setting hmem] at htake
      cases htake
    | some c =>
      obtain ⟨other, hother, hc⟩ := exists_of_last? hlast
      have heq := hdistinct other hother setting hmem
        ((hkey other c hc).trans (hkey setting b htake).symm)
      rw [← hc, ← htake, heq]

theorem last?_congr (hkey : ∀ setting b, take setting = some b → setting.key = key)
    {settings others : List Setting} (hdistinct : KeysDistinct settings)
    (hmem : ∀ setting, setting ∈ settings ↔ setting ∈ others) :
    last? take settings = last? take others := by
  have hdistinct' : KeysDistinct others := fun a ha b hb =>
    hdistinct a ((hmem a).2 ha) b ((hmem b).2 hb)
  refine Option.ext fun b => ?_
  rw [last?_eq_some_iff hkey hdistinct, last?_eq_some_iff hkey hdistinct']
  simp only [hmem]

end

/-- The vocabulary that some settings put in force. -/
def vocabulary (settings : List Setting) : List String :=
  (last? labels? settings).getD standardLabels

/-- The last setting of each key is the same in both runs, whatever is taken of it. -/
def SameLast (settings others : List Setting) : Prop :=
  ∀ {β : Type} {take : Setting → Option β} {key : String},
    (∀ setting b, take setting = some b → setting.key = key) →
      last? take settings = last? take others

theorem sameLast_of_keysDistinct {settings others : List Setting}
    (hdistinct : KeysDistinct settings) (hmem : ∀ setting, setting ∈ settings ↔ setting ∈ others) :
    SameLast settings others :=
  fun hkey => last?_congr hkey hdistinct hmem

end Setting

/-! ## The cost that is left -/

namespace Setting

/-- Whether the cost of a name outlasts a setting that is not its own. -/
def keepsCost (name : String) : Setting → Bool
  | .labels names => names.contains name
  | _ => true

/-- The settings after the last cost of a name, all of them where it has none. -/
def sinceCost (name : String) (settings : List Setting) : List Setting :=
  settings.rtakeWhile fun setting => (setting.cost? name).isNone

/-- The last cost of a name, or the standard one, if each vocabulary since then lists the name. -/
def costLeft? (name : String) (settings : List Setting) : Option Number :=
  if (sinceCost name settings).all (keepsCost name) then
    (last? (cost? name) settings).or (PolicyDraft.standard.cost? name)
  else none

variable {name : String} {setting : Setting} {settings : List Setting}

theorem sinceCost_concat_of_some {cost : Number} (h : setting.cost? name = some cost)
    (settings : List Setting) : sinceCost name (settings ++ [setting]) = [] := by
  simp [sinceCost, h]

theorem sinceCost_concat_of_none (h : setting.cost? name = none) (settings : List Setting) :
    sinceCost name (settings ++ [setting]) = sinceCost name settings ++ [setting] := by
  simp [sinceCost, h]

theorem costLeft?_concat (name : String) (settings : List Setting) (setting : Setting) :
    costLeft? name (settings ++ [setting]) = (setting.cost? name).or
      (if setting.keepsCost name then costLeft? name settings else none) := by
  unfold costLeft?
  rw [last?_concat]
  cases h : setting.cost? name with
  | some cost => simp [sinceCost_concat_of_some h]
  | none =>
    rw [sinceCost_concat_of_none h, List.all_append]
    by_cases hkeeps : setting.keepsCost name <;> simp [hkeeps]

end Setting

/-! ## Drafts -/

namespace PolicyDraft

/-- What some settings leave of the standard draft. -/
structure Leaves (settings : List Setting) (draft : PolicyDraft) : Prop where
  labels : draft.labels = (Setting.last? Setting.labels? settings).getD standardLabels
  defaultLabel? : draft.defaultLabel? = Setting.last? Setting.defaultLabel? settings
  cost? : ∀ name, draft.cost? name = Setting.costLeft? name settings
  riskField : draft.riskField = (Setting.last? Setting.riskField? settings).getD standardRiskField
  segmentField : draft.segmentField =
    (Setting.last? Setting.segmentField? settings).getD standardSegmentField
  threshold : draft.threshold =
    (Setting.last? Setting.threshold? settings).getD (.finite standardThreshold)
  extras : ∀ key, draft.extras[key]? = Setting.last? (Setting.extra? key) settings

theorem leaves_standard : Leaves [] standard where
  labels := rfl
  defaultLabel? := rfl
  cost? := fun _ => rfl
  riskField := rfl
  segmentField := rfl
  threshold := rfl
  extras := fun _ => Std.ExtTreeMap.getElem?_empty

theorem cost?_apply_eq (draft : PolicyDraft) (setting : Setting) (name : String) :
    (draft.apply setting).cost? name = (setting.cost? name).or
      (if setting.keepsCost name then draft.cost? name else none) := by
  rw [cost?_apply]
  cases setting with
  | labels names => simp [Setting.cost?, Setting.keepsCost]
  | cost other cost => by_cases h : name = other <;> simp [Setting.cost?, Setting.keepsCost, h]
  | _ => rfl

theorem extras_apply (draft : PolicyDraft) (setting : Setting) (key : String) :
    (draft.apply setting).extras[key]? = (setting.extra? key).or draft.extras[key]? := by
  unfold apply Setting.extra?
  cases setting with
  | extra other value =>
    by_cases h : other = key
    · simp [h]
    · simp [Std.ExtTreeMap.getElem?_insert, h, Ne.symm h]
  | _ => rfl

theorem Leaves.concat {settings : List Setting} {draft : PolicyDraft}
    (h : draft.Leaves settings) (setting : Setting) :
    (draft.apply setting).Leaves (settings ++ [setting]) := by
  constructor
  case labels =>
    rw [Setting.last?_concat, Option.getD_or, ← h.labels]
    cases setting <;> rfl
  case defaultLabel? =>
    rw [Setting.last?_concat, ← h.defaultLabel?]
    cases setting <;> rfl
  case cost? =>
    intro name
    rw [cost?_apply_eq, h.cost?, Setting.costLeft?_concat]
  case riskField =>
    rw [Setting.last?_concat, Option.getD_or, ← h.riskField]
    cases setting <;> rfl
  case segmentField =>
    rw [Setting.last?_concat, Option.getD_or, ← h.segmentField]
    cases setting <;> rfl
  case threshold =>
    rw [Setting.last?_concat, Option.getD_or, ← h.threshold]
    cases setting <;> rfl
  case extras =>
    intro key
    rw [extras_apply, h.extras, Setting.last?_concat]

theorem leaves_ofSettings (settings : List Setting) : (ofSettings settings).Leaves settings := by
  induction settings using List.reverseRec with
  | nil => exact leaves_standard
  | append_singleton settings setting ih =>
    rw [ofSettings_concat]
    exact ih.concat setting

end PolicyDraft

/-! ## Runs with the vocabulary in front -/

/-- The vocabulary stands in front, if there is one at all. -/
def LabelsFirst (settings : List Setting) : Prop :=
  ∀ setting ∈ settings.tail, setting.labels? = none

namespace Setting

theorem keepsCost_of_labels? {setting : Setting} (h : setting.labels? = none) (name : String) :
    setting.keepsCost name := by
  cases setting with
  | labels names => cases h
  | _ => rfl

theorem costLeft?_nil (name : String) : costLeft? name [] = PolicyDraft.standard.cost? name := rfl

theorem standard_cost?_of_mem (name : String) :
    (if name ∈ standardLabels then PolicyDraft.standard.cost? name else none) =
      PolicyDraft.standard.cost? name := by
  have hvalid := PolicyDraft.valid_of_build PolicyDraft.costsDistinct_standard build_standard
  split
  · rfl
  · rename_i hname
    rw [eq_comm, Option.eq_none_iff_forall_ne_some]
    intro cost hcost
    exact hname (hvalid.cost_mem name cost hcost)

/-- With the vocabulary in front only a standard cost can be dropped. -/
theorem costLeft?_of_labelsFirst {settings : List Setting} (hfirst : LabelsFirst settings)
    (name : String) : costLeft? name settings = (last? (cost? name) settings).or
      (if name ∈ (last? labels? settings).getD standardLabels then
        PolicyDraft.standard.cost? name else none) := by
  unfold LabelsFirst at hfirst
  -- A setting at the end is a vocabulary only if it stands alone, before any cost is set.
  induction settings using List.reverseRec with
  | nil => exact (standard_cost?_of_mem name).symm
  | append_singleton settings setting ih =>
    rw [costLeft?_concat, last?_concat, last?_concat]
    cases settings with
    | nil =>
      cases setting with
      | labels names => simp [last?, labels?, cost?, keepsCost, costLeft?_nil]
      | _ => simp [last?, labels?, keepsCost, costLeft?_nil, standard_cost?_of_mem]
    | cons front settings =>
      have hlabels : setting.labels? = none := hfirst setting (by simp)
      have hrest := ih fun other hother => hfirst other (by simp_all)
      rw [if_pos (keepsCost_of_labels? hlabels name), hrest, hlabels, Option.none_or,
        Option.or_assoc]

end Setting

namespace PolicyDraft

/-- Behind the vocabulary only the last setting of each key matters. -/
theorem Leaves.congr {settings others : List Setting} {draft : PolicyDraft}
    (h : draft.Leaves settings) (hsame : Setting.SameLast settings others)
    (hfirst : LabelsFirst settings) (hfirst' : LabelsFirst others) : draft.Leaves others := by
  have hlabels := hsame Setting.key_of_labels?
  constructor
  case labels => rw [h.labels, hlabels]
  case defaultLabel? => rw [h.defaultLabel?, hsame Setting.key_of_defaultLabel?]
  case cost? =>
    intro name
    rw [h.cost?, Setting.costLeft?_of_labelsFirst hfirst, Setting.costLeft?_of_labelsFirst hfirst',
      hlabels, hsame (Setting.key_of_cost? name)]
  case riskField => rw [h.riskField, hsame Setting.key_of_riskField?]
  case segmentField => rw [h.segmentField, hsame Setting.key_of_segmentField?]
  case threshold => rw [h.threshold, hsame Setting.key_of_threshold?]
  case extras =>
    intro key
    rw [h.extras, hsame (Setting.key_of_extra? key)]

/-- Drafts that the same settings can leave differ in nothing but the order of their costs. -/
theorem build_of_leaves {settings : List Setting} {a b : PolicyDraft} {policy : Policy}
    (ha : a.Leaves settings) (hb : b.Leaves settings) (hdistinct : a.CostsDistinct)
    (hdistinct' : b.CostsDistinct) (h : a.build = .ok policy) : b.build = .ok policy := by
  -- The list of costs is all that the settings leave open.
  obtain ⟨costs, rfl⟩ : ∃ costs, b = { a with costs := costs } := by
    refine ⟨b.costs, ?_⟩
    have hextras : b.extras = a.extras :=
      Std.ExtTreeMap.ext_getElem? fun key => (hb.extras key).trans (ha.extras key).symm
    cases a
    cases b
    simp only [PolicyDraft.mk.injEq, true_and]
    exact ⟨hb.labels.trans ha.labels.symm, hb.defaultLabel?.trans ha.defaultLabel?.symm,
      hb.riskField.trans ha.riskField.symm, hb.segmentField.trans ha.segmentField.symm,
      hb.threshold.trans ha.threshold.symm, hextras⟩
  have hcost : ∀ name, cost? { a with costs := costs } name = a.cost? name :=
    fun name => (hb.cost? name).trans (ha.cost? name).symm
  obtain ⟨hvalid, hgives⟩ := (build_eq_ok_iff hdistinct).1 h
  refine (build_eq_ok_iff hdistinct').2 ⟨{ hvalid with cost_mem := ?_, cost_finite := ?_ },
    { hgives with cost := ?_ }⟩
  · intro name cost hset
    exact hvalid.cost_mem name cost ((hcost name).symm.trans hset)
  · intro name cost hset
    exact hvalid.cost_finite name cost ((hcost name).symm.trans hset)
  · intro name
    rw [hcost, hgives.cost]

end PolicyDraft

theorem ofSettings_of_sameLast {settings others : List Setting} {policy : Policy}
    (hsame : Setting.SameLast settings others) (hfirst : LabelsFirst settings)
    (hfirst' : LabelsFirst others) (h : Policy.ofSettings settings = .ok policy) :
    Policy.ofSettings others = .ok policy := by
  have hleaves := PolicyDraft.leaves_ofSettings settings
  exact PolicyDraft.build_of_leaves (hleaves.congr hsame hfirst hfirst')
    (PolicyDraft.leaves_ofSettings others) (PolicyDraft.costsDistinct_ofSettings settings)
    (PolicyDraft.costsDistinct_ofSettings others) h

/-- Runs of the same settings, each vocabulary in front, build the same policy. -/
theorem ofSettings_congr {settings others : List Setting} {policy : Policy}
    (hdistinct : Setting.KeysDistinct settings)
    (hmem : ∀ setting, setting ∈ settings ↔ setting ∈ others) (hfirst : LabelsFirst settings)
    (hfirst' : LabelsFirst others) (h : Policy.ofSettings settings = .ok policy) :
    Policy.ofSettings others = .ok policy :=
  ofSettings_of_sameLast (Setting.sameLast_of_keysDistinct hdistinct hmem) hfirst hfirst' h

end Retention
