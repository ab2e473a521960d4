import Mathlib.Data.List.Nodup
import Retention.Proofs.Policy.History

/-!
# What the entries of a policy set

Where no key stands twice each entry sets what it says alone, under the vocabulary in force.
-/

namespace Retention

namespace PolicyEntry

/-! ## Looking up a key -/

theorem lookup?_eq_some_iff {entries : List PolicyEntry} (hnodup : (entries.map key).Nodup)
    {k v : String} : lookup? entries k = some v ↔ ⟨k, v⟩ ∈ entries := by
  unfold lookup?
  rw [Option.map_eq_some_iff]
  constructor
  · rintro ⟨entry, hfind, rfl⟩
    have hkey := List.find?_some hfind
    rw [beq_iff_eq] at hkey
    rw [← hkey]
    exact List.mem_reverse.1 (List.mem_of_find?_eq_some hfind)
  · intro hmem
    cases hfind : entries.reverse.find? (·.key == k) with
    | none =>
      have hne := List.find?_eq_none.1 hfind _ (List.mem_reverse.2 hmem)
      exact absurd (beq_self_eq_true k) hne
    | some entry =>
      have hkey := List.find?_some hfind
      rw [beq_iff_eq] at hkey
      have hentry := List.mem_reverse.1 (List.mem_of_find?_eq_some hfind)
      have heq := List.inj_on_of_nodup_map hnodup hentry hmem hkey
      exact ⟨entry, rfl, congrArg value heq⟩

theorem lookup?_eq_none_iff {entries : List PolicyEntry} {k : String} :
    lookup? entries k = none ↔ ∀ entry ∈ entries, entry.key ≠ k := by
  unfold lookup?
  simp

/-- The values that entries give a key, in their order. -/
def valuesOf (entries : List PolicyEntry) (k : String) : List String :=
  (entries.filter (·.key == k)).map value

theorem valuesOf_eq_nil_iff {entries : List PolicyEntry} {k : String} :
    valuesOf entries k = [] ↔ ∀ entry ∈ entries, entry.key ≠ k := by
  simp [valuesOf]

theorem lookup?_eq_getLast? (entries : List PolicyEntry) (k : String) :
    lookup? entries k = (valuesOf entries k).getLast? := by
  unfold lookup? valuesOf
  rw [List.getLast?_map, List.getLast?_eq_head?_reverse, ← List.filter_reverse, List.head?_filter]

theorem valuesOf_cons (entry : PolicyEntry) (entries : List PolicyEntry) (k : String) :
    valuesOf (entry :: entries) k =
      if entry.key = k then entry.value :: valuesOf entries k else valuesOf entries k := by
  unfold valuesOf
  by_cases h : entry.key = k <;> simp [h]

/-- Of a list made of parts, one for each entry, the values of a key give what is taken of its
entries only. -/
theorem filterMap_flatMap_of_key {α β : Type} {take : α → Option β} {part : PolicyEntry → List α}
    {k : String} (h : ∀ entry, entry.key ≠ k → (part entry).filterMap take = [])
    (entries : List PolicyEntry) : (entries.flatMap part).filterMap take =
      (valuesOf entries k).flatMap fun v => (part ⟨k, v⟩).filterMap take := by
  induction entries with
  | nil => rfl
  | cons entry rest ih =>
    rw [List.flatMap_cons, List.filterMap_append, ih, valuesOf_cons]
    by_cases hkey : entry.key = k
    · subst hkey
      simp
    · simp [hkey, h entry hkey]

/-! ## One entry -/

/-- What an entry sets under a vocabulary if it is the only one of its key. -/
def said? (labels : List String) (entry : PolicyEntry) : Option Setting :=
  match costLabel? entry.key with
  | some name =>
    (finiteOfText? entry.value).bind fun x =>
      if name ∈ labels ∧ Quantity.zero ≤ x then some (.cost name (.finite x)) else none
  | none =>
    if entry.key = "LABELS" then (vocabularyOfText? entry.value).map .labels
    else if entry.key = "DEFAULT_LABEL" then
      if entry.value ∈ labels then some (.defaultLabel entry.value) else none
    else if entry.key = "HIGH_RISK_THRESHOLD" then
      (finiteOfText? entry.value).map fun x => .threshold (.finite x)
    else if entry.key = "RISK_FIELD" then
      if isFieldName entry.value.toList then some (.riskField entry.value) else none
    else if entry.key = "SEGMENT_FIELD" then
      if isFieldName entry.value.toList then some (.segmentField entry.value) else none
    else some (.extra entry.key entry.value)

theorem costLabel?_append (name : String) : costLabel? ("COST_" ++ name) = some name := by
  have hdrop : ("COST_" ++ name).toList.drop 5 = name.toList := by
    rw [String.toList_append]
    exact List.drop_left' (by decide)
  have hprefix : "COST_".toList.isPrefixOf ("COST_" ++ name).toList := by
    rw [String.toList_append, List.isPrefixOf_iff_prefix]
    exact List.prefix_append _ _
  unfold costLabel?
  rw [if_pos hprefix, hdrop, String.ofList_toList]

theorem eq_append_of_costLabel? {k name : String} (h : costLabel? k = some name) :
    k = "COST_" ++ name := by
  unfold costLabel? at h
  split at h
  · rename_i hprefix
    obtain ⟨rest, hrest⟩ := List.isPrefixOf_iff_prefix.1 hprefix
    have hdrop : k.toList.drop 5 = rest := by
      rw [← hrest]
      exact List.drop_left' (by decide)
    rw [Option.some.injEq, hdrop] at h
    have hname : name.toList = rest := by rw [← h, String.toList_ofList]
    rw [← String.toList_inj, String.toList_append, hname, hrest]
  · cases h

/-- What an entry of each key says under a vocabulary. -/
inductive Means (labels : List String) : PolicyEntry → Setting → Prop
  | labels {text : String} {names : List String} : vocabularyOfText? text = some names →
    Means labels ⟨"LABELS", text⟩ (.labels names)
  | defaultLabel {name : String} : name ∈ labels →
    Means labels ⟨"DEFAULT_LABEL", name⟩ (.defaultLabel name)
  | cost {name text : String} {x : Quantity} : finiteOfText? text = some x → name ∈ labels →
    Quantity.zero ≤ x → Means labels ⟨"COST_" ++ name, text⟩ (.cost name (.finite x))
  | threshold {text : String} {x : Quantity} : finiteOfText? text = some x →
    Means labels ⟨"HIGH_RISK_THRESHOLD", text⟩ (.threshold (.finite x))
  | riskField {name : String} : isFieldName name.toList →
    Means labels ⟨"RISK_FIELD", name⟩ (.riskField name)
  | segmentField {name : String} : isFieldName name.toList →
    Means labels ⟨"SEGMENT_FIELD", name⟩ (.segmentField name)
  | extra {k text : String} : costLabel? k = none → k ∉ settingKeys →
    Means labels ⟨k, text⟩ (.extra k text)

theorem means_of_said? {labels : List String} {entry : PolicyEntry} {setting : Setting}
    (h : said? labels entry = some setting) : Means labels entry setting := by
  obtain ⟨k, v⟩ := entry
  unfold said? at h
  cases hcost : costLabel? k with
  | some name =>
    simp only [hcost, Option.bind_eq_some_iff] at h
    obtain ⟨x, hx, hset⟩ := h
    rw [eq_append_of_costLabel? hcost]
    split at hset
    · rename_i husable
      cases hset
      exact .cost hx husable.1 husable.2
    · cases hset
  | none =>
    simp only [hcost] at h
    split_ifs at h with hlabels hdefault hname hthreshold hrisk hname hsegment hname
    · obtain ⟨names, hnames, rfl⟩ := Option.map_eq_some_iff.1 h
      exact hlabels ▸ .labels hnames
    · cases h
      exact hdefault ▸ .defaultLabel hname
    · obtain ⟨x, hx, rfl⟩ := Option.map_eq_some_iff.1 h
      exact hthreshold ▸ .threshold hx
    · cases h
      exact hrisk ▸ .riskField hname
    · cases h
      exact hsegment ▸ .segmentField hname
    · cases h
      exact .extra hcost (by simp [settingKeys, *])

theorem said?_eq_some_iff {labels : List String} {entry : PolicyEntry} {setting : Setting} :
    said? labels entry = some setting ↔ Means labels entry setting := by
  refine ⟨means_of_said?, fun h => ?_⟩
  have hlabels : costLabel? "LABELS" = none := by decide
  have hdefault : costLabel? "DEFAULT_LABEL" = none := by decide
  have hthreshold : costLabel? "HIGH_RISK_THRESHOLD" = none := by decide
  have hrisk : costLabel? "RISK_FIELD" = none := by decide
  have hsegment : costLabel? "SEGMENT_FIELD" = none := by decide
  unfold said?
  cases h with
  | labels hnames => simp [hlabels, hnames]
  | defaultLabel hname => simp [hdefault, hname]
  | cost hx hname hpos => simp [costLabel?_append, hx, hname, hpos]
  | threshold hx => simp [hthreshold, hx]
  | riskField hname => simp [hrisk, hname]
  | segmentField hname => simp [hsegment, hname]
  | extra hcost hkey =>
    simp only [settingKeys, List.mem_cons, List.not_mem_nil, or_false, not_or] at hkey
    simp [hcost, hkey]

theorem said?_eq_labels_iff {labels names : List String} {entry : PolicyEntry} :
    said? labels entry = some (.labels names) ↔
      entry.key = "LABELS" ∧ vocabularyOfText? entry.value = some names := by
  rw [said?_eq_some_iff]
  constructor
  · rintro ⟨hnames⟩
    exact ⟨rfl, hnames⟩
  · obtain ⟨k, v⟩ := entry
    rintro ⟨rfl, hnames⟩
    exact .labels hnames

/-- What an entry sets has the key of the entry. -/
theorem Means.key_eq {labels : List String} {entry : PolicyEntry} {setting : Setting}
    (h : Means labels entry setting) : setting.key = entry.key := by
  cases h <;> rfl

/-! ## The key of the threshold -/

/-- An entry of a key as one that gives the threshold. -/
def asThreshold (k : String) (entry : PolicyEntry) : PolicyEntry :=
  if entry.key = k then ⟨"HIGH_RISK_THRESHOLD", entry.value⟩ else entry

theorem value_asThreshold (k : String) (entry : PolicyEntry) :
    (asThreshold k entry).value = entry.value := by
  unfold asThreshold
  split <;> rfl

/-- The entries, with the key that gives the threshold under its first name. -/
def resolved (entries : List PolicyEntry) : List PolicyEntry :=
  entries.map (asThreshold (thresholdKey entries))

section

variable {entries : List PolicyEntry}

theorem thresholdKey_cases (entries : List PolicyEntry) :
    thresholdKey entries = "HIGH_RISK_THRESHOLD" ∨ thresholdKey entries = "MED_THRESHOLD" ∧
      ∀ entry ∈ entries, entry.key ≠ "HIGH_RISK_THRESHOLD" := by
  unfold thresholdKey
  cases h : lookup? entries "HIGH_RISK_THRESHOLD" with
  | none => exact .inr ⟨rfl, lookup?_eq_none_iff.1 h⟩
  | some v => exact .inl rfl

theorem resolved_of_absent (hmed : ∀ entry ∈ entries, entry.key ≠ "MED_THRESHOLD") :
    resolved entries = entries := by
  refine (List.map_congr_left fun entry hentry => ?_).trans (List.map_id entries)
  unfold asThreshold
  split
  · rename_i hkey
    rcases thresholdKey_cases entries with h | ⟨h, -⟩
    · rw [← h, ← hkey]
      rfl
    · exact absurd (hkey.trans h) (hmed entry hentry)
  · rfl

theorem key_asThreshold_eq_iff {entry : PolicyEntry} (hentry : entry ∈ entries) (k : String) :
    (asThreshold (thresholdKey entries) entry).key = k ↔
      if k = "HIGH_RISK_THRESHOLD" then entry.key = thresholdKey entries
      else k ≠ thresholdKey entries ∧ entry.key = k := by
  unfold asThreshold
  rcases thresholdKey_cases entries with h | ⟨h, habsent⟩
  · grind
  · have hne := habsent entry hentry
    grind

/-- The values of the threshold stand under its first name, and those of other keys stay. -/
theorem valuesOf_resolved (entries : List PolicyEntry) (k : String) :
    valuesOf (resolved entries) k =
      if k = "HIGH_RISK_THRESHOLD" then valuesOf entries (thresholdKey entries)
      else if k = thresholdKey entries then [] else valuesOf entries k := by
  have hfilter : valuesOf (resolved entries) k = (entries.filter fun entry =>
      decide (if k = "HIGH_RISK_THRESHOLD" then entry.key = thresholdKey entries
        else k ≠ thresholdKey entries ∧ entry.key = k)).map value := by
    unfold valuesOf resolved
    rw [List.filter_map, List.map_map]
    refine (List.map_congr_left fun entry _ => value_asThreshold _ entry).trans ?_
    congr 1
    refine List.filter_congr fun entry hentry => ?_
    rw [Function.comp_apply, beq_eq_decide, decide_eq_decide]
    exact key_asThreshold_eq_iff hentry k
  rw [hfilter]
  unfold valuesOf
  split
  · simp [beq_eq_decide]
  · split
    · simp [*]
    · simp [*, beq_eq_decide]

theorem lookup?_resolved_threshold (entries : List PolicyEntry) :
    lookup? (resolved entries) "HIGH_RISK_THRESHOLD" =
      lookup? entries (thresholdKey entries) := by
  rw [lookup?_eq_getLast?, lookup?_eq_getLast?, valuesOf_resolved, if_pos rfl]

theorem lookup?_resolved {k : String} (h : k ≠ "HIGH_RISK_THRESHOLD") (h' : k ≠ "MED_THRESHOLD") :
    lookup? (resolved entries) k = lookup? entries k := by
  have hne : k ≠ thresholdKey entries := by
    rcases thresholdKey_cases entries with heq | ⟨heq, -⟩ <;> rwa [heq]
  rw [lookup?_eq_getLast?, lookup?_eq_getLast?, valuesOf_resolved, if_neg h, if_neg hne]

theorem vocabulary_resolved (entries : List PolicyEntry) :
    vocabulary (resolved entries) = vocabulary entries := by
  unfold vocabulary
  rw [lookup?_resolved (by decide) (by decide)]

end

/-! ## All entries -/

/-- What the value of a key sets that means a setting of its own. -/
def ownSettings (entries : List PolicyEntry) (k : String) : List Setting :=
  ((lookup? entries k).bind fun v => said? (vocabulary entries) ⟨k, v⟩).toList

/-- What an entry sets whose key means no setting of its own. -/
def restSettings (labels : List String) (entry : PolicyEntry) : List Setting :=
  if entry.key ∈ settingKeys then [] else (said? labels entry).toList

variable {entries : List PolicyEntry}

theorem labelSettings_eq : labelSettings entries = ownSettings (resolved entries) "LABELS" := by
  have hcost : costLabel? "LABELS" = none := by decide
  unfold labelSettings ownSettings said?
  rw [lookup?_resolved (by decide) (by decide)]
  cases lookup? entries "LABELS" <;> simp [hcost]

theorem defaultSettings_eq :
    defaultSettings entries = ownSettings (resolved entries) "DEFAULT_LABEL" := by
  have hcost : costLabel? "DEFAULT_LABEL" = none := by decide
  unfold defaultSettings ownSettings said?
  rw [lookup?_resolved (by decide) (by decide), vocabulary_resolved]
  cases lookup? entries "DEFAULT_LABEL" with
  | none => rfl
  | some name => by_cases h : name ∈ vocabulary entries <;> simp [hcost, h]

theorem thresholdSettings_eq :
    thresholdSettings entries = ownSettings (resolved entries) "HIGH_RISK_THRESHOLD" := by
  have hcost : costLabel? "HIGH_RISK_THRESHOLD" = none := by decide
  unfold thresholdSettings ownSettings said?
  rw [lookup?_resolved_threshold]
  cases lookup? entries (thresholdKey entries) with
  | none => rfl
  | some v => cases hv : finiteOfText? v <;> simp [hcost, hv]

theorem fieldSettings_eq {k : String} {set : String → Setting} (h : k ≠ "HIGH_RISK_THRESHOLD")
    (h' : k ≠ "MED_THRESHOLD") (hsaid : ∀ v, said? (vocabulary entries) ⟨k, v⟩ =
      if isFieldName v.toList then some (set v) else none) :
    fieldSettings entries k set = ownSettings (resolved entries) k := by
  unfold fieldSettings ownSettings
  rw [lookup?_resolved h h', vocabulary_resolved]
  cases lookup? entries k with
  | none => rfl
  | some v => by_cases h : isFieldName v.toList <;> simp [hsaid, h]

theorem otherSettings_eq (entry : PolicyEntry) : otherSettings entries entry =
    restSettings (vocabulary entries) (asThreshold (thresholdKey entries) entry) := by
  unfold otherSettings asThreshold restSettings
  by_cases hthreshold : entry.key = thresholdKey entries
  · have hmem : "HIGH_RISK_THRESHOLD" ∈ settingKeys := by decide
    simp [hthreshold, hmem]
  · rw [if_neg hthreshold]
    by_cases hkey : entry.key ∈ settingKeys
    · simp [hkey]
    · have hkeys := hkey
      simp only [settingKeys, List.mem_cons, List.not_mem_nil, or_false, not_or] at hkeys
      unfold said? costSettings
      cases costLabel? entry.key with
      | none => simp [hkey, hthreshold, hkeys]
      | some name =>
        cases finiteOfText? entry.value with
        | none => simp [hkey, hthreshold]
        | some x =>
          by_cases h : name ∈ vocabulary entries ∧ Quantity.zero ≤ x <;>
            simp [hkey, hthreshold, h]

/-- Each key of its own gives one setting, and the other entries give theirs in their order. -/
theorem settings_eq (entries : List PolicyEntry) :
    settings entries = settingKeys.flatMap (ownSettings (resolved entries)) ++
      (resolved entries).flatMap (restSettings (vocabulary entries)) := by
  have hothers : entries.flatMap (otherSettings entries) =
      (resolved entries).flatMap (restSettings (vocabulary entries)) := by
    unfold resolved
    rw [List.flatMap_map]
    exact List.flatMap_congr fun entry _ => otherSettings_eq entry
  have hrisk : costLabel? "RISK_FIELD" = none := by decide
  have hsegment : costLabel? "SEGMENT_FIELD" = none := by decide
  -- The keys are listed in the order in which their settings are applied.
  have hown : settingKeys.flatMap (ownSettings (resolved entries)) =
      ownSettings (resolved entries) "LABELS" ++
      ownSettings (resolved entries) "DEFAULT_LABEL" ++
      ownSettings (resolved entries) "HIGH_RISK_THRESHOLD" ++
      ownSettings (resolved entries) "RISK_FIELD" ++
      ownSettings (resolved entries) "SEGMENT_FIELD" := by
    simp [settingKeys]
  unfold settings
  rw [hothers, hown, labelSettings_eq, defaultSettings_eq, thresholdSettings_eq,
    fieldSettings_eq (by decide) (by decide), fieldSettings_eq (by decide) (by decide)]
  · intro v
    simp [said?, hsegment]
  · intro v
    simp [said?, hrisk]

theorem mem_settings_iff (hnodup : (entries.map key).Nodup)
    (hmed : ∀ entry ∈ entries, entry.key ≠ "MED_THRESHOLD") {setting : Setting} :
    setting ∈ settings entries ↔ setting ∈ entries.filterMap (said? (vocabulary entries)) := by
  have hown : ∀ k, setting ∈ ownSettings entries k ↔
      ∃ v, ⟨k, v⟩ ∈ entries ∧ said? (vocabulary entries) ⟨k, v⟩ = some setting := by
    intro k
    unfold ownSettings
    rw [Option.mem_toList, Option.bind_eq_some_iff]
    simp only [lookup?_eq_some_iff hnodup]
  rw [settings_eq, resolved_of_absent hmed, List.mem_append, List.mem_flatMap, List.mem_flatMap,
    List.mem_filterMap]
  constructor
  · rintro (⟨k, -, hk⟩ | ⟨entry, hentry, hsaid⟩)
    · obtain ⟨v, hmem, hsaid⟩ := (hown k).1 hk
      exact ⟨⟨k, v⟩, hmem, hsaid⟩
    · unfold restSettings at hsaid
      split at hsaid
      · cases hsaid
      · exact ⟨entry, hentry, Option.mem_toList.1 hsaid⟩
  · rintro ⟨entry, hentry, hsaid⟩
    by_cases hkey : entry.key ∈ settingKeys
    · exact .inl ⟨entry.key, hkey, (hown entry.key).2 ⟨entry.value, hentry, hsaid⟩⟩
    · refine .inr ⟨entry, hentry, ?_⟩
      unfold restSettings
      rw [if_neg hkey]
      exact Option.mem_toList.2 hsaid

/-- The settings behind those of the vocabulary. -/
def laterSettings (entries : List PolicyEntry) : List Setting :=
  defaultSettings entries ++ thresholdSettings entries ++
    fieldSettings entries "RISK_FIELD" .riskField ++
    fieldSettings entries "SEGMENT_FIELD" .segmentField ++ entries.flatMap (otherSettings entries)

theorem settings_eq_append (entries : List PolicyEntry) :
    settings entries = labelSettings entries ++ laterSettings entries := by
  simp [settings, laterSettings]

theorem labels?_of_mem_laterSettings {setting : Setting} (h : setting ∈ laterSettings entries) :
    setting.labels? = none := by
  simp only [laterSettings, List.mem_append] at h
  rcases h with (((h | h) | h) | h) | h
  · unfold defaultSettings at h
    grind [Setting.labels?]
  · unfold thresholdSettings at h
    grind [Setting.labels?]
  · unfold fieldSettings at h
    grind [Setting.labels?]
  · unfold fieldSettings at h
    grind [Setting.labels?]
  · unfold otherSettings costSettings at h
    grind [Setting.labels?]

theorem labelsFirst_settings (entries : List PolicyEntry) : LabelsFirst (settings entries) := by
  intro setting h
  rw [settings_eq_append] at h
  apply labels?_of_mem_laterSettings
  unfold labelSettings at h
  cases hlabels : (lookup? entries "LABELS").bind vocabularyOfText? with
  | none =>
    rw [hlabels] at h
    exact List.mem_of_mem_tail h
  | some names =>
    rw [hlabels] at h
    exact h

end PolicyEntry

end Retention
