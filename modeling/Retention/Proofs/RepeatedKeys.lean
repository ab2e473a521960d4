import Retention.Proofs.PolicyLines

/-!
# Keys that stand twice

Of the lines of one key the last one decides, so a line above it can be left out, and a last value
that cannot be used leaves the standard one. Costs differ: a cost that cannot be used leaves the
last usable cost above it in force.
-/

namespace Retention

namespace PolicyEntry

/-! ## Without an earlier entry -/

theorem valuesOf_append (before after : List PolicyEntry) (k : String) :
    valuesOf (before ++ after) k = valuesOf before k ++ valuesOf after k := by
  simp [valuesOf]

theorem valuesOf_ne_nil {entries : List PolicyEntry} {entry : PolicyEntry} (h : entry ∈ entries) :
    valuesOf entries entry.key ≠ [] :=
  List.ne_nil_of_mem (List.mem_map_of_mem (List.mem_filter.2 ⟨h, beq_self_eq_true entry.key⟩))

/-- The extra setting that an entry makes. Every value of such a key can be used. -/
theorem said?_bind_extra? (labels : List String) {k : String} (hk : k ∉ settingKeys) (v : String) :
    (said? labels ⟨k, v⟩).bind (Setting.extra? k) =
      if costLabel? k = none then some v else none := by
  split
  · rename_i hcost
    rw [said?_eq_some_iff.2 (.extra hcost hk), Option.bind_some]
    exact if_pos rfl
  · rename_i hcost
    rw [Option.bind_eq_none_iff]
    intro setting hsaid
    cases means_of_said? hsaid with
    | extra hnone _ => exact absurd hnone hcost
    | _ => rfl

section

variable {before after : List PolicyEntry} {entry later : PolicyEntry}

theorem lookup?_without (hlater : later ∈ after) (hkey : later.key = entry.key) (k : String) :
    lookup? (before ++ after) k = lookup? (before ++ entry :: after) k := by
  rw [lookup?_eq_getLast?, lookup?_eq_getLast?, valuesOf_append, valuesOf_append, valuesOf_cons]
  split
  · rename_i hk
    have hne := valuesOf_ne_nil hlater
    rw [hkey, hk] at hne
    rw [List.getLast?_append, List.getLast?_append, List.getLast?_cons,
      List.getLast?_eq_some_getLast hne]
    rfl
  · rfl

theorem vocabulary_without (hlater : later ∈ after) (hkey : later.key = entry.key) :
    vocabulary (before ++ after) = vocabulary (before ++ entry :: after) := by
  unfold vocabulary
  rw [lookup?_without hlater hkey]

theorem thresholdKey_without (hlater : later ∈ after) (hkey : later.key = entry.key) :
    thresholdKey (before ++ after) = thresholdKey (before ++ entry :: after) := by
  unfold thresholdKey
  rw [lookup?_without hlater hkey]

theorem lookup?_resolved_without (hlater : later ∈ after) (hkey : later.key = entry.key)
    (k : String) :
    lookup? (resolved (before ++ after)) k = lookup? (resolved (before ++ entry :: after)) k := by
  rw [lookup?_eq_getLast?, lookup?_eq_getLast?, valuesOf_resolved, valuesOf_resolved,
    thresholdKey_without hlater hkey]
  split
  · rw [← lookup?_eq_getLast?, ← lookup?_eq_getLast?, lookup?_without hlater hkey]
  · split
    · rfl
    · rw [← lookup?_eq_getLast?, ← lookup?_eq_getLast?, lookup?_without hlater hkey]

variable {β : Type} {take : Setting → Option β} {k : String}

/-- A key of its own is looked up, so only its last entry counts. -/
theorem last?_without_of_mem (hlater : later ∈ after) (hkey : later.key = entry.key)
    (htake : ∀ setting b, take setting = some b → setting.key = k) (hk : k ∈ settingKeys) :
    Setting.last? take (settings (before ++ after)) =
      Setting.last? take (settings (before ++ entry :: after)) := by
  rw [last?_settings htake, last?_settings htake, if_pos hk, if_pos hk,
    lookup?_resolved_without hlater hkey, vocabulary_without hlater hkey]

/-- Of any other key the last entry counts that gives what is taken, so an entry can be left out
if one below gives it or the entry does not. -/
theorem last?_without_of_notMem (hlater : later ∈ after) (hkey : later.key = entry.key)
    (htake : ∀ setting b, take setting = some b → setting.key = k) (hk : k ∉ settingKeys)
    (h : entry.key = k → (said? (vocabulary (before ++ entry :: after)) entry).bind take = none ∨
      ∃ next ∈ after, next.key = k ∧
        (said? (vocabulary (before ++ entry :: after)) next).bind take ≠ none) :
    Setting.last? take (settings (before ++ after)) =
      Setting.last? take (settings (before ++ entry :: after)) := by
  have hhigh : k ≠ "HIGH_RISK_THRESHOLD" := fun heq => hk (heq ▸ by decide)
  rw [last?_settings htake, last?_settings htake, if_neg hk, if_neg hk, valuesOf_resolved,
    valuesOf_resolved, if_neg hhigh, if_neg hhigh, thresholdKey_without hlater hkey,
    vocabulary_without hlater hkey]
  generalize vocabulary (before ++ entry :: after) = labels at h
  split
  · rfl
  · rw [valuesOf_append, valuesOf_append, valuesOf_cons]
    split
    · rename_i heq
      subst heq
      rw [List.filterMap_append, List.filterMap_append, List.filterMap_cons, List.getLast?_append]
      rcases h rfl with hnone | ⟨next, hnext, hsame, hgives⟩
      · rw [hnone, List.getLast?_append]
      · have hne : (valuesOf after entry.key).filterMap
            (fun v => (said? labels ⟨entry.key, v⟩).bind take) ≠ [] := by
          obtain ⟨b, hb⟩ := Option.ne_none_iff_exists'.1 hgives
          refine List.ne_nil_of_mem (a := b) (List.mem_filterMap.2 ⟨next.value, ?_, ?_⟩)
          · exact List.mem_map_of_mem (List.mem_filter.2 ⟨hnext, beq_iff_eq.2 hsame⟩)
          · rw [← hsame]
            exact hb
        cases (said? labels entry).bind take with
        | none => rw [List.getLast?_append]
        | some b =>
          rw [List.getLast?_append, List.getLast?_cons, List.getLast?_eq_some_getLast hne]
          rfl
    · rfl

end

/-! ## Costs -/

/-- Whether some entry of a key can be used. -/
def HasUsable (labels : List String) (entries : List PolicyEntry) (k : String) : Prop :=
  ∃ entry ∈ entries, entry.key = k ∧ ∃ setting, Means labels entry setting

theorem costKey_notMem (name : String) : "COST_" ++ name ∉ settingKeys := by
  intro hmem
  have hnone := costLabel?_of_mem_settingKeys _ hmem
  rw [costLabel?_append] at hnone
  cases hnone

theorem Means.costLabel? {labels : List String} {entry : PolicyEntry} {name : String}
    {value : Number} (h : Means labels entry (.cost name value)) :
    PolicyEntry.costLabel? entry.key = some name := by
  cases h
  exact costLabel?_append name

theorem Means.eq_cost {labels : List String} {entry : PolicyEntry} {setting : Setting}
    {name : String} (h : Means labels entry setting)
    (hname : PolicyEntry.costLabel? entry.key = some name) :
    ∃ x : Quantity, setting = .cost name (.finite x) := by
  have hnotMem : entry.key ∉ settingKeys := by
    intro hmem
    rw [costLabel?_of_mem_settingKeys _ hmem] at hname
    cases hname
  cases h with
  | cost hx _ _ =>
    rw [costLabel?_append] at hname
    cases hname
    exact ⟨_, rfl⟩
  | extra hnone _ =>
    rw [hnone] at hname
    cases hname
  | _ => exact absurd (by simp [settingKeys]) hnotMem

section

variable {before after : List PolicyEntry} {entry later : PolicyEntry}

theorem last?_cost_without (hlater : later ∈ after) (hkey : later.key = entry.key) {name : String}
    (h : ∀ x : Quantity,
      Means (vocabulary (before ++ entry :: after)) entry (.cost name (.finite x)) →
        HasUsable (vocabulary (before ++ entry :: after)) after entry.key) :
    Setting.last? (Setting.cost? name) (settings (before ++ after)) =
      Setting.last? (Setting.cost? name) (settings (before ++ entry :: after)) := by
  refine last?_without_of_notMem hlater hkey (Setting.key_of_cost? name) (costKey_notMem name) ?_
  intro hname
  have hcost : costLabel? entry.key = some name := by rw [hname, costLabel?_append]
  cases hsaid : said? (vocabulary (before ++ entry :: after)) entry with
  | none => exact .inl rfl
  | some setting =>
    obtain ⟨x, rfl⟩ := (means_of_said? hsaid).eq_cost hcost
    obtain ⟨next, hnext, hsame, found, hfound⟩ := h x (means_of_said? hsaid)
    obtain ⟨y, rfl⟩ := hfound.eq_cost (by rw [hsame, hcost])
    refine .inr ⟨next, hnext, hsame.trans hname, ?_⟩
    rw [said?_eq_some_iff.2 hfound, Option.bind_some, Setting.cost?, if_pos rfl]
    exact Option.some_ne_none _

theorem last?_extra_without (hlater : later ∈ after) (hkey : later.key = entry.key) (k : String) :
    Setting.last? (Setting.extra? k) (settings (before ++ after)) =
      Setting.last? (Setting.extra? k) (settings (before ++ entry :: after)) := by
  by_cases hk : k ∈ settingKeys
  · exact last?_without_of_mem hlater hkey (Setting.key_of_extra? k) hk
  · refine last?_without_of_notMem hlater hkey (Setting.key_of_extra? k) hk ?_
    rintro rfl
    rw [said?_bind_extra? _ hk]
    by_cases hcost : costLabel? entry.key = none
    · refine .inr ⟨later, hlater, hkey, ?_⟩
      rw [← hkey] at hk hcost ⊢
      rw [said?_bind_extra? _ hk, if_pos hcost]
      exact Option.some_ne_none _
    · exact .inl (if_neg hcost)

/-- A cost is in force if no entry of its key below it can be used. -/
theorem cost_of_means {entries : List PolicyEntry} (hsplit : entries = before ++ entry :: after)
    {name : String} {x : Quantity}
    (hmeans : Means (vocabulary entries) entry (.cost name (.finite x)))
    (hunusable : ¬ HasUsable (vocabulary entries) after entry.key) :
    (Policy.ofEntries entries).costs[Label.mk name]? = some x := by
  have hcost := hmeans.costLabel?
  have hthreshold : asThreshold (thresholdKey entries) entry = entry := by
    refine if_neg fun hkey => ?_
    rw [hkey, costLabel?_thresholdKey] at hcost
    cases hcost
  have hlast : ∀ next ∈ after, ¬ Replaces (vocabulary entries) next entry := by
    rintro next hnext ⟨hsame, hnone | hfound⟩
    · rw [hcost] at hnone
      cases hnone
    · exact hunusable ⟨next, hnext, hsame, hfound⟩
  have htake : (Setting.cost name (.finite x)).cost? name = some (.finite x) := if_pos rfl
  rw [← hthreshold] at hmeans
  have hset := last?_of_means hsplit hlast hmeans (Setting.key_of_cost? name) htake
  have hleft := (follows_settings entries).cost name
  rw [Setting.costLeft?_of_labelsFirst (labelsFirst_settings _), hset, Option.some_or,
    Option.map_eq_some_iff] at hleft
  obtain ⟨y, hy, heq⟩ := hleft
  rw [hy, Number.finite.inj heq]

/-- Only the cost that an earlier entry sets can be missed. -/
theorem follows_without (hlater : later ∈ after) (hkey : later.key = entry.key) {policy : Policy}
    (h : policy.Follows (settings (before ++ after)))
    (hcost : ∀ name, policy.costs[Label.mk name]?.map Number.finite =
      Setting.costLeft? name (settings (before ++ entry :: after))) :
    policy.Follows (settings (before ++ entry :: after)) := by
  have hlabels : Setting.vocabulary (settings (before ++ after)) =
      Setting.vocabulary (settings (before ++ entry :: after)) := by
    rw [vocabulary_settings, vocabulary_settings, vocabulary_without hlater hkey]
  constructor
  case labels => rw [h.labels, hlabels]
  case default =>
    rw [h.default, hlabels,
      last?_without_of_mem hlater hkey Setting.key_of_defaultLabel? (by decide)]
  case cost => exact hcost
  case riskField =>
    rw [h.riskField, last?_without_of_mem hlater hkey Setting.key_of_riskField? (by decide)]
  case segmentField =>
    rw [h.segmentField, last?_without_of_mem hlater hkey Setting.key_of_segmentField? (by decide)]
  case threshold =>
    rw [h.threshold, last?_without_of_mem hlater hkey Setting.key_of_threshold? (by decide)]
  case extra =>
    intro k
    rw [h.extra, last?_extra_without hlater hkey]

/-- An earlier entry can be left out unless it is the last cost of its key that can be used, and
leaving it out leaves another cost. -/
theorem ofEntries_without_iff (hlater : later ∈ after) (hkey : later.key = entry.key) :
    Policy.ofEntries (before ++ after) = Policy.ofEntries (before ++ entry :: after) ↔
      ∀ (name : String) (x : Quantity),
        Means (vocabulary (before ++ entry :: after)) entry (.cost name (.finite x)) →
          HasUsable (vocabulary (before ++ entry :: after)) after entry.key ∨
            (Policy.ofEntries (before ++ after)).costs[Label.mk name]? = some x := by
  constructor
  · intro heq name x hmeans
    refine Classical.or_iff_not_imp_left.2 fun hunusable => ?_
    rw [heq]
    exact cost_of_means rfl hmeans hunusable
  · intro h
    have hfewer := follows_settings (before ++ after)
    have hall := follows_settings (before ++ entry :: after)
    refine (follows_without hlater hkey hfewer fun name => ?_).unique hall
    by_cases hlost : ∃ x : Quantity,
        Means (vocabulary (before ++ entry :: after)) entry (.cost name (.finite x)) ∧
          ¬ HasUsable (vocabulary (before ++ entry :: after)) after entry.key
    · obtain ⟨x, hmeans, hunusable⟩ := hlost
      rw [← hall.cost, cost_of_means rfl hmeans hunusable,
        (h name x hmeans).resolve_left hunusable]
    · have hlast : Setting.last? (Setting.cost? name) (settings (before ++ after)) = _ :=
        last?_cost_without hlater hkey fun x hmeans =>
          Classical.not_not.1 fun hunusable => hlost ⟨x, hmeans, hunusable⟩
      rw [hfewer.cost, Setting.costLeft?_of_labelsFirst (labelsFirst_settings _),
        Setting.costLeft?_of_labelsFirst (labelsFirst_settings _), hlast,
        last?_without_of_mem hlater hkey Setting.key_of_labels? (by decide)]

end

end PolicyEntry

/-! ## A last value that cannot be used -/

/-- Whether a policy has the standard value of what a key sets. -/
def Policy.HasDefault (policy : Policy) (k : String) : Prop :=
  match PolicyEntry.costLabel? k with
  | some name => policy.costs[Label.mk name]? =
      if policy.knows ⟨name⟩ then Policy.standard.costs[Label.mk name]? else none
  | none =>
    if k = "LABELS" then policy.labels = Policy.standard.labels
    else if k = "DEFAULT_LABEL" then some policy.defaultLabel = policy.labels.head?
    else if k = "HIGH_RISK_THRESHOLD" then policy.threshold = standardThreshold
    else if k = "RISK_FIELD" then policy.riskField = standardRiskField
    else if k = "SEGMENT_FIELD" then policy.segmentField = standardSegmentField
    else policy.extra? k = none

namespace PolicyEntry

section

variable {entries before after : List PolicyEntry} {entry : PolicyEntry}

theorem lookup?_resolved_of_last (hsplit : entries = before ++ entry :: after)
    (hlast : ∀ later ∈ after, later.key ≠ entry.key) :
    lookup? (resolved entries) (asThreshold (thresholdKey entries) entry).key =
      some (asThreshold (thresholdKey entries) entry).value := by
  have hmem : ∀ other ∈ entry :: after, other ∈ entries := by
    intro other hother
    rw [hsplit]
    exact List.mem_append_right before hother
  have hafter : valuesOf (after.map (asThreshold (thresholdKey entries)))
      (asThreshold (thresholdKey entries) entry).key = [] := by
    rw [valuesOf_eq_nil_iff]
    intro later hlater hsame
    obtain ⟨other, hother, rfl⟩ := List.mem_map.1 hlater
    exact hlast other hother (key_eq_of_asThreshold (hmem other (List.mem_cons_of_mem entry hother))
      (hmem entry List.mem_cons_self) hsame)
  rw [lookup?_eq_getLast?, resolved_eq_append hsplit, valuesOf_append, valuesOf_cons, if_pos rfl,
    hafter, List.getLast?_concat]

/-- The last value of a key of its own sets nothing if it cannot be used. -/
theorem last?_eq_none_of_unusable (hsplit : entries = before ++ entry :: after)
    (hlast : ∀ later ∈ after, later.key ≠ entry.key)
    (hunusable : ∀ setting,
      ¬ Means (vocabulary entries) (asThreshold (thresholdKey entries) entry) setting)
    {k : String} (hk : (asThreshold (thresholdKey entries) entry).key = k) (hmem : k ∈ settingKeys)
    {β : Type} {take : Setting → Option β}
    (htake : ∀ setting b, take setting = some b → setting.key = k) :
    Setting.last? take (settings entries) = none := by
  have hsaid : said? (vocabulary entries) (asThreshold (thresholdKey entries) entry) = none :=
    Option.eq_none_iff_forall_ne_some.2 fun setting h => hunusable setting (means_of_said? h)
  subst hk
  rw [last?_settings htake, if_pos hmem, lookup?_resolved_of_last hsplit hlast, Option.bind_some,
    hsaid, Option.bind_none]

theorem last?_cost_eq_none {name : String}
    (h : ¬ HasUsable (vocabulary entries) entries ("COST_" ++ name)) :
    Setting.last? (Setting.cost? name) (settings entries) = none := by
  have hnotMem := costKey_notMem name
  have hhigh : "COST_" ++ name ≠ "HIGH_RISK_THRESHOLD" := fun heq => hnotMem (heq ▸ by decide)
  rw [last?_settings (Setting.key_of_cost? name), if_neg hnotMem, valuesOf_resolved, if_neg hhigh]
  split
  · rfl
  · rw [← List.filterMap_filterMap, filterMap_valuesOf_eq_nil]
    · rfl
    · exact fun entry hentry hkey setting hmeans => h ⟨entry, hentry, hkey, setting, hmeans⟩

theorem standard_cost?_eq (name : String) :
    Policy.standard.costs[Label.mk name]?.map Number.finite = PolicyDraft.standard.cost? name :=
  have h : Policy.ofSettings [] = .ok .standard := build_standard
  (follows_of_ofSettings h).cost name

/-- A label without a usable cost has its standard cost, or none. -/
theorem cost_of_not_hasUsable {name : String}
    (h : ¬ HasUsable (vocabulary entries) entries ("COST_" ++ name)) :
    (Policy.ofEntries entries).costs[Label.mk name]? =
      if (Policy.ofEntries entries).knows ⟨name⟩ then Policy.standard.costs[Label.mk name]?
      else none := by
  have hfollows := follows_settings entries
  have hknows : (Policy.ofEntries entries).knows ⟨name⟩ ↔
      name ∈ Setting.vocabulary (settings entries) := by
    simp [Policy.knows, hfollows.labels]
  have hleft := hfollows.cost name
  rw [Setting.costLeft?_of_labelsFirst (labelsFirst_settings entries), last?_cost_eq_none h,
    Option.none_or, ← standard_cost?_eq] at hleft
  refine Option.map_injective (fun _ _ => Number.finite.inj) (hleft.trans ?_)
  by_cases hmem : name ∈ Setting.vocabulary (settings entries)
  · rw [if_pos (hknows.2 hmem)]
    exact if_pos hmem
  · rw [if_neg (mt hknows.1 hmem)]
    exact if_neg hmem

/-- A last value that cannot be used leaves the default, of a cost if no other value of it can be
used. -/
theorem hasDefault_of_unusable (hsplit : entries = before ++ entry :: after)
    (hlast : ∀ later ∈ after, later.key ≠ entry.key)
    (hunusable : ∀ setting,
      ¬ Means (vocabulary entries) (asThreshold (thresholdKey entries) entry) setting)
    (hcost : costLabel? entry.key = none ∨ ¬ HasUsable (vocabulary entries) entries entry.key) :
    (Policy.ofEntries entries).HasDefault (asThreshold (thresholdKey entries) entry).key := by
  have hfollows := follows_settings entries
  unfold Policy.HasDefault
  split
  · rename_i name hname
    have hthreshold : asThreshold (thresholdKey entries) entry = entry := by
      refine if_neg fun hkey => ?_
      rw [asThreshold, if_pos hkey] at hname
      cases hname.symm.trans (by decide : PolicyEntry.costLabel? "HIGH_RISK_THRESHOLD" = none)
    rw [hthreshold] at hname
    rw [hname, eq_append_of_costLabel? hname] at hcost
    exact cost_of_not_hasUsable (hcost.resolve_left (Option.some_ne_none name))
  · rename_i hname
    split_ifs with hlabels hdefault hhigh hrisk hsegment
    · rw [hfollows.labels, Setting.vocabulary, last?_eq_none_of_unusable hsplit hlast hunusable
        hlabels (by decide) Setting.key_of_labels?]
      rfl
    · have hname := hfollows.default
      rw [last?_eq_none_of_unusable hsplit hlast hunusable hdefault (by decide)
        Setting.key_of_defaultLabel?, Option.none_or] at hname
      rw [hfollows.labels, List.head?_map, ← hname]
      rfl
    · have hthreshold := hfollows.threshold
      rw [last?_eq_none_of_unusable hsplit hlast hunusable hhigh (by decide)
        Setting.key_of_threshold?] at hthreshold
      exact Number.finite.inj hthreshold
    · rw [hfollows.riskField, last?_eq_none_of_unusable hsplit hlast hunusable hrisk (by decide)
        Setting.key_of_riskField?]
      rfl
    · rw [hfollows.segmentField, last?_eq_none_of_unusable hsplit hlast hunusable hsegment
        (by decide) Setting.key_of_segmentField?]
      rfl
    · -- Every value of an extra key can be used.
      have hnotMem : (asThreshold (thresholdKey entries) entry).key ∉ settingKeys := by
        simp only [settingKeys, List.mem_cons, List.not_mem_nil, or_false, not_or]
        exact ⟨hlabels, hdefault, hhigh, hrisk, hsegment⟩
      exact absurd (.extra hname hnotMem) (hunusable _)

end

end PolicyEntry

/-! ## The lines of a block -/

/-- Of two lines of one key the earlier one can be left out, unless it sets a cost and no line of
its key below can be used. Then that cost stays in force, and leaving the line out changes the
policy unless another line sets the same. A last value that cannot be used leaves the default, of a
cost only where no line of its key can be used. -/
theorem ofLines_without_earlier_iff {above below : List Line} {line later : Line}
    {entry other : PolicyEntry} (hread : PolicyEntry.readLine? line = some entry)
    (hlater : later ∈ below) (hread' : PolicyEntry.readLine? later = some other)
    (hkey : other.key = entry.key) :
    let lines := above ++ line :: below
    let entries := PolicyEntry.readLines lines
    let labels := PolicyEntry.vocabulary entries
    let last := PolicyEntry.asThreshold (PolicyEntry.thresholdKey entries) other
    (Policy.ofLines (above ++ below) = Policy.ofLines lines ↔
      ∀ (name : String) (x : Quantity), PolicyEntry.Means labels entry (.cost name (.finite x)) →
        PolicyEntry.HasUsable labels (PolicyEntry.readLines below) entry.key ∨
          (Policy.ofLines (above ++ below)).costs[Label.mk name]? = some x) ∧
      (∀ (name : String) (x : Quantity), PolicyEntry.Means labels entry (.cost name (.finite x)) →
        ¬ PolicyEntry.HasUsable labels (PolicyEntry.readLines below) entry.key →
        (Policy.ofLines lines).costs[Label.mk name]? = some x) ∧
      ∀ middle after : List Line, below = middle ++ later :: after →
        (∀ next ∈ PolicyEntry.readLines after, next.key ≠ other.key) →
        (∀ setting, ¬ PolicyEntry.Means labels last setting) →
        (PolicyEntry.costLabel? other.key = none ∨
          ¬ PolicyEntry.HasUsable labels entries other.key) →
        (Policy.ofLines lines).HasDefault last.key := by
  intro lines entries labels last
  have hentries : entries =
      PolicyEntry.readLines above ++ entry :: PolicyEntry.readLines below := by
    unfold entries lines PolicyEntry.readLines
    rw [List.filterMap_append, List.filterMap_cons_some hread]
  have hfewer : PolicyEntry.readLines (above ++ below) =
      PolicyEntry.readLines above ++ PolicyEntry.readLines below := List.filterMap_append
  have hmem : other ∈ PolicyEntry.readLines below := List.mem_filterMap.2 ⟨later, hlater, hread'⟩
  refine ⟨?_, fun name x => PolicyEntry.cost_of_means hentries, ?_⟩
  · have hiff : Policy.ofEntries (PolicyEntry.readLines above ++ PolicyEntry.readLines below) =
        _ ↔ _ := PolicyEntry.ofEntries_without_iff hmem hkey
    rw [← hentries, ← hfewer] at hiff
    exact hiff
  · intro middle after hsplit hafter hunusable hcost
    have hlast : entries = PolicyEntry.readLines (above ++ line :: middle) ++
        other :: PolicyEntry.readLines after := by
      unfold entries lines PolicyEntry.readLines
      rw [hsplit, ← List.cons_append, ← List.append_assoc, List.filterMap_append,
        List.filterMap_cons_some hread']
    exact PolicyEntry.hasDefault_of_unusable hlast hafter hunusable hcost

/-- A cost with usable and unusable ones below it, and a last field name that is none. -/
theorem ofLines_without_earlier_iff_of_two_keys :
    let cost : Line := ⟨2, "COST_VIP=5"⟩
    let costs : List Line := [⟨3, "COST_VIP=7"⟩, ⟨4, "COST_VIP=x"⟩]
    let field : Line := ⟨1, "RISK_FIELD=score"⟩
    let last : Line := ⟨2, "RISK_FIELD=1st"⟩
    Policy.ofLines ([⟨1, "LABELS=NONE,VIP"⟩] ++ costs) =
        Policy.ofLines ([⟨1, "LABELS=NONE,VIP"⟩] ++ cost :: costs) ∧
      Policy.ofLines ([] ++ [last]) = Policy.ofLines ([] ++ field :: [last]) ∧
      (Policy.ofLines ([] ++ field :: [last])).HasDefault "RISK_FIELD" := by
  intro cost costs field last
  constructor
  · have hread : PolicyEntry.readLine? cost = some ⟨"COST_VIP", "5"⟩ := by decide +kernel
    have hread' : PolicyEntry.readLine? ⟨3, "COST_VIP=7"⟩ = some ⟨"COST_VIP", "7"⟩ := by
      decide +kernel
    have hname : "VIP" ∈ PolicyEntry.vocabulary
        (PolicyEntry.readLines ([⟨1, "LABELS=NONE,VIP"⟩] ++ cost :: costs)) := by decide +kernel
    have hnext : (⟨"COST_VIP", "7"⟩ : PolicyEntry) ∈ PolicyEntry.readLines costs := by
      decide +kernel
    have hpos : ∀ y ∈ finiteOfText? "7", Quantity.zero ≤ y := by decide +kernel
    obtain ⟨y, hy⟩ : ∃ y, finiteOfText? "7" = some y :=
      Option.isSome_iff_exists.1 (by decide +kernel)
    refine (ofLines_without_earlier_iff hread List.mem_cons_self hread' rfl).1.2 fun name x _ => ?_
    exact .inl ⟨_, hnext, rfl, _, .cost hy hname (hpos y hy)⟩
  · have hread : PolicyEntry.readLine? field = some ⟨"RISK_FIELD", "score"⟩ := by decide +kernel
    have hread' : PolicyEntry.readLine? last = some ⟨"RISK_FIELD", "1st"⟩ := by decide +kernel
    have hcost : PolicyEntry.costLabel? "RISK_FIELD" = none := by decide +kernel
    have hlast : PolicyEntry.asThreshold
        (PolicyEntry.thresholdKey (PolicyEntry.readLines ([] ++ field :: [last])))
        ⟨"RISK_FIELD", "1st"⟩ = ⟨"RISK_FIELD", "1st"⟩ := by decide +kernel
    have hsaid : PolicyEntry.said?
        (PolicyEntry.vocabulary (PolicyEntry.readLines ([] ++ field :: [last])))
        ⟨"RISK_FIELD", "1st"⟩ = none := by decide +kernel
    have hunusable : ∀ setting, ¬ PolicyEntry.Means
        (PolicyEntry.vocabulary (PolicyEntry.readLines ([] ++ field :: [last])))
        ⟨"RISK_FIELD", "1st"⟩ setting := by
      intro setting hmeans
      rw [← PolicyEntry.said?_eq_some_iff, hsaid] at hmeans
      cases hmeans
    obtain ⟨hiff, -, hdefault⟩ :=
      @ofLines_without_earlier_iff [] [last] field last _ _ hread List.mem_cons_self hread' rfl
    refine ⟨hiff.2 fun name x hmeans => ?_, ?_⟩
    · have hname := hmeans.costLabel?
      rw [hcost] at hname
      cases hname
    · rw [hlast] at hdefault
      exact hdefault [] [] rfl (by simp [PolicyEntry.readLines]) hunusable (.inl hcost)

/-- An earlier cost stays in force when the last one cannot be used, so its line cannot be left
out. -/
theorem ofLines_ne_without_earlier_cost :
    let first : Line := ⟨1, "COST_BIG=5"⟩
    let last : Line := ⟨2, "COST_BIG=x"⟩
    Line.ofText "COST_BIG=5\nCOST_BIG=x" = [first, last] ∧
      PolicyEntry.readLine? first = some ⟨"COST_BIG", "5"⟩ ∧
      PolicyEntry.readLine? last = some ⟨"COST_BIG", "x"⟩ ∧
      (∀ labels, PolicyEntry.said? labels ⟨"COST_BIG", "x"⟩ = none) ∧
      some ((Policy.ofLines [first, last]).cost ⟨"BIG"⟩) = finiteOfText? "5" ∧
      (Policy.ofLines [first, last]).cost ⟨"BIG"⟩ ≠ Policy.standard.cost ⟨"BIG"⟩ ∧
      Policy.ofLines [last] ≠ Policy.ofLines [first, last] := by
  intro first last
  have hkept : some ((Policy.ofLines [first, last]).cost ⟨"BIG"⟩) = finiteOfText? "5" := by
    decide +kernel
  have hother : (Policy.ofLines [first, last]).cost ⟨"BIG"⟩ ≠ Policy.standard.cost ⟨"BIG"⟩ := by
    decide +kernel
  have hdefault : (Policy.ofLines [last]).cost ⟨"BIG"⟩ = Policy.standard.cost ⟨"BIG"⟩ := by
    decide +kernel
  refine ⟨by decide +kernel, by decide +kernel, by decide +kernel, fun labels => ?_, hkept, hother,
    fun heq => ?_⟩
  · have hcost : PolicyEntry.costLabel? "COST_BIG" = some "BIG" := by decide +kernel
    have htext : finiteOfText? "x" = none := by decide +kernel
    simp [PolicyEntry.said?, hcost, htext]
  · rw [← heq] at hother
    exact hother hdefault

end Retention
