import Retention.Proofs.Policy.Entries
import Retention.Proofs.Policy.Writing

/-!
# Policy text and built policies

Settings written under a policy header give the policy that is built from them in code.
-/

namespace Retention

/-! ## What is written is read -/

namespace Setting

section

variable {labels : List String} {setting : Setting} {entry : PolicyEntry}

/-- An entry that gives a setting sets it. -/
theorem said?_of_entered (h : setting.isWritable labels) (hentered : setting.Entered entry) :
    PolicyEntry.said? labels entry = some setting := by
  obtain ⟨hkey, hvalue⟩ := hentered
  have hnumber : ∀ x, Number.read? entry.value.toList = some (.finite x) →
      finiteOfText? entry.value = some x := by
    intro x hx
    rw [finiteOfText?, hx]
    rfl
  unfold PolicyEntry.said?
  unfold isWritable at h
  unfold WritesValue at hvalue
  cases setting with
  | labels names =>
    have hcost : PolicyEntry.costLabel? "LABELS" = none := by decide
    simp only [decide_eq_true_eq] at h
    have hread := vocabularyOfText?_of_writesNames hvalue h.2.2 h.2.1
    rw [String.ofList_toList] at hread
    simp [hkey, key, hcost, hread]
  | defaultLabel name =>
    have hcost : PolicyEntry.costLabel? "DEFAULT_LABEL" = none := by decide
    simp only [decide_eq_true_eq] at h
    simp [hkey, key, hcost, String.toList_inj.1 hvalue, h]
  | cost name value =>
    simp only [decide_eq_true_eq, Option.any_eq_true] at h
    obtain ⟨hname, -, x, hx, hpos⟩ := h
    rw [(Number.finite?_eq_some_iff value x).1 hx] at hvalue ⊢
    simp [hkey, key, PolicyEntry.costLabel?_append, hnumber x hvalue, hname, hpos]
  | threshold value =>
    have hcost : PolicyEntry.costLabel? "HIGH_RISK_THRESHOLD" = none := by decide
    obtain ⟨x, hx⟩ := Option.isSome_iff_exists.1 h
    rw [(Number.finite?_eq_some_iff value x).1 hx] at hvalue ⊢
    simp [hkey, key, hcost, hnumber x hvalue]
  | riskField name =>
    have hcost : PolicyEntry.costLabel? "RISK_FIELD" = none := by decide
    simp [hkey, key, hcost, String.toList_inj.1 hvalue, h]
  | segmentField name =>
    have hcost : PolicyEntry.costLabel? "SEGMENT_FIELD" = none := by decide
    simp [hkey, key, hcost, String.toList_inj.1 hvalue, h]
  | extra other value =>
    simp only [decide_eq_true_eq, isFreeKey, String.ofList_toList, PolicyEntry.settingKeys,
      List.mem_cons, List.not_mem_nil, or_false, not_or] at h
    have hcost : PolicyEntry.costLabel? other = none := by
      unfold PolicyEntry.costLabel?
      rw [if_neg h.1.2.2.2.2]
    simp [hkey, key, hcost, String.toList_inj.1 hvalue, h]

theorem key_ne_of_isWritable (h : setting.isWritable labels) : setting.key ≠ "MED_THRESHOLD" := by
  cases setting with
  | cost name value =>
    intro hkey
    have hcost : PolicyEntry.costLabel? "MED_THRESHOLD" = some name := by
      rw [← hkey]
      exact PolicyEntry.costLabel?_append name
    have hnone : PolicyEntry.costLabel? "MED_THRESHOLD" = none := by decide
    rw [hnone] at hcost
    cases hcost
  | extra other value =>
    simp only [isWritable, isFreeKey, decide_eq_true_eq, String.ofList_toList] at h
    exact h.1.2.2.2.1
  | _ =>
    simp only [key]
    decide

end

section

variable {labels : List String} {settings : List Setting} {entries : List PolicyEntry}

theorem keysDistinct_of_chosen (h : Chosen settings) : KeysDistinct settings :=
  fun _ ha _ hb => List.inj_on_of_nodup_map h.keys_nodup ha hb

theorem map_key_of_entered (h : List.Forall₂ Entered settings entries) :
    entries.map PolicyEntry.key = settings.map key := by
  induction h with
  | nil => rfl
  | cons hentered _ ih => rw [List.map_cons, List.map_cons, hentered.1, ih]

theorem filterMap_said?_of_entered (hwritable : ∀ setting ∈ settings, setting.isWritable labels)
    (h : List.Forall₂ Entered settings entries) :
    entries.filterMap (PolicyEntry.said? labels) = settings := by
  induction h with
  | nil => rfl
  | cons hentered _ ih =>
    rw [List.forall_mem_cons] at hwritable
    rw [List.filterMap_cons_some (said?_of_entered hwritable.1 hentered), ih hwritable.2]

theorem nodup_key_of_entered (hchosen : Chosen settings)
    (h : List.Forall₂ Entered settings entries) : (entries.map PolicyEntry.key).Nodup := by
  rw [map_key_of_entered h]
  exact hchosen.keys_nodup

theorem vocabulary_of_entered (hchosen : Chosen settings)
    (h : List.Forall₂ Entered settings entries) :
    PolicyEntry.vocabulary entries = vocabulary settings := by
  have hnodup := nodup_key_of_entered hchosen h
  have hsaid := filterMap_said?_of_entered hchosen.writable h
  have hlast : (PolicyEntry.lookup? entries "LABELS").bind vocabularyOfText? =
      last? labels? settings := by
    refine Option.ext fun names => ?_
    rw [last?_eq_some_iff key_of_labels? (keysDistinct_of_chosen hchosen), ← hsaid]
    simp only [Option.bind_eq_some_iff, PolicyEntry.lookup?_eq_some_iff hnodup, List.mem_filterMap]
    constructor
    · rintro ⟨value, hmem, hnames⟩
      exact ⟨.labels names, ⟨_, hmem, PolicyEntry.said?_eq_labels_iff.2 ⟨rfl, hnames⟩⟩, rfl⟩
    · rintro ⟨setting, ⟨entry, hentry, hset⟩, hlabels⟩
      cases setting <;> cases hlabels
      obtain ⟨hkey, hnames⟩ := PolicyEntry.said?_eq_labels_iff.1 hset
      rw [← hkey]
      exact ⟨entry.value, hentry, hnames⟩
  unfold PolicyEntry.vocabulary vocabulary
  rw [hlast]

theorem mem_settings_of_entered (hchosen : Chosen settings)
    (h : List.Forall₂ Entered settings entries) (setting : Setting) :
    setting ∈ PolicyEntry.settings entries ↔ setting ∈ settings := by
  have hnodup := nodup_key_of_entered hchosen h
  have hmed : ∀ entry ∈ entries, entry.key ≠ "MED_THRESHOLD" := by
    intro entry hentry
    have hkey : entry.key ∈ settings.map key := by
      rw [← map_key_of_entered h]
      exact List.mem_map_of_mem hentry
    obtain ⟨other, hother, hkey⟩ := List.mem_map.1 hkey
    rw [← hkey]
    exact key_ne_of_isWritable (hchosen.writable other hother)
  rw [PolicyEntry.mem_settings_iff hnodup hmed, vocabulary_of_entered hchosen h,
    filterMap_said?_of_entered hchosen.writable h]

end

/-! ## What is chosen can be built -/

theorem valid_of_chosen {settings : List Setting} (hchosen : Chosen settings)
    (hfirst : LabelsFirst settings) : (PolicyDraft.ofSettings settings).Valid :=
  (PolicyDraft.leaves_ofSettings settings).valid_iff.2
    (buildable_of_usable (isUsable_of_chosen hchosen) hfirst)

theorem chosen_of_perm {settings others : List Setting} (hchosen : Chosen settings)
    (hperm : others.Perm settings) : Chosen others := by
  have hvocabulary : vocabulary others = vocabulary settings := by
    unfold vocabulary
    rw [last?_congr key_of_labels? (keysDistinct_of_chosen hchosen) fun _ => hperm.mem_iff.symm]
  constructor
  · exact (hperm.map key).nodup_iff.2 hchosen.keys_nodup
  · intro setting hmem
    rw [hvocabulary]
    exact hchosen.writable setting (hperm.mem_iff.1 hmem)

end Setting

/-- Settings chosen to be written can be written, and each text that writes them gives the policy
that they build, whatever the order of either as long as code lists the labels first. -/
theorem ofSettings_eq_parse_of_chosen {written built : List Setting}
    (hchosen : Setting.Chosen written) (hperm : built.Perm written) (hfirst : LabelsFirst built) :
    (∃ text : String, Setting.WritesPolicy written text.toList) ∧
      ∀ text : String, Setting.WritesPolicy written text.toList →
        Policy.ofSettings built = .ok (.parse text) := by
  refine ⟨Setting.exists_writesPolicy hchosen, fun text htext => ?_⟩
  have hbuilt := Setting.chosen_of_perm hchosen hperm
  obtain ⟨entries, hentered, hparse⟩ := Setting.exists_entries_of_writesPolicy hchosen htext
  obtain ⟨policy, hpolicy⟩ := PolicyDraft.exists_build_of_valid
    (PolicyDraft.costsDistinct_ofSettings built) (Setting.valid_of_chosen hbuilt hfirst)
  have hmem : ∀ setting, setting ∈ built ↔ setting ∈ PolicyEntry.settings entries := by
    intro setting
    rw [hperm.mem_iff, Setting.mem_settings_of_entered hchosen hentered]
  have hsettings : Policy.ofSettings (PolicyEntry.settings entries) = .ok policy :=
    ofSettings_congr (Setting.keysDistinct_of_chosen hbuilt) hmem hfirst
      (PolicyEntry.labelsFirst_settings entries) hpolicy
  rw [hparse, Policy.ofEntries, hsettings]
  exact hpolicy

/-- A cost stands above the labels, with a note, a blank line and both kinds of line ends. -/
theorem ofSettings_eq_parse_of_chosen_of_text :
    let text := "[Policy]\r\n# offers\nCOST_BIG\t= 1.5e1\r\nLABELS=NONE, BIG,vip\n\n" ++
      "HIGH_RISK_THRESHOLD=7e-1\nNOTE = a = b\nDEFAULT_LABEL=vip"
    let labels := Setting.labels ["NONE", "BIG", "vip"]
    let cost := Setting.cost "BIG" (.finite (.ofNat 15 (by decide)))
    let threshold := Setting.threshold (.finite standardThreshold)
    let note := Setting.extra "NOTE" "a = b"
    let default := Setting.defaultLabel "vip"
    let written := [cost, labels, threshold, note, default]
    let built := [labels, default, cost, note, threshold]
    Setting.Chosen written ∧ built.Perm written ∧ LabelsFirst built ∧
      Setting.WritesPolicy written text.toList ∧ Policy.ofSettings built = .ok (.parse text) := by
  intro text labels cost threshold note default written built
  have hpos : Quantity.zero ≤ .ofNat 15 (by decide) := by decide +kernel
  have hchosen : Setting.Chosen written := by
    constructor
    · decide
    · have hvocabulary : Setting.vocabulary written = ["NONE", "BIG", "vip"] := rfl
      rw [hvocabulary]
      simp only [written, List.forall_mem_cons]
      have hcost : cost.isWritable ["NONE", "BIG", "vip"] := by
        unfold Setting.isWritable
        exact decide_eq_true (And.intro (by decide) (And.intro (by decide) (decide_eq_true hpos)))
      exact ⟨hcost, rfl, rfl, by decide, rfl, List.forall_mem_nil _⟩
  have hperm : built.Perm written := by decide +kernel
  have hfirst : LabelsFirst built := by
    unfold LabelsFirst
    decide
  have hlabels : labels.WritesValue "NONE, BIG,vip".toList :=
    @WritesNames.cons "NONE" _ [] [' '] _ rfl rfl
      (@WritesNames.cons "BIG" _ [] [] _ rfl rfl (.last "vip"))
  have hcost : cost.WritesValue "1.5e1".toList := by
    unfold Setting.WritesValue
    decide +kernel
  have hthreshold : threshold.WritesValue "7e-1".toList := by
    unfold Setting.WritesValue
    decide +kernel
  have htext : Setting.WritesPolicy written text.toList := by
    refine ⟨"[Policy]".toList, ['\r', '\n'], ["# offers".toList, "COST_BIG\t= 1.5e1\r".toList,
      "LABELS=NONE, BIG,vip".toList, [], "HIGH_RISK_THRESHOLD=7e-1".toList,
      "NOTE = a = b".toList, "DEFAULT_LABEL=vip".toList], by decide, .inr rfl, ?_,
      by decide +kernel⟩
    refine .idle (by decide) (by decide) (.cons ?_ (.cons ?_ (.idle (by decide) (by decide)
      (.cons ?_ (.cons ?_ (.cons ?_ .nil))))))
    · exact ⟨['\t'], [' '], "1.5e1".toList, ['\r'], rfl, rfl, rfl, by decide, hcost, by decide⟩
    · exact ⟨[], [], "NONE, BIG,vip".toList, [], rfl, rfl, rfl, by decide, hlabels, by decide⟩
    · exact ⟨[], [], "7e-1".toList, [], rfl, rfl, rfl, by decide, hthreshold, by decide⟩
    · exact ⟨[' '], [' '], "a = b".toList, [], rfl, rfl, rfl, by decide, rfl, by decide⟩
    · exact ⟨[], [], "vip".toList, [], rfl, rfl, rfl, by decide, rfl, by decide⟩
  exact ⟨hchosen, hperm, hfirst, htext,
    (ofSettings_eq_parse_of_chosen hchosen hperm hfirst).2 text htext⟩

end Retention
