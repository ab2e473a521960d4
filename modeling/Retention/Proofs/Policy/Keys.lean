import Retention.Proofs.Policy.Entries

/-!
# What each key of a policy sets

The settings of one key come from the entries of that key, read under the vocabulary in force. A
key of its own sets what its last value says, and any other key what its last usable value says.
-/

namespace Retention

namespace PolicyEntry

section

variable {β : Type} {take : Setting → Option β} {k : String}

theorem filterMap_toList_of_key (hkey : ∀ setting b, take setting = some b → setting.key = k)
    {said : Option Setting} {k' : String}
    (hsaid : ∀ setting, said = some setting → setting.key = k') (hne : k' ≠ k) :
    said.toList.filterMap take = [] := by
  rw [filterMap_toList, Option.toList_eq_nil_iff, Option.eq_none_iff_forall_ne_some]
  intro b hb
  obtain ⟨setting, hset, htake⟩ := Option.bind_eq_some_iff.1 hb
  exact hne ((hsaid setting hset).symm.trans (hkey setting b htake))

/-- A key of its own sets what its last value says, any other key what each of its values says. -/
theorem filterMap_settings (hkey : ∀ setting b, take setting = some b → setting.key = k)
    (entries : List PolicyEntry) : (settings entries).filterMap take =
      if k ∈ settingKeys then
        (((lookup? (resolved entries) k).bind fun v => said? (vocabulary entries) ⟨k, v⟩).bind
          take).toList
      else (valuesOf (resolved entries) k).filterMap fun v =>
        (said? (vocabulary entries) ⟨k, v⟩).bind take := by
  have hown : ∀ k', k' ≠ k → (ownSettings (resolved entries) k').filterMap take = [] := by
    intro k' hne
    refine filterMap_toList_of_key hkey (fun setting hset => ?_) hne
    obtain ⟨v, -, hsaid⟩ := Option.bind_eq_some_iff.1 hset
    exact (means_of_said? hsaid).key_eq
  have hrest : ∀ entry : PolicyEntry, entry.key ≠ k →
      (restSettings (vocabulary entries) entry).filterMap take = [] := by
    intro entry hne
    unfold restSettings
    split
    · rfl
    · exact filterMap_toList_of_key hkey (fun setting hset => (means_of_said? hset).key_eq) hne
  rw [settings_eq, List.filterMap_append, List.filterMap_flatMap,
    flatMap_of_nodup (by decide) hown, filterMap_flatMap_of_key hrest]
  unfold restSettings ownSettings
  rw [vocabulary_resolved, filterMap_toList]
  by_cases hmem : k ∈ settingKeys
  · simp [hmem]
  · simp only [hmem, if_false, filterMap_toList, List.nil_append]
    rw [List.filterMap_eq_flatMap_toList]

theorem last?_settings (hkey : ∀ setting b, take setting = some b → setting.key = k)
    (entries : List PolicyEntry) : Setting.last? take (settings entries) =
      if k ∈ settingKeys then
        ((lookup? (resolved entries) k).bind fun v => said? (vocabulary entries) ⟨k, v⟩).bind take
      else ((valuesOf (resolved entries) k).filterMap fun v =>
        (said? (vocabulary entries) ⟨k, v⟩).bind take).getLast? := by
  unfold Setting.last?
  rw [filterMap_settings hkey]
  split
  · generalize Option.bind _ take = last
    cases last <;> rfl
  · rfl

end

/-! ## Entries with the same values -/

section

variable {a b : List PolicyEntry}

theorem thresholdKey_congr (h : ∀ k, valuesOf a k = valuesOf b k) :
    thresholdKey a = thresholdKey b := by
  unfold thresholdKey
  rw [lookup?_eq_getLast?, lookup?_eq_getLast?, h]

theorem vocabulary_congr (h : ∀ k, valuesOf a k = valuesOf b k) : vocabulary a = vocabulary b := by
  unfold vocabulary
  rw [lookup?_eq_getLast?, lookup?_eq_getLast?, h]

/-- How the keys are mixed does not matter. -/
theorem sameLast_settings (h : ∀ k, valuesOf a k = valuesOf b k) :
    Setting.SameLast (settings a) (settings b) := by
  intro β take k hkey
  have hresolved : valuesOf (resolved a) k = valuesOf (resolved b) k := by
    rw [valuesOf_resolved, valuesOf_resolved, thresholdKey_congr h, h, h]
  rw [last?_settings hkey, last?_settings hkey, lookup?_eq_getLast?, lookup?_eq_getLast?,
    hresolved, vocabulary_congr h]

end

/-! ## What is set -/

variable {entries : List PolicyEntry}

theorem exists_means_of_mem_settings {setting : Setting} (h : setting ∈ settings entries) :
    ∃ entry, Means (vocabulary entries) entry setting := by
  rw [settings_eq, List.mem_append, List.mem_flatMap, List.mem_flatMap] at h
  rcases h with ⟨k, -, h⟩ | ⟨entry, -, h⟩
  · unfold ownSettings at h
    rw [Option.mem_toList, Option.bind_eq_some_iff, vocabulary_resolved] at h
    obtain ⟨v, -, hsaid⟩ := h
    exact ⟨⟨k, v⟩, means_of_said? hsaid⟩
  · unfold restSettings at h
    split at h
    · cases h
    · exact ⟨entry, means_of_said? (Option.mem_toList.1 h)⟩

theorem vocabulary_settings (entries : List PolicyEntry) :
    Setting.vocabulary (settings entries) = vocabulary entries := by
  have hmem : "LABELS" ∈ settingKeys := by decide
  have hcost : costLabel? "LABELS" = none := by decide
  unfold Setting.vocabulary
  rw [last?_settings Setting.key_of_labels?, if_pos hmem, lookup?_resolved (by decide) (by decide)]
  unfold vocabulary said?
  cases lookup? entries "LABELS" with
  | none => rfl
  | some v => cases h : vocabularyOfText? v <;> simp [hcost, h, Setting.labels?]

/-- A later entry takes the place of one of its key, a cost only if it can be used itself. -/
def Replaces (labels : List String) (later entry : PolicyEntry) : Prop :=
  later.key = entry.key ∧ (costLabel? entry.key = none ∨ ∃ setting, Means labels later setting)

theorem costLabel?_of_mem_settingKeys : ∀ k ∈ settingKeys, costLabel? k = none := by decide

theorem filterMap_valuesOf_eq_nil {labels : List String} {k : String} {after : List PolicyEntry}
    (h : ∀ later ∈ after, later.key = k → ∀ setting, ¬ Means labels later setting) :
    (valuesOf after k).filterMap (fun v => said? labels ⟨k, v⟩) = [] := by
  rw [List.filterMap_eq_nil_iff]
  intro v hv
  obtain ⟨later, hlater, rfl⟩ := List.mem_map.1 hv
  obtain ⟨hmem, hkey⟩ := List.mem_filter.1 hlater
  obtain rfl := eq_of_beq hkey
  exact Option.eq_none_iff_forall_ne_some.2 fun setting hsaid =>
    h later hmem rfl setting (means_of_said? hsaid)

/-- What an entry says is set if nothing below it takes its place. -/
theorem last?_settings_of_means {before after : List PolicyEntry} {entry : PolicyEntry}
    (hsplit : resolved entries = before ++ entry :: after)
    (hlast : ∀ later ∈ after, ¬ Replaces (vocabulary entries) later entry) {setting : Setting}
    (hmeans : Means (vocabulary entries) entry setting) {β : Type}
    {take : Setting → Option β} (hkey : ∀ other b, take other = some b → other.key = setting.key)
    {b : β} (htake : take setting = some b) : Setting.last? take (settings entries) = some b := by
  have hvalues : valuesOf (resolved entries) entry.key =
      valuesOf before entry.key ++ entry.value :: valuesOf after entry.key := by
    unfold valuesOf
    simp [hsplit]
  have hsaid := said?_eq_some_iff.2 hmeans
  rw [hmeans.key_eq] at hkey
  rw [last?_settings hkey, lookup?_eq_getLast?, hvalues]
  split
  · rename_i hmem
    have hcost := costLabel?_of_mem_settingKeys entry.key hmem
    have hafter : valuesOf after entry.key = [] :=
      valuesOf_eq_nil_iff.2 fun later hlater hsame => hlast later hlater ⟨hsame, .inl hcost⟩
    simp [hafter, hsaid, htake]
  · have hafter : (valuesOf after entry.key).filterMap
        (fun v => said? (vocabulary entries) ⟨entry.key, v⟩) = [] :=
      filterMap_valuesOf_eq_nil fun later hlater hsame setting hmeans =>
        hlast later hlater ⟨hsame, .inr ⟨setting, hmeans⟩⟩
    rw [← List.filterMap_filterMap, List.filterMap_append, List.filterMap_cons, hafter]
    simp [hsaid, htake]

end PolicyEntry

end Retention
