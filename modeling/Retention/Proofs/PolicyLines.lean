import Retention.Proofs.Policy.Keys
import Retention.Proofs.Policy.Runs

/-!
# The lines of a policy block

A block of any lines builds: each of its lines is left out or sets what a policy can take, so no
line takes the settings of others with it. The lines of different keys can stand in any order.
-/

namespace Retention

/-! ## A block builds -/

theorem valid_of_vocabularyOfText? {text : String} {names : List String}
    (h : vocabularyOfText? text = some names) :
    names ≠ [] ∧ names.Nodup ∧ ∀ name ∈ names, isIdentifier name.toList := by
  unfold vocabularyOfText? at h
  simp only at h
  split at h
  · rename_i hparts
    obtain ⟨hne, hidentifier, hnodup⟩ := hparts
    cases h
    refine ⟨by simpa using hne, ?_, ?_⟩
    · exact hnodup.map fun _ _ => String.ofList_injective
    · intro name hname
      obtain ⟨part, hpart, rfl⟩ := List.mem_map.1 hname
      rw [String.toList_ofList]
      exact List.all_eq_true.1 hidentifier part hpart
  · cases h

namespace PolicyEntry

/-- A policy can take what an entry says. -/
theorem Means.isUsable {labels : List String} {entry : PolicyEntry} {setting : Setting}
    (h : Means labels entry setting) : setting.isUsable labels := by
  cases h with
  | labels hnames => exact decide_eq_true (valid_of_vocabularyOfText? hnames)
  | defaultLabel hname => exact decide_eq_true hname
  | cost _ hname hpos => exact decide_eq_true ⟨hname, decide_eq_true hpos⟩
  | threshold _ => rfl
  | riskField hname => exact hname
  | segmentField hname => exact hname
  | extra _ _ => rfl

theorem buildable_settings (entries : List PolicyEntry) :
    Setting.Buildable (settings entries) := by
  refine Setting.buildable_of_usable (fun setting hmem => ?_) (labelsFirst_settings entries)
  obtain ⟨entry, hmeans⟩ := exists_means_of_mem_settings hmem
  rw [vocabulary_settings]
  exact hmeans.isUsable

theorem ofSettings_settings (entries : List PolicyEntry) :
    Policy.ofSettings (settings entries) = .ok (.ofEntries entries) := by
  obtain ⟨policy, hpolicy⟩ := exists_ofSettings_iff.2 (buildable_settings entries)
  rw [Policy.ofEntries, hpolicy]

theorem follows_settings (entries : List PolicyEntry) :
    (Policy.ofEntries entries).Follows (settings entries) :=
  follows_of_ofSettings (ofSettings_settings entries)

end PolicyEntry

/-! ## What a line says is in force -/

/-- Whether a policy has what a setting sets. -/
def Policy.Has (policy : Policy) : Setting → Prop
  | .labels names => policy.labels = names.map Label.mk
  | .defaultLabel name => policy.defaultLabel = ⟨name⟩
  | .cost name value => .finite (policy.cost ⟨name⟩) = value
  | .riskField name => policy.riskField = name
  | .segmentField name => policy.segmentField = name
  | .threshold value => .finite policy.threshold = value
  | .extra key value => policy.extra? key = some value

/-- A setting is in force if whatever can be taken of it is what is last taken of its key. -/
theorem Policy.Follows.has {policy : Policy} {settings : List Setting}
    (hfollows : policy.Follows settings) (hfirst : LabelsFirst settings) {setting : Setting}
    (hlast : ∀ {β : Type} {take : Setting → Option β} {b : β},
      (∀ other b, take other = some b → other.key = setting.key) → take setting = some b →
        Setting.last? take settings = some b) : policy.Has setting := by
  cases setting with
  | labels names =>
    rw [Policy.Has, hfollows.labels, Setting.vocabulary, hlast Setting.key_of_labels? rfl,
      Option.getD_some]
  | defaultLabel name =>
    have hdefault := hfollows.default
    rw [hlast Setting.key_of_defaultLabel? rfl, Option.some_or, Option.some.injEq] at hdefault
    exact congrArg Label.mk hdefault
  | cost name value =>
    have hcost : (Setting.cost name value).cost? name = some value := if_pos rfl
    rw [Policy.Has, hfollows.cost_eq, Setting.costLeft?_of_labelsFirst hfirst,
      hlast (Setting.key_of_cost? name) hcost, Option.some_or, Option.getD_some]
  | riskField name =>
    rw [Policy.Has, hfollows.riskField, hlast Setting.key_of_riskField? rfl, Option.getD_some]
  | segmentField name =>
    rw [Policy.Has, hfollows.segmentField, hlast Setting.key_of_segmentField? rfl, Option.getD_some]
  | threshold value =>
    rw [Policy.Has, hfollows.threshold, hlast Setting.key_of_threshold? rfl, Option.getD_some]
  | extra key value =>
    rw [Policy.Has, hfollows.extra]
    exact hlast (Setting.key_of_extra? key) (if_pos rfl)

namespace PolicyEntry

theorem key_eq_of_asThreshold {entries : List PolicyEntry} {a b : PolicyEntry} (ha : a ∈ entries)
    (hb : b ∈ entries) (h : (asThreshold (thresholdKey entries) a).key =
      (asThreshold (thresholdKey entries) b).key) : a.key = b.key := by
  have hkey := (key_asThreshold_eq_iff ha _).1 h
  have hkey' := (key_asThreshold_eq_iff hb _).1 rfl
  split at hkey
  · rename_i hthreshold
    rw [if_pos hthreshold] at hkey'
    rw [hkey, hkey']
  · rename_i hthreshold
    rw [if_neg hthreshold] at hkey'
    rw [hkey.2, hkey'.2]

theorem costLabel?_thresholdKey (entries : List PolicyEntry) :
    costLabel? (thresholdKey entries) = none := by
  rcases thresholdKey_cases entries with h | ⟨h, -⟩ <;> rw [h] <;> decide

theorem not_replaces_asThreshold {entries : List PolicyEntry} {labels : List String}
    {later entry : PolicyEntry} (hlater : later ∈ entries) (hentry : entry ∈ entries)
    (h : ¬ Replaces labels later entry) :
    ¬ Replaces labels (asThreshold (thresholdKey entries) later)
      (asThreshold (thresholdKey entries) entry) := by
  rintro ⟨hsame, hplace⟩
  have hkey := key_eq_of_asThreshold hlater hentry hsame
  by_cases hthreshold : entry.key = thresholdKey entries
  · have hcost : costLabel? entry.key = none := by
      rw [hthreshold, costLabel?_thresholdKey]
    exact h ⟨hkey, .inl hcost⟩
  · unfold asThreshold at hplace
    rw [if_neg hthreshold, if_neg (by rwa [hkey])] at hplace
    exact h ⟨hkey, hplace⟩

theorem resolved_eq_append {entries before after : List PolicyEntry} {entry : PolicyEntry}
    (hsplit : entries = before ++ entry :: after) :
    resolved entries = before.map (asThreshold (thresholdKey entries)) ++
      asThreshold (thresholdKey entries) entry ::
        after.map (asThreshold (thresholdKey entries)) := by
  rw [resolved]
  nth_rewrite 2 [hsplit]
  rw [List.map_append, List.map_cons]

section

variable {entries before after : List PolicyEntry} {entry : PolicyEntry} {setting : Setting}

/-- What an entry says is set last if nothing below it takes its place. -/
theorem last?_of_means (hsplit : entries = before ++ entry :: after)
    (hlast : ∀ later ∈ after, ¬ Replaces (vocabulary entries) later entry)
    (hmeans : Means (vocabulary entries) (asThreshold (thresholdKey entries) entry) setting)
    {β : Type} {take : Setting → Option β} {b : β}
    (hkey : ∀ other b, take other = some b → other.key = setting.key)
    (htake : take setting = some b) : Setting.last? take (settings entries) = some b := by
  have hmem : ∀ other ∈ entry :: after, other ∈ entries := by
    intro other hother
    rw [hsplit]
    exact List.mem_append_right before hother
  refine last?_settings_of_means (resolved_eq_append hsplit) ?_ hmeans hkey htake
  intro later hlater
  obtain ⟨other, hother, rfl⟩ := List.mem_map.1 hlater
  exact not_replaces_asThreshold (hmem other (List.mem_cons_of_mem entry hother))
    (hmem entry List.mem_cons_self) (hlast other hother)

theorem has_of_means (hsplit : entries = before ++ entry :: after)
    (hlast : ∀ later ∈ after, ¬ Replaces (vocabulary entries) later entry)
    (hmeans : Means (vocabulary entries) (asThreshold (thresholdKey entries) entry) setting) :
    (Policy.ofEntries entries).Has setting :=
  (follows_settings entries).has (labelsFirst_settings entries)
    (last?_of_means hsplit hlast hmeans)

end

end PolicyEntry

/-- The settings of a block of any lines build its policy. What a line says is in force there if no
line below it takes its place, whatever the other lines are. -/
theorem ofSettings_settings_readLines (lines : List Line) :
    let entries := PolicyEntry.readLines lines
    Policy.ofSettings (PolicyEntry.settings entries) = .ok (.ofLines lines) ∧
      ∀ (above below : List Line) (line : Line) (entry : PolicyEntry) (setting : Setting),
        lines = above ++ line :: below → PolicyEntry.readLine? line = some entry →
        (∀ later ∈ below, ∀ other, PolicyEntry.readLine? later = some other →
          ¬ PolicyEntry.Replaces (PolicyEntry.vocabulary entries) other entry) →
        PolicyEntry.Means (PolicyEntry.vocabulary entries)
          (PolicyEntry.asThreshold (PolicyEntry.thresholdKey entries) entry) setting →
        (Policy.ofLines lines).Has setting := by
  intro entries
  refine ⟨PolicyEntry.ofSettings_settings entries, ?_⟩
  intro above below line entry setting hsplit hread hlast hmeans
  have hentries : entries =
      PolicyEntry.readLines above ++ entry :: PolicyEntry.readLines below := by
    unfold entries PolicyEntry.readLines
    rw [hsplit, List.filterMap_append, List.filterMap_cons_some hread]
  refine PolicyEntry.has_of_means hentries ?_ hmeans
  intro later hlater
  obtain ⟨other, hother, hread'⟩ := List.mem_filterMap.1 hlater
  exact hlast other hother later hread'

/-- A cost stays between lines that cannot be used, a negative cost of the same label among them. -/
theorem ofSettings_settings_readLines_of_cost :
    let lines := Line.ofText
      "COST_BIG=9\nRISK_FIELD=1st\nCOST_VIP=7\nno entry\nLABELS=NONE,VIP\nCOST_VIP=-1"
    let entries := PolicyEntry.readLines lines
    ∃ above below line entry x, lines = above ++ line :: below ∧
      PolicyEntry.readLine? line = some entry ∧
      (∀ later ∈ below, ∀ other, PolicyEntry.readLine? later = some other →
        ¬ PolicyEntry.Replaces (PolicyEntry.vocabulary entries) other entry) ∧
      PolicyEntry.Means (PolicyEntry.vocabulary entries)
        (PolicyEntry.asThreshold (PolicyEntry.thresholdKey entries) entry)
        (.cost "VIP" (.finite x)) ∧
      finiteOfText? "7" = some x ∧ (Policy.ofLines lines).cost ⟨"VIP"⟩ = x := by
  intro lines entries
  let above : List Line := [⟨1, "COST_BIG=9"⟩, ⟨2, "RISK_FIELD=1st"⟩]
  let line : Line := ⟨3, "COST_VIP=7"⟩
  let below : List Line := [⟨4, "no entry"⟩, ⟨5, "LABELS=NONE,VIP"⟩, ⟨6, "COST_VIP=-1"⟩]
  let entry : PolicyEntry := ⟨"COST_VIP", "7"⟩
  have hsplit : lines = above ++ line :: below := by decide +kernel
  have hread : PolicyEntry.readLine? line = some entry := by decide +kernel
  have hvocabulary : PolicyEntry.vocabulary entries = ["NONE", "VIP"] := by decide +kernel
  have hlast : ∀ later ∈ below, ∀ other, PolicyEntry.readLine? later = some other →
      ¬ PolicyEntry.Replaces (PolicyEntry.vocabulary entries) other entry := by
    have hother : ∀ later ∈ below, ∀ other ∈ PolicyEntry.readLine? later, other.key = entry.key →
        PolicyEntry.said? ["NONE", "VIP"] other = none := by decide +kernel
    have hcost : PolicyEntry.costLabel? entry.key = some "VIP" := by decide +kernel
    rintro later hlater other hread ⟨hkey, hnone | ⟨setting, hmeans⟩⟩
    · rw [hcost] at hnone
      cases hnone
    · rw [hvocabulary, ← PolicyEntry.said?_eq_some_iff, hother later hlater other hread hkey]
        at hmeans
      cases hmeans
  obtain ⟨x, hx⟩ : ∃ x, finiteOfText? "7" = some x := Option.isSome_iff_exists.1 (by decide +kernel)
  have hmeans : PolicyEntry.Means (PolicyEntry.vocabulary entries)
      (PolicyEntry.asThreshold (PolicyEntry.thresholdKey entries) entry)
      (.cost "VIP" (.finite x)) := by
    have hthreshold : PolicyEntry.asThreshold (PolicyEntry.thresholdKey entries) entry = entry := by
      decide +kernel
    have hpos : ∀ y ∈ finiteOfText? "7", Quantity.zero ≤ y := by decide +kernel
    have hname : "VIP" ∈ ["NONE", "VIP"] := by decide
    rw [hthreshold, hvocabulary]
    exact .cost hx hname (hpos x hx)
  have hhas := (ofSettings_settings_readLines lines).2 above below line entry _ hsplit hread hlast
    hmeans
  exact ⟨above, below, line, entry, x, hsplit, hread, hlast, hmeans, hx, Number.finite.inj hhas⟩

/-! ## The order of the lines -/

/-- Blocks that give each key the same values in the same order have the same policy. -/
theorem policy_ofLines_congr {lines others : List Line}
    (h : ∀ key, PolicyEntry.valuesOf (PolicyEntry.readLines lines) key =
      PolicyEntry.valuesOf (PolicyEntry.readLines others) key) :
    Policy.ofLines lines = Policy.ofLines others := by
  have hbuilt := PolicyEntry.ofSettings_settings (PolicyEntry.readLines lines)
  have hsame := ofSettings_of_sameLast (PolicyEntry.sameLast_settings h)
    (PolicyEntry.labelsFirst_settings _) (PolicyEntry.labelsFirst_settings _) hbuilt
  rw [PolicyEntry.ofSettings_settings] at hsame
  exact (Except.ok.inj hsame).symm

/-- A cost above and below its labels, both keys of the threshold, and values that cannot be
used. -/
theorem policy_ofLines_congr_of_two_blocks :
    let lines := Line.ofText
      "COST_VIP=5\nMED_THRESHOLD=0.6\nLABELS=NONE,VIP\nHIGH_RISK_THRESHOLD=high\nCOST_VIP=x"
    let others := Line.ofText ("# offers\nHIGH_RISK_THRESHOLD=high\nlabels\nLABELS = NONE,VIP\n" ++
      "COST_VIP=5\n\n\tCOST_VIP=x\r\nMED_THRESHOLD=0.6\n")
    (∀ key, PolicyEntry.valuesOf (PolicyEntry.readLines lines) key =
      PolicyEntry.valuesOf (PolicyEntry.readLines others) key) ∧
      Policy.ofLines lines = Policy.ofLines others := by
  intro lines others
  have hlines : PolicyEntry.readLines lines = [⟨"COST_VIP", "5"⟩, ⟨"MED_THRESHOLD", "0.6"⟩,
      ⟨"LABELS", "NONE,VIP"⟩, ⟨"HIGH_RISK_THRESHOLD", "high"⟩, ⟨"COST_VIP", "x"⟩] := by
    decide +kernel
  have hothers : PolicyEntry.readLines others = [⟨"HIGH_RISK_THRESHOLD", "high"⟩,
      ⟨"LABELS", "NONE,VIP"⟩, ⟨"COST_VIP", "5"⟩, ⟨"COST_VIP", "x"⟩, ⟨"MED_THRESHOLD", "0.6"⟩] := by
    decide +kernel
  have h : ∀ key, PolicyEntry.valuesOf (PolicyEntry.readLines lines) key =
      PolicyEntry.valuesOf (PolicyEntry.readLines others) key := by
    intro key
    rw [hlines, hothers]
    simp only [PolicyEntry.valuesOf_cons]
    grind
  exact ⟨h, policy_ofLines_congr h⟩

end Retention
