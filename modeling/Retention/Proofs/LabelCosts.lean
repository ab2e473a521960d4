import Retention.Proofs.BuiltPolicies
import Retention.Proofs.RepeatedKeys

/-!
# Costs for the labels of a vocabulary

A line for the labels and a line for the cost of one of them are in force together, in either
order. Keys are made of upper case letters, digits and underscores, so no line gives a cost to a
label with any other character in it, and such a label costs nothing.
-/

namespace Retention

/-! ## The keys of entries -/

namespace PolicyEntry

theorem all_isKeyChar_of_read? {text : List Char} {entry : PolicyEntry}
    (h : read? text = some entry) : entry.key.toList.all isKeyChar := by
  unfold read? at h
  simp only at h
  split at h
  · split at h
    · cases h
    · obtain ⟨value, -, rfl⟩ := Option.map_eq_some_iff.1 h
      rw [String.toList_ofList]
      exact List.all_takeWhile
  · cases h

theorem all_isKeyChar_of_readLine? {line : Line} {entry : PolicyEntry}
    (h : readLine? line = some entry) : entry.key.toList.all isKeyChar := by
  unfold readLine? at h
  split at h
  · cases h
  · exact all_isKeyChar_of_read? h

/-- No entry gives a cost to a label with another character in its name. -/
theorem not_hasUsable_of_not_isKeyChar {name : String}
    (h : ¬ name.toList.all isKeyChar) (labels : List String) (lines : List Line) :
    ¬ HasUsable labels (readLines lines) ("COST_" ++ name) := by
  rintro ⟨entry, hentry, hkey, -⟩
  obtain ⟨line, -, hread⟩ := List.mem_filterMap.1 hentry
  have hchars := all_isKeyChar_of_readLine? hread
  rw [hkey, String.toList_append, List.all_append, Bool.and_eq_true] at hchars
  exact h hchars.2

theorem lookup?_of_last {entries before after : List PolicyEntry} {entry : PolicyEntry}
    (hsplit : entries = before ++ entry :: after)
    (hlast : ∀ later ∈ after, later.key ≠ entry.key) :
    lookup? entries entry.key = some entry.value := by
  rw [lookup?_eq_getLast?, hsplit, valuesOf_append, valuesOf_cons, if_pos rfl,
    valuesOf_eq_nil_iff.2 hlast, List.getLast?_concat]

end PolicyEntry

/-! ## The last line of a key -/

/-- The line stands in the block, and no line below it has an entry for the key. -/
def Line.IsLastOf (line : Line) (key : String) (lines : List Line) : Prop :=
  ∃ above below, lines = above ++ line :: below ∧
    ∀ later ∈ below, ∀ entry, PolicyEntry.readLine? later = some entry → entry.key ≠ key

section

variable {lines : List Line} {line : Line} {labels : List String} {name : String} {x : Quantity}

theorem Line.IsLastOf.exists_split {key : String} (h : line.IsLastOf key lines)
    {entry : PolicyEntry} (hread : PolicyEntry.readLine? line = some entry)
    (hkey : entry.key = key) :
    ∃ before after, PolicyEntry.readLines lines = before ++ entry :: after ∧
      ∀ later ∈ after, later.key ≠ entry.key := by
  obtain ⟨above, below, rfl, hlast⟩ := h
  refine ⟨PolicyEntry.readLines above, PolicyEntry.readLines below, ?_, ?_⟩
  · unfold PolicyEntry.readLines
    rw [List.filterMap_append, List.filterMap_cons_some hread]
  · intro later hlater
    obtain ⟨other, hother, hread'⟩ := List.mem_filterMap.1 hlater
    rw [hkey]
    exact hlast other hother later hread'

/-- The last line that gives labels gives the vocabulary. -/
theorem vocabulary_of_isLastOf (hlabels : ∀ label ∈ labels, isIdentifier label.toList)
    (hnodup : labels.Nodup) (hne : labels ≠ [])
    (hline : (Setting.labels labels).WritesLine line.chars) (hlast : line.IsLastOf "LABELS" lines) :
    PolicyEntry.vocabulary (PolicyEntry.readLines lines) = labels := by
  have hwritable : (Setting.labels labels).isWritable labels :=
    decide_eq_true ⟨hne, hnodup, hlabels⟩
  obtain ⟨entry, hread, hentered⟩ :=
    Setting.readLine?_of_writesLine hlabels hwritable hline line.number
  rw [Line.chars, String.ofList_toList] at hread
  obtain ⟨before, after, hsplit, hafter⟩ := hlast.exists_split hread hentered.1
  have hlookup := PolicyEntry.lookup?_of_last hsplit hafter
  have hsaid := Setting.said?_of_entered hwritable hentered
  rw [PolicyEntry.said?_eq_labels_iff] at hsaid
  rw [hsaid.1] at hlookup
  unfold PolicyEntry.vocabulary
  rw [hlookup, Option.bind_some, hsaid.2, Option.getD_some]

/-- The last line that gives a label of the vocabulary a cost is in force. -/
theorem cost_of_isLastOf (hlabels : ∀ label ∈ labels, isIdentifier label.toList)
    (hvocabulary : PolicyEntry.vocabulary (PolicyEntry.readLines lines) = labels)
    (hname : name ∈ labels) (hkey : name.toList.all PolicyEntry.isKeyChar)
    (hx : Quantity.zero ≤ x) (hline : (Setting.cost name (.finite x)).WritesLine line.chars)
    (hlast : line.IsLastOf ("COST_" ++ name) lines) :
    (Policy.ofLines lines).cost ⟨name⟩ = x := by
  have hwritable : (Setting.cost name (.finite x)).isWritable labels := by
    unfold Setting.isWritable
    exact decide_eq_true ⟨hname, hkey, decide_eq_true hx⟩
  obtain ⟨entry, hread, hentered⟩ :=
    Setting.readLine?_of_writesLine hlabels hwritable hline line.number
  rw [Line.chars, String.ofList_toList] at hread
  obtain ⟨before, after, hsplit, hafter⟩ := hlast.exists_split hread hentered.1
  have hmeans := PolicyEntry.means_of_said? (Setting.said?_of_entered hwritable hentered)
  rw [← hvocabulary] at hmeans
  have hunusable : ¬ PolicyEntry.HasUsable (PolicyEntry.vocabulary (PolicyEntry.readLines lines))
      after entry.key := by
    rintro ⟨later, hlater, hsame, -⟩
    exact hafter later hlater hsame
  unfold Policy.cost Policy.ofLines
  rw [PolicyEntry.cost_of_means hsplit hmeans hunusable, Option.getD_some]

/-- A label that no key can name costs nothing. -/
theorem cost_of_not_isKeyChar (h : ¬ name.toList.all PolicyEntry.isKeyChar) (lines : List Line) :
    (Policy.ofLines lines).cost ⟨name⟩ = .zero := by
  have hupper : ∀ label ∈ standardLabels, label.toList.all PolicyEntry.isKeyChar := by decide
  have hstandard := PolicyEntry.standard_cost?_eq name
  rw [← Setting.standard_cost?_of_mem, if_neg fun hmem => h (hupper name hmem),
    Option.map_eq_none_iff] at hstandard
  unfold Policy.cost Policy.ofLines
  rw [PolicyEntry.cost_of_not_hasUsable (PolicyEntry.not_hasUsable_of_not_isKeyChar h _ lines),
    hstandard, ite_self, Option.getD_none]

/-- Of the labels in a line, each that a key can name costs what the line for its cost says, and
every other label costs nothing. It does not matter which of the lines comes first. -/
theorem cost_of_labels_line_and_cost_line {labelsLine costLine : Line}
    (hlabels : ∀ label ∈ labels, isIdentifier label.toList) (hnodup : labels.Nodup)
    (hname : name ∈ labels) (hx : Quantity.zero ≤ x)
    (hlabelsLine : (Setting.labels labels).WritesLine labelsLine.chars)
    (hcostLine : (Setting.cost name (.finite x)).WritesLine costLine.chars)
    (hlabelsLast : labelsLine.IsLastOf "LABELS" lines)
    (hcostLast : costLine.IsLastOf ("COST_" ++ name) lines) :
    (Policy.ofLines lines).labels = labels.map Label.mk ∧
      (Policy.ofLines lines).cost ⟨name⟩ =
        if name.toList.all PolicyEntry.isKeyChar then x else .zero := by
  have hvocabulary := vocabulary_of_isLastOf hlabels hnodup (List.ne_nil_of_mem hname) hlabelsLine
    hlabelsLast
  constructor
  · unfold Policy.ofLines
    rw [(PolicyEntry.follows_settings _).labels, PolicyEntry.vocabulary_settings, hvocabulary]
  · split
    · rename_i hkey
      exact cost_of_isLastOf hlabels hvocabulary hname hkey hx hcostLine hcostLast
    · rename_i hkey
      exact cost_of_not_isKeyChar hkey lines

end

/-- A label with a digit, a cost with an exponent, and the two lines in both orders. -/
theorem cost_of_labels_line_and_cost_line_of_both_orders :
    let labels := ["NONE", "V2", "vip"]
    let x : Quantity := .ofNat 15 (by decide)
    let labelsLine : Line := ⟨1, "LABELS=NONE, V2,vip"⟩
    let costLine : Line := ⟨2, "COST_V2 = 1.5e1\r"⟩
    (∀ label ∈ labels, isIdentifier label.toList) ∧ labels.Nodup ∧ "V2" ∈ labels ∧
      Quantity.zero ≤ x ∧ (Setting.labels labels).WritesLine labelsLine.chars ∧
      (Setting.cost "V2" (.finite x)).WritesLine costLine.chars ∧
      ∀ lines ∈ [[labelsLine, costLine], [costLine, labelsLine]],
        labelsLine.IsLastOf "LABELS" lines ∧ costLine.IsLastOf ("COST_" ++ "V2") lines ∧
          (Policy.ofLines lines).labels = labels.map Label.mk ∧
          (Policy.ofLines lines).cost ⟨"V2"⟩ = x := by
  intro labels x labelsLine costLine
  have hlabels : ∀ label ∈ labels, isIdentifier label.toList := by decide
  have hnodup : labels.Nodup := by decide
  have hname : "V2" ∈ labels := by decide
  have hx : Quantity.zero ≤ x := by decide +kernel
  have hlabelsLine : (Setting.labels labels).WritesLine labelsLine.chars := by
    have hvalue : (Setting.labels labels).WritesValue "NONE, V2,vip".toList :=
      @WritesNames.cons "NONE" _ [] [' '] _ rfl rfl
        (@WritesNames.cons "V2" _ [] [] _ rfl rfl (.last "vip"))
    exact ⟨[], [], "NONE, V2,vip".toList, [], rfl, rfl, rfl, by decide, hvalue, by decide⟩
  have hcostLine : (Setting.cost "V2" (.finite x)).WritesLine costLine.chars := by
    have hvalue : (Setting.cost "V2" (.finite x)).WritesValue "1.5e1".toList := by
      unfold Setting.WritesValue
      decide +kernel
    exact ⟨[' '], [' '], "1.5e1".toList, ['\r'], rfl, rfl, rfl, by decide, hvalue, by decide⟩
  refine ⟨hlabels, hnodup, hname, hx, hlabelsLine, hcostLine, ?_⟩
  have hkeys : (∀ entry ∈ PolicyEntry.readLine? costLine, entry.key ≠ "LABELS") ∧
      ∀ entry ∈ PolicyEntry.readLine? labelsLine, entry.key ≠ "COST_" ++ "V2" := by
    decide +kernel
  have hlast : ∀ lines ∈ [[labelsLine, costLine], [costLine, labelsLine]],
      labelsLine.IsLastOf "LABELS" lines ∧ costLine.IsLastOf ("COST_" ++ "V2") lines := by
    have hnone : ∀ key, ∀ later ∈ ([] : List Line), ∀ entry,
        PolicyEntry.readLine? later = some entry → entry.key ≠ key := by simp
    simp only [List.forall_mem_cons]
    refine ⟨⟨⟨[], [costLine], rfl, ?_⟩, ⟨[labelsLine], [], rfl, hnone _⟩⟩,
      ⟨⟨[costLine], [], rfl, hnone _⟩, ⟨[], [labelsLine], rfl, ?_⟩⟩, List.forall_mem_nil _⟩
    · simpa using hkeys.1
    · simpa using hkeys.2
  intro lines hlines
  obtain ⟨hlabelsLast, hcostLast⟩ := hlast lines hlines
  exact ⟨hlabelsLast, hcostLast, cost_of_labels_line_and_cost_line hlabels hnodup hname hx
    hlabelsLine hcostLine hlabelsLast hcostLast⟩

/-- A label in lower case is in the vocabulary, but the line for its cost has no entry. -/
theorem cost_of_lowercase_label :
    let labels := ["none", "voucher"]
    let x : Quantity := .ofNat 15 (by decide)
    let lines := Line.ofText "LABELS=none,voucher\nCOST_voucher=15"
    (∀ label ∈ labels, isIdentifier label.toList) ∧ labels.Nodup ∧
      (Policy.ofLines lines).labels = labels.map Label.mk ∧
      finiteOfText? "15" = some x ∧ Quantity.zero ≤ x ∧
      (Policy.ofLines lines).cost ⟨"voucher"⟩ ≠ x ∧
      (Policy.ofLines lines.reverse).cost ⟨"voucher"⟩ ≠ x := by
  decide +kernel

end Retention
