import Retention.Proofs.Blocks
import Retention.Proofs.Grammar.Writable
import Retention.Proofs.Policy.Runs
import Retention.Proofs.Policy.Values

/-!
# Settings as the text of a policy

Settings are written one on a line, with blank lines and notes between them, under the header of
the policy section. The lines are read back as one entry for each setting.
-/

namespace Retention

namespace Setting

/-! ## Settings that can be written -/

/-- A key that means no setting of its own. -/
def isFreeKey (key : List Char) : Bool :=
  key ≠ [] ∧ key.all PolicyEntry.isKeyChar ∧ String.ofList key ∉ PolicyEntry.settingKeys ∧
    String.ofList key ≠ "MED_THRESHOLD" ∧ ¬ "COST_".toList.isPrefixOf key

/-- What the text of a policy can say under a vocabulary. -/
def isWritable (labels : List String) : Setting → Bool
  | .labels names => names ≠ [] ∧ names.Nodup ∧ ∀ name ∈ names, isIdentifier name.toList
  | .defaultLabel name => name ∈ labels
  | .cost name value => name ∈ labels ∧ name.toList.all PolicyEntry.isKeyChar ∧
    value.finite?.any (Quantity.zero ≤ ·)
  | .riskField name | .segmentField name => isFieldName name.toList
  | .threshold value => value.finite?.isSome
  | .extra key value => isFreeKey key.toList ∧ isValueText value.toList

/-- Some settings, each of them once and each of them one that can be written. -/
structure Chosen (settings : List Setting) : Prop where
  keys_nodup : (settings.map key).Nodup
  writable : ∀ setting ∈ settings, setting.isWritable (vocabulary settings)

theorem isUsable_of_isWritable {labels : List String} {setting : Setting}
    (h : setting.isWritable labels) : setting.isUsable labels := by
  unfold isWritable at h
  unfold isUsable
  cases setting with
  | cost name value =>
    rw [decide_eq_true_eq] at h ⊢
    exact ⟨h.1, h.2.2⟩
  | extra key value => rfl
  | _ => exact h

theorem isUsable_of_chosen {settings : List Setting} (h : Chosen settings) :
    ∀ setting ∈ settings, setting.isUsable (vocabulary settings) :=
  fun setting hmem => isUsable_of_isWritable (h.writable setting hmem)

/-! ## Lines -/

/-- The texts for what a setting sets. A number has every text that is read as it. -/
def WritesValue : Setting → List Char → Prop
  | .labels names, text => WritesNames names text
  | .cost _ value, text | .threshold value, text => Number.read? text = some value
  | .defaultLabel value, text | .riskField value, text | .segmentField value, text
  | .extra _ value, text => text = value.toList

/-- A key and a value with spaces around the equals sign. Blanks may follow, and so may the
carriage return of a line end. -/
def WritesLine (setting : Setting) (line : List Char) : Prop :=
  ∃ before after value tail, before.all isSpace ∧ after.all isSpace ∧ isBlankText tail ∧
    '\n' ∉ tail ∧ setting.WritesValue value ∧
    line = setting.key.toList ++ before ++ '=' :: (after ++ value ++ tail)

/-- A line that says nothing. -/
def isIdle (line : List Char) : Bool := isBlankText line || PolicyEntry.isNote (trimStart line)

/-- Lines for some settings, in their order. -/
inductive WritesLines : List Setting → List (List Char) → Prop
  | nil : WritesLines [] []
  | idle {settings : List Setting} {line : List Char} {lines : List (List Char)} :
    isIdle line → '\n' ∉ line → WritesLines settings lines → WritesLines settings (line :: lines)
  | cons {setting : Setting} {settings : List Setting} {line : List Char}
    {lines : List (List Char)} : setting.WritesLine line → WritesLines settings lines →
    WritesLines (setting :: settings) (line :: lines)

/-- The header of the policy section and lines for some settings under it. -/
def WritesPolicy (settings : List Setting) (text : List Char) : Prop :=
  ∃ header ending lines, opensSection Document.policyName header ∧
    (ending = ['\n'] ∨ ending = ['\r', '\n']) ∧ WritesLines settings lines ∧
    text = header ++ ending ++ ['\n'].intercalate lines

/-! ## Values -/

section

variable {labels : List String} {setting : Setting}

theorem key_of_isWritable (h : setting.isWritable labels) :
    setting.key.toList ≠ [] ∧ setting.key.toList.all PolicyEntry.isKeyChar := by
  unfold isWritable at h
  cases setting with
  | cost name value =>
    simp only [decide_eq_true_eq] at h
    have hcost : "COST_".toList.all PolicyEntry.isKeyChar := by decide
    rw [key, String.toList_append, List.all_append, hcost, h.2.1]
    simp
  | extra other value =>
    simp only [decide_eq_true_eq, isFreeKey] at h
    exact ⟨h.1.1, h.1.2.1⟩
  | _ =>
    simp only [key]
    decide

theorem exists_keyChar_of_isWritable (h : setting.isWritable labels) :
    ∃ c rest, setting.key.toList = c :: rest ∧ PolicyEntry.isKeyChar c := by
  obtain ⟨hne, hkey⟩ := key_of_isWritable h
  obtain ⟨c, rest, hcons⟩ := List.exists_cons_of_ne_nil hne
  exact ⟨c, rest, hcons, List.all_eq_true.1 hkey c (by simp [hcons])⟩

theorem isValueText_of_writesValue (hlabels : ∀ name ∈ labels, isIdentifier name.toList)
    (h : setting.isWritable labels) {value : List Char} (hvalue : setting.WritesValue value) :
    isValueText value := by
  unfold isWritable at h
  unfold WritesValue at hvalue
  cases setting with
  | labels names =>
    simp only [decide_eq_true_eq] at h
    exact isValueText_of_writesNames hvalue h.2.2
  | defaultLabel name =>
    simp only [decide_eq_true_eq] at h
    rw [hvalue]
    exact isValueText_of_isFieldName (isFieldName_of_isIdentifier _ (hlabels name h))
  | cost name cost =>
    simp only [decide_eq_true_eq, Option.any_eq_true] at h
    obtain ⟨-, -, x, hx, -⟩ := h
    rw [(Number.finite?_eq_some_iff cost x).1 hx] at hvalue
    exact Number.isValueText_of_read? hvalue
  | threshold value =>
    obtain ⟨x, hx⟩ := Option.isSome_iff_exists.1 h
    rw [(Number.finite?_eq_some_iff value x).1 hx] at hvalue
    exact Number.isValueText_of_read? hvalue
  | riskField name | segmentField name =>
    rw [hvalue]
    exact isValueText_of_isFieldName h
  | extra other text =>
    simp only [decide_eq_true_eq] at h
    rw [hvalue]
    exact h.2

theorem exists_writesValue (h : setting.isWritable labels) :
    ∃ value, setting.WritesValue value := by
  have hnumber : ∀ n : Number, n.finite?.isSome → ∃ text, Number.read? text = some n := by
    intro n hn
    obtain ⟨x, hx⟩ := Option.isSome_iff_exists.1 hn
    obtain ⟨numeral, -, hnumeral⟩ := exists_numeral_of_finite x
    refine ⟨numeral.text, ?_⟩
    rw [numeral.read?_text, hnumeral, (Number.finite?_eq_some_iff n x).1 hx]
  unfold isWritable at h
  unfold WritesValue
  cases setting with
  | labels names =>
    simp only [decide_eq_true_eq] at h
    exact exists_writesNames h.1
  | cost name value =>
    simp only [decide_eq_true_eq] at h
    exact hnumber value (Option.isSome_of_any h.2.2)
  | threshold value => exact hnumber value h
  | _ => exact ⟨_, rfl⟩

end

end Setting

/-! ## Reading a line -/

namespace PolicyEntry

theorem readLine?_congr {m n : Nat} {a b : List Char} (h : trim a = trim b) :
    readLine? ⟨m, String.ofList a⟩ = readLine? ⟨n, String.ofList b⟩ := by
  unfold readLine? Line.trimmed Line.chars
  simp only [String.toList_ofList, h]

theorem isWordChar_of_isKeyChar {c : Char} (h : isKeyChar c) : isWordChar c := by
  have halpha : c.isAlpha = (c.isUpper || c.isLower) := rfl
  simp only [isKeyChar, isWordChar, Char.isAlphanum, halpha, Bool.or_eq_true] at h ⊢
  rcases h with (h | h) | h <;> simp [h]

theorem isNote_of_isKeyChar {c : Char} (h : isKeyChar c) (rest : List Char) :
    isNote (c :: rest) = false := by
  have hslash : c ≠ '/' := by
    rintro rfl
    cases h
  have hhash : c ≠ '#' := by
    rintro rfl
    cases h
  simp [isNote, List.isPrefixOf, Ne.symm hslash, Ne.symm hhash]

theorem isNote_trimEnd {text : List Char} (h : isNote text) : isNote (trimEnd text) := by
  have hblank : isBlank '/' = false ∧ isBlank '#' = false := by decide
  unfold isNote at h ⊢
  simp only [Bool.or_eq_true, List.isPrefixOf_iff_prefix] at h ⊢
  rcases h with ⟨rest, rfl⟩ | ⟨rest, rfl⟩
  · exact .inl ⟨trimEnd rest, (trimEnd_append_cons hblank.1 ['/'] rest).symm⟩
  · exact .inr ⟨trimEnd rest, (trimEnd_append_cons hblank.2 [] rest).symm⟩

variable {key before after value : List Char}

theorem readValue?_append (hafter : after.all isSpace) (hvalue : isValueText value) :
    readValue? (after ++ value) = some (String.ofList value) := by
  obtain ⟨⟨c, rest, hstart, hc⟩, ⟨front, d, hend, hd⟩, hbreak⟩ := isValueText_iff.1 hvalue
  have hspace : isSpace c = false := by
    rw [Bool.eq_false_iff]
    intro hspace
    rw [isBlank_of_isSpace c hspace] at hc
    cases hc
  have hdrop : (after ++ value).dropWhile isSpace = value := by
    rw [List.dropWhile_append_of_pos (List.all_eq_true.1 hafter), hstart,
      List.dropWhile_cons_of_neg (by simp [hspace])]
  have htrim : trimEnd value = value := by
    rw [hend, trimEnd_append_cons hd]
    rfl
  unfold readValue?
  simp only [hdrop, htrim]
  rw [if_neg]
  rw [not_or, List.any_eq_true]
  refine ⟨by simp [hstart], ?_⟩
  rintro ⟨c, hmem, hc⟩
  simp only [decide_eq_true_eq] at hc
  exact hc.elim (hbreak c hmem).1 (hbreak c hmem).2

theorem read?_append (hne : key ≠ []) (hkey : key.all isKeyChar) (hbefore : before.all isSpace)
    (hafter : after.all isSpace) (hvalue : isValueText value) :
    read? (key ++ before ++ '=' :: (after ++ value)) =
      some ⟨String.ofList key, String.ofList value⟩ := by
  have hrest : startsWith isKeyChar (before ++ '=' :: (after ++ value)) = false := by
    cases before with
    | nil => rfl
    | cons c before =>
      have hc := List.all_eq_true.1 hbefore c List.mem_cons_self
      simp only [isSpace, decide_eq_true_eq] at hc
      rcases hc with rfl | rfl <;> rfl
  obtain ⟨htake, hdrop⟩ := Reader.takeWhile_eq_and_dropWhile_eq_iff.2
    ⟨List.append_assoc key before _, hkey, hrest⟩
  have hspaces : (before ++ '=' :: (after ++ value)).dropWhile isSpace =
      '=' :: (after ++ value) := by
    rw [List.dropWhile_append_of_pos (List.all_eq_true.1 hbefore), List.dropWhile_cons_of_neg]
    decide
  unfold read?
  simp only [← htake, ← hdrop, hspaces, if_neg hne, readValue?_append hafter hvalue]
  rfl

end PolicyEntry

namespace Setting

variable {labels : List String} {setting : Setting}

/-- An entry that gives the value of a setting under its key. -/
def Entered (setting : Setting) (entry : PolicyEntry) : Prop :=
  entry.key = setting.key ∧ setting.WritesValue entry.value.toList

/-- A line of a setting from its key to the end of its value. -/
theorem exists_trim_of_writesLine (hlabels : ∀ name ∈ labels, isIdentifier name.toList)
    (h : setting.isWritable labels) {line : List Char} (hline : setting.WritesLine line) :
    ∃ before after value, before.all isSpace ∧ after.all isSpace ∧ setting.WritesValue value ∧
      trim line = setting.key.toList ++ before ++ '=' :: (after ++ value) := by
  obtain ⟨before, after, value, tail, hbefore, hafter, htail, -, hvalue, rfl⟩ := hline
  refine ⟨before, after, value, hbefore, hafter, hvalue, ?_⟩
  have hsplit : setting.key.toList ++ before ++ '=' :: (after ++ value ++ tail) =
      [] ++ (setting.key.toList ++ before ++ '=' :: (after ++ value)) ++ tail := by simp
  obtain ⟨c, key, hkey, hc⟩ := exists_keyChar_of_isWritable h
  obtain ⟨-, hend, -⟩ := isValueText_iff.1 (isValueText_of_writesValue hlabels h hvalue)
  rw [hsplit, trim_append_blanks rfl htail]
  have hstart : setting.key.toList ++ before ++ '=' :: (after ++ value) =
      c :: (key ++ before ++ '=' :: (after ++ value)) := by simp [hkey]
  have hblank : isBlank c = false :=
    isBlank_eq_false_of_isWordChar (PolicyEntry.isWordChar_of_isKeyChar hc)
  refine trim_eq_self (by rw [hstart, startsWith_cons, hblank]) ?_
  simpa using hend.append_left (setting.key.toList ++ before ++ '=' :: after)

theorem readLine?_of_writesLine (hlabels : ∀ name ∈ labels, isIdentifier name.toList)
    (h : setting.isWritable labels) {line : List Char} (hline : setting.WritesLine line)
    (number : Nat) : ∃ entry, PolicyEntry.readLine? ⟨number, String.ofList line⟩ = some entry ∧
      setting.Entered entry := by
  obtain ⟨hne, hkey⟩ := key_of_isWritable h
  obtain ⟨c, key, hcons, hc⟩ := exists_keyChar_of_isWritable h
  obtain ⟨before, after, value, hbefore, hafter, hvalue, htrim⟩ :=
    exists_trim_of_writesLine hlabels h hline
  have hread := PolicyEntry.read?_append hne hkey hbefore hafter
    (isValueText_of_writesValue hlabels h hvalue)
  refine ⟨⟨setting.key, String.ofList value⟩, ?_, rfl, by rwa [String.toList_ofList]⟩
  unfold PolicyEntry.readLine? Line.trimmed Line.chars
  rw [String.toList_ofList, htrim, hread, if_neg, String.ofList_toList]
  rw [hcons, List.cons_append, List.cons_append, not_or, PolicyEntry.isNote_of_isKeyChar hc]
  exact ⟨List.cons_ne_nil c _, Bool.false_ne_true⟩

theorem readLine?_of_isIdle {line : List Char} (h : isIdle line) (number : Nat) :
    PolicyEntry.readLine? ⟨number, String.ofList line⟩ = none := by
  unfold PolicyEntry.readLine? Line.trimmed Line.chars
  rw [String.toList_ofList, if_pos]
  unfold isIdle at h
  rw [Bool.or_eq_true] at h
  rcases h with h | h
  · exact .inl ((trim_eq_nil_iff line).2 h)
  · exact .inr (PolicyEntry.isNote_trimEnd h)

theorem newline_notMem_of_writesLine (hlabels : ∀ name ∈ labels, isIdentifier name.toList)
    (h : setting.isWritable labels) {line : List Char} (hline : setting.WritesLine line) :
    '\n' ∉ line := by
  obtain ⟨before, after, value, tail, hbefore, hafter, -, htail, hvalue, rfl⟩ := hline
  have hkey := newline_notMem_of_all rfl (key_of_isWritable h).2
  have hspaces : ∀ {gap : List Char}, gap.all isSpace → '\n' ∉ gap :=
    fun hgap => newline_notMem_of_all rfl hgap
  have hvalue' : '\n' ∉ value := fun hmem =>
    ((isValueText_iff.1 (isValueText_of_writesValue hlabels h hvalue)).2.2 _ hmem).1 rfl
  simp [hkey, hspaces hbefore, hspaces hafter, hvalue', htail]

theorem head_trim_of_writesLine (hlabels : ∀ name ∈ labels, isIdentifier name.toList)
    (h : setting.isWritable labels) {line : List Char} (hline : setting.WritesLine line) :
    (trim line).head? ≠ some '[' := by
  obtain ⟨c, rest, hkey, hc⟩ := exists_keyChar_of_isWritable h
  obtain ⟨before, after, value, -, -, -, htrim⟩ := exists_trim_of_writesLine hlabels h hline
  rw [htrim, hkey, List.cons_append, List.cons_append, List.head?_cons, Ne, Option.some.injEq]
  rintro rfl
  cases hc

theorem head_trim_of_isIdle {line : List Char} (h : isIdle line) :
    (trim line).head? ≠ some '[' := by
  intro hhead
  unfold isIdle at h
  rw [Bool.or_eq_true] at h
  rcases h with h | h
  · rw [(trim_eq_nil_iff line).2 h] at hhead
    cases hhead
  · have hnote : PolicyEntry.isNote (trim line) := PolicyEntry.isNote_trimEnd h
    obtain ⟨rest, hrest⟩ := List.head?_eq_some_iff.1 hhead
    rw [hrest] at hnote
    cases hnote

/-! ## Reading the section -/

variable {settings : List Setting} {lines : List (List Char)}

theorem of_mem_writesLines (hlabels : ∀ name ∈ labels, isIdentifier name.toList)
    (hwritable : ∀ setting ∈ settings, setting.isWritable labels) (h : WritesLines settings lines) :
    ∀ line ∈ lines, '\n' ∉ line ∧ (trim line).head? ≠ some '[' := by
  induction h with
  | nil => exact List.forall_mem_nil _
  | idle hidle hnewline _ ih =>
    exact List.forall_mem_cons.2 ⟨⟨hnewline, head_trim_of_isIdle hidle⟩, ih hwritable⟩
  | cons hline _ ih =>
    rw [List.forall_mem_cons] at hwritable
    refine List.forall_mem_cons.2 ⟨⟨?_, ?_⟩, ih hwritable.2⟩
    · exact newline_notMem_of_writesLine hlabels hwritable.1 hline
    · exact head_trim_of_writesLine hlabels hwritable.1 hline

/-- The lines are read as one entry for each setting. -/
theorem entered_of_writesLines (hlabels : ∀ name ∈ labels, isIdentifier name.toList)
    (hwritable : ∀ setting ∈ settings, setting.isWritable labels) (h : WritesLines settings lines)
    (start : Nat) :
    List.Forall₂ Entered settings (PolicyEntry.readLines (Line.numbered start lines)) := by
  unfold PolicyEntry.readLines
  induction h generalizing start with
  | nil => exact .nil
  | idle hidle _ _ ih =>
    rw [Line.numbered, List.filterMap_cons_none (readLine?_of_isIdle hidle start)]
    exact ih hwritable (start + 1)
  | cons hline _ ih =>
    rw [List.forall_mem_cons] at hwritable
    obtain ⟨entry, hread, hentered⟩ := readLine?_of_writesLine hlabels hwritable.1 hline start
    rw [Line.numbered, List.filterMap_cons_some hread]
    exact .cons hentered (ih hwritable.2 (start + 1))

end Setting

/-! ## Headers -/

theorem exists_of_headerName? {line : List Char} {name : String}
    (h : headerName? line = some name) : ∃ gap tail, gap.all isSpace ∧ tail.all isSpace ∧
      isIdentifier name.toList ∧ line = gap ++ '[' :: (name.toList ++ ']' :: tail) := by
  unfold headerName? at h
  simp only at h
  split at h
  · rename_i rest hrest
    split at h
    · rename_i tail htail
      split at h
      · rename_i hname
        cases h
        rw [String.toList_ofList]
        refine ⟨line.takeWhile isSpace, tail, List.all_takeWhile, hname.2, hname.1, ?_⟩
        rw [← htail, List.takeWhile_append_dropWhile, ← hrest, List.takeWhile_append_dropWhile]
      · cases h
    · cases h
  · cases h

theorem isPlain_of_head_trim {line : List Char} (h : (trim line).head? ≠ some '[') :
    isPlain line := by
  unfold isPlain
  rw [Option.isNone_iff_eq_none, Option.eq_none_iff_forall_ne_some]
  intro name hname
  obtain ⟨gap, tail, hgap, -, -, rfl⟩ := exists_of_headerName? hname
  have hbracket : isBlank '[' = false := by decide
  have hstart : trimStart (gap ++ '[' :: (name.toList ++ ']' :: tail)) =
      '[' :: (name.toList ++ ']' :: tail) := by
    unfold trimStart
    rw [List.dropWhile_append_of_pos (List.all_eq_true.1 (isBlankText_of_isSpace hgap)),
      List.dropWhile_cons_of_neg (by decide)]
  apply h
  rw [trim, hstart]
  exact congrArg List.head? (trimEnd_append_cons hbracket [] _)

theorem ne_lineEnd_of_opensSection {name : String} {line : List Char} (h : opensSection name line) :
    ∀ c ∈ line, c ≠ '\n' ∧ c ≠ '\r' := by
  obtain ⟨found, hfound, -⟩ := (Option.any_eq_true _ _).1 h
  obtain ⟨gap, tail, hgap, htail, hname, rfl⟩ := exists_of_headerName? hfound
  have hunbroken := unbroken_of_isFieldName (isFieldName_of_isIdentifier _ hname)
  intro c hc
  simp only [List.mem_append, List.mem_cons] at hc
  rcases hc with hc | rfl | hc | rfl | hc
  · exact ne_of_isSpace (List.all_eq_true.1 hgap c hc)
  · decide
  · exact ne_lineEnd_of_isBlank (hunbroken c hc)
  · decide
  · exact ne_of_isSpace (List.all_eq_true.1 htail c hc)

theorem splitLines_append_header {name : String} {header ending : List Char}
    (h : opensSection name header) (hending : ending = ['\n'] ∨ ending = ['\r', '\n'])
    (rest : List Char) : splitLines (header ++ ending ++ rest) = header :: splitLines rest := by
  have hbreak := ne_lineEnd_of_opensSection h
  have hnewline : '\n' ∉ header := fun hmem => (hbreak _ hmem).1 rfl
  rw [List.append_assoc]
  rcases hending with rfl | rfl
  · refine splitLines_append_newline hnewline ?_ rest
    exact fun hlast => (hbreak _ (List.mem_of_getLast? hlast)).2 rfl
  · exact splitLines_append_return hnewline rest

namespace Setting

variable {settings : List Setting}

theorem vocabulary_of_chosen (h : Chosen settings) :
    vocabulary settings ≠ [] ∧ (vocabulary settings).Nodup ∧
      ∀ name ∈ vocabulary settings, isIdentifier name.toList :=
  vocabulary_of_usable (isUsable_of_chosen h)

theorem exists_writesLines {labels : List String}
    (h : ∀ setting ∈ settings, setting.isWritable labels) :
    ∃ lines, WritesLines settings lines := by
  induction settings with
  | nil => exact ⟨[], .nil⟩
  | cons setting rest ih =>
    rw [List.forall_mem_cons] at h
    obtain ⟨value, hvalue⟩ := exists_writesValue h.1
    obtain ⟨lines, hlines⟩ := ih h.2
    have hline : setting.WritesLine (setting.key.toList ++ [] ++ '=' :: ([] ++ value ++ [])) :=
      ⟨[], [], value, [], rfl, rfl, rfl, by simp, hvalue, rfl⟩
    exact ⟨_, .cons hline hlines⟩

/-- A text that writes some settings gives the policy of their entries. -/
theorem exists_entries_of_writesPolicy (hchosen : Chosen settings) {text : String}
    (h : WritesPolicy settings text.toList) :
    ∃ entries, List.Forall₂ Entered settings entries ∧ Policy.parse text = .ofEntries entries := by
  obtain ⟨header, ending, lines, hheader, hending, hlines, htext⟩ := h
  have hlabels := (vocabulary_of_chosen hchosen).2.2
  have hall := of_mem_writesLines hlabels hchosen.writable hlines
  have hnewline : ∀ line ∈ lines, '\n' ∉ line := fun line hline => (hall line hline).1
  -- No line of the section is a header, so the section reaches to the end of the text.
  have hplain : (splitLines (['\n'].intercalate lines)).takeWhile isPlain =
      splitLines (['\n'].intercalate lines) := by
    rw [List.takeWhile_eq_self_iff]
    intro line hline
    obtain ⟨other, hother, htrim⟩ := exists_mem_of_mem_splitLines_join hnewline hline
    apply isPlain_of_head_trim
    rw [htrim]
    exact (hall other hother).2
  have hread : PolicyEntry.readLines (Line.numbered 2 (splitLines (['\n'].intercalate lines))) =
      PolicyEntry.readLines (Line.numbered 2 lines) :=
    filterMap_splitLines_join (fun _ => rfl) (fun _ _ _ => PolicyEntry.readLine?_congr) hnewline 2
  refine ⟨_, entered_of_writesLines hlabels hchosen.writable hlines 2, ?_⟩
  rw [policy_parse_eq_ofBlock, htext, splitLines_append_header hheader hending,
    Block.under?_cons, if_pos hheader, hplain]
  exact congrArg Policy.ofEntries hread

theorem exists_writesPolicy (hchosen : Chosen settings) :
    ∃ text : String, WritesPolicy settings text.toList := by
  obtain ⟨lines, hlines⟩ := exists_writesLines hchosen.writable
  let header := "[POLICY]".toList
  have hheader : opensSection Document.policyName header := by decide
  exact ⟨String.ofList (header ++ ['\n'] ++ ['\n'].intercalate lines), header, ['\n'], lines,
    hheader, .inl rfl, hlines, String.toList_ofList⟩

end Setting

end Retention
