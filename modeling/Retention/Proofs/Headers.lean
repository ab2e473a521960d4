import Retention.Proofs.Lists
import Retention.Proofs.Policy.Writing

/-!
# Header lines

The trimmed content of a header line is an identifier in brackets. The converse holds of lines in
which every blank is a space or a tab. A line with another blank, such as a no-break space behind
its bracket, opens no section: it stays in the section above it, and so do the lines below it.
-/

namespace Retention

/-! ## Trimming -/

theorem exists_append_trimEnd (text : List Char) :
    ∃ tail, isBlankText tail ∧ text = trimEnd text ++ tail := by
  refine ⟨(text.reverse.takeWhile isBlank).reverse, ?_, ?_⟩
  · rw [isBlankText, List.all_reverse]
    exact List.all_takeWhile
  · rw [trimEnd, ← List.reverse_append, List.takeWhile_append_dropWhile, List.reverse_reverse]

theorem exists_append_trim (text : List Char) :
    ∃ lead tail, isBlankText lead ∧ isBlankText tail ∧ text = lead ++ trim text ++ tail := by
  obtain ⟨tail, htail, hsplit⟩ := exists_append_trimEnd (trimStart text)
  refine ⟨text.takeWhile isBlank, tail, List.all_takeWhile, htail, ?_⟩
  rw [List.append_assoc, trim, ← hsplit, trimStart, List.takeWhile_append_dropWhile]

theorem trim_trim (text : List Char) : trim (trim text) = trim text := by
  obtain ⟨lead, tail, hlead, htail, hsplit⟩ := exists_append_trim text
  conv_rhs => rw [hsplit]
  exact (trim_append_blanks hlead htail (trim text)).symm

/-! ## A header line -/

/-- An identifier in brackets. -/
def bracketed (name : List Char) : List Char := '[' :: (name ++ [']'])

/-- Every blank in the text is a space or a tab. -/
def PlainBlanks (text : List Char) : Prop := ∀ c ∈ text, isBlank c → isSpace c

section

variable {text name : List Char}

theorem trim_bracketed (name : List Char) : trim (bracketed name) = bracketed name :=
  trim_eq_self rfl ⟨'[' :: name, ']', rfl, by decide⟩

theorem isBlank_of_mem_bracketed (h : isIdentifier name) :
    ∀ c ∈ bracketed name, isBlank c = false := by
  have hunbroken := unbroken_of_isFieldName (isFieldName_of_isIdentifier name h)
  intro c hc
  simp only [bracketed, List.mem_cons, List.mem_append, List.not_mem_nil, or_false] at hc
  rcases hc with rfl | hc | rfl
  · decide
  · exact hunbroken c hc
  · decide

theorem headerName?_append_bracketed {gap tail : List Char} (hgap : gap.all isSpace)
    (htail : tail.all isSpace) (hname : isIdentifier name) :
    headerName? (gap ++ bracketed name ++ tail) = some (String.ofList name) := by
  have hchars : name.all isWordChar := by
    cases name with
    | nil => rfl
    | cons c rest =>
      simp only [isIdentifier, Bool.and_eq_true] at hname
      rw [List.all_cons, isWordChar_of_isWordStart c hname.1, hname.2]
      rfl
  have hend : startsWith isWordChar (']' :: tail) = false := rfl
  obtain ⟨htake, hdrop⟩ := Reader.takeWhile_eq_and_dropWhile_eq_iff.2 ⟨rfl, hchars, hend⟩
  have hbracket : (gap ++ bracketed name ++ tail).dropWhile isSpace =
      '[' :: (name ++ ']' :: tail) := by
    rw [List.append_assoc, List.dropWhile_append_of_pos (List.all_eq_true.1 hgap)]
    simp [bracketed, isSpace]
  unfold headerName?
  simp only [hbracket, ← htake, ← hdrop, hname, htail]
  rfl

/-- A header line holds an identifier in brackets once it is trimmed, and no blanks but spaces and
tabs. -/
theorem headerName?_eq_some_iff {found : String} : headerName? text = some found ↔
    (isIdentifier found.toList ∧ trim text = bracketed found.toList) ∧ PlainBlanks text := by
  constructor
  · intro h
    obtain ⟨gap, tail, hgap, htail, hname, rfl⟩ := exists_of_headerName? h
    have hsplit : gap ++ '[' :: (found.toList ++ ']' :: tail) =
        gap ++ bracketed found.toList ++ tail := by simp [bracketed]
    rw [hsplit, trim_append_blanks (isBlankText_of_isSpace hgap) (isBlankText_of_isSpace htail)]
    refine ⟨⟨hname, trim_bracketed _⟩, ?_⟩
    intro c hc hblank
    rw [List.mem_append, List.mem_append] at hc
    rcases hc with (hc | hc) | hc
    · exact List.all_eq_true.1 hgap c hc
    · rw [isBlank_of_mem_bracketed hname c hc] at hblank
      cases hblank
    · exact List.all_eq_true.1 htail c hc
  · rintro ⟨⟨hname, htrim⟩, hplain⟩
    obtain ⟨lead, tail, hlead, htail, hsplit⟩ := exists_append_trim text
    rw [htrim] at hsplit
    -- What is trimmed is blank, so here it is spaces and tabs, which a header line may have.
    have hspaces : ∀ gap : List Char, isBlankText gap → (∀ c ∈ gap, c ∈ text) → gap.all isSpace :=
      fun gap hgap hmem =>
        List.all_eq_true.2 fun c hc => hplain c (hmem c hc) (List.all_eq_true.1 hgap c hc)
    have hread := headerName?_append_bracketed
      (hspaces lead hlead (by rw [hsplit]; simp +contextual))
      (hspaces tail htail (by rw [hsplit]; simp +contextual)) hname
    rw [← hsplit, String.ofList_toList] at hread
    exact hread

end

namespace Line

/-- The line is an identifier in brackets once it is trimmed. -/
def IsTitled (line : Line) (name : String) : Prop :=
  isIdentifier name.toList ∧ line.trimmed = bracketed name.toList

/-- The identifier in brackets that a line consists of once it is trimmed. -/
def title? (line : Line) : Option String := headerName? line.trimmed

theorem title?_eq_some_iff {line : Line} {name : String} :
    line.title? = some name ↔ line.IsTitled name := by
  rw [title?, headerName?_eq_some_iff, trimmed, trim_trim]
  constructor
  · intro h
    exact h.1
  · intro h
    have htrim : trim line.chars = bracketed name.toList := h.2
    refine ⟨h, fun c hc hblank => ?_⟩
    rw [htrim] at hc
    rw [isBlank_of_mem_bracketed h.1 c hc] at hblank
    cases hblank

theorem header?_eq_some_iff {line : Line} {name : String} :
    line.header? = some name ↔ line.IsTitled name ∧ PlainBlanks line.chars :=
  headerName?_eq_some_iff

theorem header?_eq_title?_iff {line : Line} :
    line.header? = line.title? ↔ ∀ name, line.IsTitled name → PlainBlanks line.chars := by
  constructor
  · intro heq name htitled
    rw [← title?_eq_some_iff, ← heq, header?_eq_some_iff] at htitled
    exact htitled.2
  · intro hplain
    refine Option.ext fun name => ?_
    rw [title?_eq_some_iff, header?_eq_some_iff]
    exact ⟨fun h => h.1, fun h => ⟨h, hplain name h⟩⟩

end Line

/-! ## The sections of a document -/

namespace Document

theorem sectionNames_ofLines (lines : List Line) :
    (ofLines lines).sectionNames = lines.filterMap Line.header? := by
  induction lines with
  | nil => rfl
  | cons line rest ih =>
    unfold sectionNames at ih ⊢
    cases h : line.header? with
    | none => rw [ofLines_cons_of_no_header h, List.filterMap_cons_none h, ih]
    | some name =>
      rw [ofLines_cons_of_header h, List.filterMap_cons_some h, ← ih]
      rfl

theorem hasHeaders_iff (document : Document) :
    document.hasHeaders ↔ document.sectionNames ≠ [] := by
  simp [hasHeaders, sectionNames]

/-- The section names are those of the header lines, and there are headers where there is such a
line. They are the identifiers in brackets of all trimmed lines exactly when each line of that
form has no blanks but spaces and tabs. -/
theorem sectionNames_parse (text : String) :
    let lines := Line.ofText text
    (parse text).sectionNames = lines.filterMap Line.header? ∧
      ((parse text).hasHeaders ↔ ∃ line ∈ lines, ∃ name, line.header? = some name) ∧
      (∀ line name, Line.header? line = some name ↔
        line.IsTitled name ∧ PlainBlanks line.chars) ∧
      (∀ line name, Line.title? line = some name ↔ line.IsTitled name) ∧
      ((parse text).sectionNames = lines.filterMap Line.title? ↔
        ∀ line ∈ lines, ∀ name, line.IsTitled name → PlainBlanks line.chars) := by
  intro lines
  have hnames : (parse text).sectionNames = lines.filterMap Line.header? :=
    sectionNames_ofLines lines
  refine ⟨hnames, ?_, fun _ _ => Line.header?_eq_some_iff, fun _ _ => Line.title?_eq_some_iff, ?_⟩
  · rw [hasHeaders_iff, hnames]
    simp only [ne_eq, List.filterMap_eq_nil_iff, not_forall, ← Option.ne_none_iff_exists',
      exists_prop]
  · rw [hnames, filterMap_eq_filterMap_iff fun line name h =>
      Line.title?_eq_some_iff.2 (Line.header?_eq_some_iff.1 h).1]
    simp only [Line.header?_eq_title?_iff]

/-- A no-break space behind a bracket, and the block below it becomes part of the one above. -/
theorem sectionNames_parse_of_no_break_space :
    let text := "[RULES]\nRETURN SMALL\n[POLICY]\u00a0\nCOST_BIG=60"
    let lines := Line.ofText text
    lines.filterMap Line.title? = ["RULES", "POLICY"] ∧ (parse text).sectionNames = ["RULES"] ∧
      (parse text).ruleLines.map Line.number = [2, 3, 4] ∧ (parse text).policyLines = [] := by
  decide +kernel

end Document

end Retention
