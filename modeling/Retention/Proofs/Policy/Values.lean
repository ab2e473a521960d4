import Mathlib.Data.List.Nodup
import Retention.Policy.Text
import Retention.Proofs.Grammar.Layout
import Retention.Proofs.Lines

/-!
# Values in the text of a policy

A value is what is left of a line when the blanks around it are gone. What a number is read from
has no blank in it, and labels may have spaces at the commas between them.
-/

namespace Retention

/-! ## Blanks -/

theorem trim_append_blanks {lead tail : List Char} (hlead : isBlankText lead)
    (htail : isBlankText tail) (text : List Char) : trim (lead ++ text ++ tail) = trim text := by
  have hstart : trim (lead ++ text) = trim text := by
    unfold trim trimStart
    rw [List.dropWhile_append_of_pos (List.all_eq_true.1 hlead)]
  rw [← hstart]
  clear hstart
  induction tail generalizing lead text with
  | nil => rw [List.append_nil]
  | cons c tail ih =>
    simp only [isBlankText, List.all_cons, Bool.and_eq_true] at htail
    have hsplit : lead ++ text ++ c :: tail = lead ++ (text ++ [c]) ++ tail := by simp
    rw [hsplit, ih hlead htail.2, ← List.append_assoc, trim_append_blank htail.1]

theorem ne_lineEnd_of_isBlank {c : Char} (h : isBlank c = false) : c ≠ '\n' ∧ c ≠ '\r' := by
  constructor <;> (rintro rfl; exact absurd h (by decide))

/-- A text without a blank in it. -/
def Unbroken (text : List Char) : Prop := ∀ c ∈ text, isBlank c = false

theorem unbroken_append_iff {a b : List Char} : Unbroken (a ++ b) ↔ Unbroken a ∧ Unbroken b :=
  List.forall_mem_append

theorem unbroken_cons_iff {c : Char} {rest : List Char} :
    Unbroken (c :: rest) ↔ isBlank c = false ∧ Unbroken rest := List.forall_mem_cons

theorem unbroken_of_all {p : Char → Bool} (hp : ∀ c, p c → isBlank c = false) {text : List Char}
    (h : text.all p) : Unbroken text := fun c hc => hp c (List.all_eq_true.1 h c hc)

/-- A text that is a value as it stands, without blanks at its ends. -/
def isValueText (text : List Char) : Bool :=
  text ≠ [] ∧ startsWith isBlank text = false ∧ startsWith isBlank text.reverse = false ∧
    text.all fun c => c ≠ '\n' ∧ c ≠ '\r'

theorem isValueText_iff {text : List Char} : isValueText text ↔
    (∃ c rest, text = c :: rest ∧ isBlank c = false) ∧ EndsSolid text ∧
      ∀ c ∈ text, c ≠ '\n' ∧ c ≠ '\r' := by
  unfold isValueText
  simp only [List.all_eq_true, decide_eq_true_eq]
  constructor
  · rintro ⟨hne, hstart, hend, hbreak⟩
    obtain ⟨c, rest, rfl⟩ := List.exists_cons_of_ne_nil hne
    obtain ⟨front, d, hlast⟩ := List.eq_nil_or_concat' _ |>.resolve_left hne
    rw [startsWith_cons] at hstart
    rw [hlast, List.reverse_concat', startsWith_cons] at hend
    exact ⟨⟨c, rest, rfl, hstart⟩, ⟨front, d, hlast, hend⟩, hbreak⟩
  · rintro ⟨⟨c, rest, rfl, hc⟩, ⟨front, d, hlast, hd⟩, hbreak⟩
    refine ⟨List.cons_ne_nil c rest, by rw [startsWith_cons, hc], ?_, hbreak⟩
    rw [hlast, List.reverse_concat', startsWith_cons, hd]

theorem isValueText_of_unbroken {text : List Char} (hne : text ≠ []) (h : Unbroken text) :
    isValueText text := by
  obtain ⟨c, rest, hcons⟩ := List.exists_cons_of_ne_nil hne
  have hlast := (List.dropLast_concat_getLast hne).symm
  exact isValueText_iff.2 ⟨⟨c, rest, hcons, h c (by simp [hcons])⟩,
    ⟨_, _, hlast, h _ (List.getLast_mem hne)⟩, fun c hc => ne_lineEnd_of_isBlank (h c hc)⟩

/-! ## Numbers -/

namespace Number

theorem unbroken_of_takeSign {text : List Char} (h : Unbroken (takeSign text).2) :
    Unbroken text := by
  unfold takeSign at h
  split at h
  · exact unbroken_cons_iff.2 ⟨by decide, h⟩
  · exact unbroken_cons_iff.2 ⟨by decide, h⟩
  · exact h

theorem unbroken_of_readDigits? {text : List Char} {n : Nat} (h : readDigits? text = some n) :
    Unbroken text := by
  unfold readDigits? at h
  split at h
  · rename_i hdigits
    exact unbroken_of_all (fun _ => isBlank_eq_false_of_isDigit) hdigits.2
  · cases h

/-- What stands behind digits decides. -/
theorem unbroken_of_dropWhile_isDigit {text : List Char}
    (h : Unbroken (text.dropWhile Char.isDigit)) : Unbroken text := by
  have hdigits : Unbroken (text.takeWhile Char.isDigit) :=
    unbroken_of_all (fun _ => isBlank_eq_false_of_isDigit) List.all_takeWhile
  have hboth := unbroken_append_iff.2 ⟨hdigits, h⟩
  rwa [List.takeWhile_append_dropWhile] at hboth

theorem unbroken_of_readExponent? {text : List Char} {n : Int} (h : readExponent? text = some n) :
    Unbroken text := by
  unfold readExponent? at h
  split at h
  · exact List.forall_mem_nil _
  · rename_i c rest
    split at h
    · rename_i hc
      have hblank : isBlank c = false := by rcases hc with rfl | rfl <;> decide
      refine unbroken_cons_iff.2 ⟨hblank, unbroken_of_takeSign ?_⟩
      cases hdigits : readDigits? (takeSign rest).2 with
      | some digits => exact unbroken_of_readDigits? hdigits
      | none => simp [hdigits] at h
    · cases h

theorem unbroken_of_takeFraction {text : List Char} (h : Unbroken (takeFraction text).2) :
    Unbroken text := by
  unfold takeFraction at h
  split at h
  · exact unbroken_cons_iff.2 ⟨by decide, unbroken_of_dropWhile_isDigit h⟩
  · exact h

theorem unbroken_of_readDecimal? {negative : Bool} {text : List Char} {x : Number}
    (h : readDecimal? negative text = some x) : text ≠ [] ∧ Unbroken text := by
  unfold readDecimal? at h
  simp only at h
  split at h
  · cases h
  · rename_i hne
    obtain ⟨exponent, hexponent, -⟩ := Option.map_eq_some_iff.1 h
    constructor
    · rintro rfl
      exact hne rfl
    · exact unbroken_of_dropWhile_isDigit
        (unbroken_of_takeFraction (unbroken_of_readExponent? hexponent))

/-- A text with a blank in it is no finite number. -/
theorem isValueText_of_read? {text : List Char} {x : Quantity}
    (h : read? text = some (.finite x)) : isValueText text := by
  have hdecimal : readDecimal? (takeSign text).1 (takeSign text).2 = some (.finite x) := by
    unfold read? readMagnitude? at h
    simp only at h
    split at h
    · cases h
    · split at h
      · cases h
      · exact h
  obtain ⟨hne, hunbroken⟩ := unbroken_of_readDecimal? hdecimal
  refine isValueText_of_unbroken ?_ (unbroken_of_takeSign hunbroken)
  rintro rfl
  exact hne rfl

end Number

/-! ## Labels between commas -/

/-- Some names with a comma between each two, and perhaps spaces around the commas. -/
inductive WritesNames : List String → List Char → Prop
  | last (name : String) : WritesNames [name] name.toList
  | cons {name : String} {names : List String} {before after text : List Char} :
    before.all isSpace → after.all isSpace → WritesNames names text →
    WritesNames (name :: names) (name.toList ++ before ++ ',' :: (after ++ text))

theorem splitCommas_of_notMem {part : List Char} (h : ',' ∉ part) : splitCommas part = [part] := by
  induction part with
  | nil => rfl
  | cons c part ih =>
    rw [List.mem_cons, not_or] at h
    rw [splitCommas, if_neg (Ne.symm h.1), ih h.2]

theorem splitCommas_append {part : List Char} (h : ',' ∉ part) (rest : List Char) :
    splitCommas (part ++ ',' :: rest) = part :: splitCommas rest := by
  induction part with
  | nil => rfl
  | cons c part ih =>
    rw [List.mem_cons, not_or] at h
    rw [List.cons_append, splitCommas, if_neg (Ne.symm h.1), ih h.2]

theorem comma_notMem_of_isSpace {gap : List Char} (h : gap.all isSpace) : ',' ∉ gap := by
  intro hmem
  exact absurd (List.all_eq_true.1 h _ hmem) (by decide)

theorem unbroken_of_isFieldName {name : List Char} (h : isFieldName name) : Unbroken name :=
  unbroken_of_all (fun _ => isBlank_eq_false_of_isNameChar) (all_isNameChar_of_isFieldName h)

theorem trim_of_isValueText {text : List Char} (h : isValueText text) : trim text = text := by
  obtain ⟨⟨c, rest, hstart, hc⟩, hend, -⟩ := isValueText_iff.1 h
  exact trim_eq_self (by rw [hstart, startsWith_cons, hc]) hend

theorem isValueText_of_isFieldName {name : List Char} (h : isFieldName name) :
    isValueText name :=
  isValueText_of_unbroken (ne_nil_of_isFieldName h) (unbroken_of_isFieldName h)

theorem comma_notMem_of_isFieldName {name : List Char} (h : isFieldName name) : ',' ∉ name := by
  intro hmem
  exact absurd (List.all_eq_true.1 (all_isNameChar_of_isFieldName h) _ hmem) (by decide)

theorem isBlankText_of_isSpace {gap : List Char} (h : gap.all isSpace) : isBlankText gap :=
  List.all_eq_true.2 fun c hc => isBlank_of_isSpace c (List.all_eq_true.1 h c hc)

section

variable {names : List String} {text : List Char}

theorem exists_writesNames (h : names ≠ []) : ∃ text, WritesNames names text := by
  induction names with
  | nil => exact absurd rfl h
  | cons name rest ih =>
    cases rest with
    | nil => exact ⟨_, .last name⟩
    | cons next rest =>
      obtain ⟨text, htext⟩ := ih (List.cons_ne_nil next rest)
      exact ⟨name.toList ++ [] ++ ',' :: ([] ++ text), .cons rfl rfl htext⟩

/-- Names are read back from between the commas. -/
theorem map_trim_splitCommas (h : WritesNames names text)
    (hnames : ∀ name ∈ names, isIdentifier name.toList) {gap : List Char} (hgap : gap.all isSpace) :
    (splitCommas (gap ++ text)).map trim = names.map String.toList := by
  induction h generalizing gap with
  | last name =>
    have hname := isFieldName_of_isIdentifier _ (hnames name List.mem_cons_self)
    have hcomma : ',' ∉ gap ++ name.toList := by
      simp [comma_notMem_of_isSpace hgap, comma_notMem_of_isFieldName hname]
    have htrim : trim (gap ++ name.toList) = name.toList := by
      rw [← List.append_nil (gap ++ name.toList),
        trim_append_blanks (isBlankText_of_isSpace hgap) rfl,
        trim_of_isValueText (isValueText_of_isFieldName hname)]
    rw [splitCommas_of_notMem hcomma, List.map_singleton, htrim]
    rfl
  | @cons name names before after text hbefore hafter _ ih =>
    rw [List.forall_mem_cons] at hnames
    have hname := isFieldName_of_isIdentifier _ hnames.1
    have hsplit : gap ++ (name.toList ++ before ++ ',' :: (after ++ text)) =
        gap ++ name.toList ++ before ++ ',' :: (after ++ text) := by simp
    have hcomma : ',' ∉ gap ++ name.toList ++ before := by
      simp [comma_notMem_of_isSpace hgap, comma_notMem_of_isFieldName hname,
        comma_notMem_of_isSpace hbefore]
    rw [hsplit, splitCommas_append hcomma, List.map_cons, ih hnames.2 hafter,
      trim_append_blanks (isBlankText_of_isSpace hgap) (isBlankText_of_isSpace hbefore),
      trim_of_isValueText (isValueText_of_isFieldName hname)]
    rfl

theorem vocabularyOfText?_of_writesNames (h : WritesNames names text)
    (hnames : ∀ name ∈ names, isIdentifier name.toList) (hnodup : names.Nodup) :
    vocabularyOfText? (String.ofList text) = some names := by
  have hparts : ((splitCommas text).map trim).filter (· ≠ []) = names.map String.toList := by
    have htrim : (splitCommas text).map trim = names.map String.toList :=
      @map_trim_splitCommas names text h hnames [] rfl
    rw [htrim, List.filter_eq_self]
    intro part hpart
    obtain ⟨name, hname, rfl⟩ := List.mem_map.1 hpart
    simpa using ne_nil_of_isFieldName (isFieldName_of_isIdentifier _ (hnames name hname))
  have hne : names ≠ [] := by
    rintro rfl
    cases h
  have hall : (names.map String.toList).all isIdentifier := by
    simpa using hnames
  have hdistinct : (names.map String.toList).Nodup := hnodup.map fun _ _ h => String.toList_inj.1 h
  unfold vocabularyOfText?
  simp only [String.toList_ofList, hparts]
  rw [if_pos ⟨by simpa using hne, hall, hdistinct⟩]
  simp

theorem exists_head_of_writesNames (h : WritesNames names text)
    (hnames : ∀ name ∈ names, isIdentifier name.toList) :
    ∃ c rest, text = c :: rest ∧ isBlank c = false := by
  have hname : ∀ name : String, isIdentifier name.toList →
      ∃ c rest, name.toList = c :: rest ∧ isBlank c = false := by
    intro name h
    obtain ⟨c, rest, hcons⟩ := List.exists_cons_of_ne_nil
      (ne_nil_of_isFieldName (isFieldName_of_isIdentifier _ h))
    have hunbroken := unbroken_of_isFieldName (isFieldName_of_isIdentifier _ h)
    exact ⟨c, rest, hcons, hunbroken c (by simp [hcons])⟩
  cases h with
  | last name => exact hname name (hnames name List.mem_cons_self)
  | @cons name names before after text _ _ _ =>
    obtain ⟨c, rest, hcons, hc⟩ := hname name (hnames name List.mem_cons_self)
    exact ⟨c, rest ++ before ++ ',' :: (after ++ text), by simp [hcons], hc⟩

theorem exists_last_of_writesNames (h : WritesNames names text)
    (hnames : ∀ name ∈ names, isIdentifier name.toList) :
    ∃ front c, text = front ++ [c] ∧ isBlank c = false := by
  induction h with
  | last name =>
    have hname := isFieldName_of_isIdentifier _ (hnames name List.mem_cons_self)
    have hne := ne_nil_of_isFieldName hname
    exact ⟨_, _, (List.dropLast_concat_getLast hne).symm,
      unbroken_of_isFieldName hname _ (List.getLast_mem hne)⟩
  | @cons name names before after text _ _ _ ih =>
    rw [List.forall_mem_cons] at hnames
    obtain ⟨front, c, rfl, hc⟩ := ih hnames.2
    exact ⟨name.toList ++ before ++ ',' :: (after ++ front), c, by simp, hc⟩

theorem ne_lineEnd_of_writesNames (h : WritesNames names text)
    (hnames : ∀ name ∈ names, isIdentifier name.toList) : ∀ c ∈ text, c ≠ '\n' ∧ c ≠ '\r' := by
  have hname : ∀ name : String, isIdentifier name.toList → ∀ c ∈ name.toList, c ≠ '\n' ∧ c ≠ '\r' :=
    fun name h c hc =>
      ne_lineEnd_of_isBlank (unbroken_of_isFieldName (isFieldName_of_isIdentifier _ h) c hc)
  induction h with
  | last name => exact hname name (hnames name List.mem_cons_self)
  | @cons name names before after text hbefore hafter _ ih =>
    rw [List.forall_mem_cons] at hnames
    intro c hc
    simp only [List.mem_append, List.mem_cons] at hc
    rcases hc with (hc | hc) | rfl | hc | hc
    · exact hname name hnames.1 c hc
    · exact ne_of_isSpace (List.all_eq_true.1 hbefore c hc)
    · decide
    · exact ne_of_isSpace (List.all_eq_true.1 hafter c hc)
    · exact ih hnames.2 c hc

theorem isValueText_of_writesNames (h : WritesNames names text)
    (hnames : ∀ name ∈ names, isIdentifier name.toList) : isValueText text :=
  isValueText_iff.2 ⟨exists_head_of_writesNames h hnames, exists_last_of_writesNames h hnames,
    ne_lineEnd_of_writesNames h hnames⟩

end

end Retention
