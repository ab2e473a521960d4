import Retention.Proofs.Grammar.Layout
import Retention.Proofs.Lists
import Retention.Proofs.ReadBack

/-!
# Rules as they print

A rule prints as a line that spells it, unless it has a connective: conditions print with
parentheses and the grammar has none.
-/

namespace Retention

/-! ## What prints as it is read -/

/-- A field whose name is no reserved word, a finite number, null, or a string with neither a
double quote, a backslash nor a line feed in it. -/
def Operand.isPrintable : Operand → Bool
  | .field name => isFieldName name.toList && !Reader.isReserved name.toList
  | .literal (.number n) => n.finite?.isSome
  | .literal (.string s) => s.toList.all fun c => c ≠ '"' ∧ c ≠ '\\' ∧ c ≠ '\n'
  | .literal .null => true

def Condition.isPrintable : Condition → Bool
  | .compare c => c.left.isPrintable && c.right.isPrintable
  | .and a b | .or a b => a.isPrintable && b.isPrintable
  | .const _ => true

def Rule.isPrintable : Rule → Bool
  | .conditional condition _ => condition.isPrintable
  | .fallback _ => true

def Condition.hasConnective : Condition → Bool
  | .and _ _ | .or _ _ => true
  | .compare _ | .const _ => false

def Rule.hasConnective : Rule → Bool
  | .conditional condition _ => condition.hasConnective
  | .fallback _ => false

/-! ## Tokens -/

theorem newline_notMem_numeral (n : Numeral) : '\n' ∉ n.text := by
  have hwhole := newline_notMem_of_all rfl n.whole_digits
  have hfraction := newline_notMem_of_all rfl n.fraction_digits
  unfold Numeral.text Numeral.fractionText signText
  cases n.negative <;> split <;> simp [hwhole, hfraction]

theorem newline_notMem_fieldName {name : List Char} (h : isFieldName name) : '\n' ∉ name :=
  newline_notMem_of_all rfl (all_isNameChar_of_isFieldName h)

theorem newline_notMem_comparator (op : Comparator) : '\n' ∉ (Token.comparator op).text := by
  have hall : ∀ op ∈ Comparator.all, '\n' ∉ (Token.comparator op).text := by decide
  exact hall op op.mem_all

theorem quotedBody_of_plain {quote : Char} {text : List Char}
    (h : ∀ c ∈ text, c ≠ quote ∧ c ≠ '\\') : QuotedBody quote text text := by
  have hbody : QuotedBody quote (text.flatMap fun c => [c]) text :=
    quotedBody_flatMap fun c hc => .inl ⟨rfl, h c hc⟩
  rwa [List.flatMap_singleton'] at hbody

theorem exists_printedToken {o : Operand} (h : o.isPrintable) :
    ∃ t, OperandToken o t ∧ t.text = o.text.toList ∧ '\n' ∉ t.text := by
  cases o with
  | field name =>
    simp only [Operand.isPrintable, Bool.and_eq_true, Bool.not_eq_true'] at h
    have ht := OperandToken.field h.1 h.2
    rw [String.ofList_toList] at ht
    exact ⟨_, ht, rfl, newline_notMem_fieldName h.1⟩
  | literal value =>
    cases value with
    | number n =>
      obtain ⟨x, hx⟩ := Option.isSome_iff_exists.1 h
      rw [Number.finite?_eq_some_iff] at hx
      obtain ⟨numeral, htext, hvalue⟩ := exists_numeral_of_finite x
      refine ⟨.numeral numeral, .number ?_, ?_, newline_notMem_numeral numeral⟩
      · rw [numeral.read?_text, hvalue, hx]
      · rw [hx, Operand.text, Value.text, Number.text, String.toList_ofList, ← htext]
        rfl
    | string s =>
      simp only [Operand.isPrintable, List.all_eq_true, decide_eq_true_eq] at h
      have hplain : ∀ c ∈ s.toList, c ≠ '"' ∧ c ≠ '\\' := fun c hc => ⟨(h c hc).1, (h c hc).2.1⟩
      have ht := OperandToken.string rfl (quotedBody_of_plain hplain)
      rw [String.ofList_toList] at ht
      refine ⟨_, ht, ?_, ?_⟩
      · simp [Token.quoted, Operand.text, Value.text]
      · have hnewline : '\n' ∉ s.toList := fun hc => (h _ hc).2.2 rfl
        simpa [Token.quoted] using hnewline
    | null => exact ⟨.word "null".toList, .null (by decide), rfl, by decide⟩

/-! ## Rules that print as they are read -/

theorem exists_printedTerm {c : Condition} (h : c.isPrintable) (hc : c.hasConnective = false) :
    ∃ tokens, TermTokens c tokens ∧ Wide tokens c.text.toList := by
  have hone : [' '] ≠ [] ∧ [' '].all isSpace := by decide
  cases c with
  | compare c =>
    obtain ⟨l, op, r⟩ := c
    simp only [Condition.isPrintable, Bool.and_eq_true] at h
    obtain ⟨s, hs, hstext, -⟩ := exists_printedToken h.1
    obtain ⟨t, ht, httext, -⟩ := exists_printedToken h.2
    have hwide : Wide [s, .comparator op, t] _ :=
      .cons hone.1 hone.2 (.cons hone.1 hone.2 (.last t))
    refine ⟨_, .compare hs ht, ?_⟩
    simpa [Condition.text, Comparison.text, Token.comparator, hstext, httext] using hwide
  | const value =>
    cases value with
    | true => exact ⟨[.word "true".toList], .true (by decide), .last _⟩
    | false => exact ⟨[.word "false".toList], .false (by decide), .last _⟩
  | and _ _ | or _ _ => cases hc

theorem labelToken_of_isIdentifier {l : Label} (h : l.isIdentifier) :
    LabelToken l (.bareLabel l.name.toList) := by
  have hall : l.name.toList ≠ [] ∧ l.name.toList.all isWordChar := by
    unfold Label.isIdentifier isIdentifier at h
    split at h
    · cases h
    · rename_i c rest hname
      simp only [Bool.and_eq_true] at h
      rw [hname, List.all_cons, isWordChar_of_isWordStart c h.1, h.2]
      exact ⟨List.cons_ne_nil _ _, rfl⟩
  have hl := LabelToken.bare hall.1 hall.2
  rwa [String.ofList_toList] at hl

theorem exists_printedRule {rule : Rule} (h : rule.isPrintable) (hlabel : rule.label.isIdentifier)
    (hc : rule.hasConnective = false) :
    ∃ tokens, RuleTokens rule tokens ∧ Wide tokens rule.text.toList := by
  have hone : [' '] ≠ [] ∧ [' '].all isSpace := by decide
  have hl := labelToken_of_isIdentifier hlabel
  have hreturn : Wide [.word "RETURN".toList, .bareLabel rule.label.name.toList] _ :=
    .cons hone.1 hone.2 (.last _)
  cases rule with
  | conditional c l =>
    obtain ⟨tokens, hterm, hwide⟩ := exists_printedTerm h hc
    have hend := Wide.cons (t := .word "THEN".toList) hone.1 hone.2 hreturn
    have hall := Wide.cons (t := .word "IF".toList) hone.1 hone.2
      (wide_append hone.1 hone.2 hwide hend)
    refine ⟨_, .conditional (i := "IF".toList) (t := "THEN".toList) (r := "RETURN".toList)
      (by decide) (.term hterm) (by decide) (by decide) hl, ?_⟩
    simpa [Rule.text, Token.word, Token.bareLabel, Rule.label] using hall
  | fallback l =>
    refine ⟨_, .fallback (r := "RETURN".toList) (by decide) hl, ?_⟩
    simpa [Rule.text, Token.word, Token.bareLabel, Rule.label] using hreturn

/-- A rule without a connective is read from its own text. -/
theorem parse_text_of_not_hasConnective {rule : Rule} (h : rule.isPrintable)
    (hlabel : rule.label.isIdentifier) (hc : rule.hasConnective = false) :
    Rule.parse rule.text = .ok rule := by
  obtain ⟨tokens, htokens, hwide⟩ := exists_printedRule h hlabel hc
  have hend : breaks [] := rfl
  have hspaced := spaced_of_wide hwide (lexical_of_ruleTokens htokens) hend
  rw [List.append_nil] at hspaced
  exact Rule.parse_eq_ok_iff.2 ⟨tokens, [], htokens, hspaced, isTail_nil⟩

/-! ## Parentheses -/

/-- No token starts with a parenthesis. -/
theorem Token.Lexical.startsWith_paren {t : Token} (h : t.Lexical) (rest : List Char) :
    startsWith (· == '(') (t.text ++ rest) = false := by
  have hne : ∀ {p : Char → Bool}, p '(' = false → ∀ c, p c → (c == '(') = false := by
    intro p hp c hc
    rw [beq_eq_false_iff_ne]
    rintro rfl
    rw [hp] at hc
    cases hc
  cases h with
  | word hw =>
    exact startsWith_eq_false_of_disjoint (hne rfl)
      (Reader.startsWith_isWordStart_of_isFieldName hw rest)
  | bareLabel hname hall =>
    exact startsWith_eq_false_of_disjoint (hne rfl)
      (Reader.startsWith_isWordChar_append hname hall rest)
  | numeral n => exact startsWith_eq_false_of_disjoint (hne rfl) (n.startsWith_text rest)
  | quoted body hquote => exact (startsWith_cons _ _ _).trans (hne rfl _ hquote)
  | comparator op => cases op <;> rfl

theorem not_spaced_paren {tokens : List Token} {text rest : List Char}
    (hlex : ∀ t ∈ tokens, t.Lexical) (hne : tokens ≠ []) : ¬ Spaced tokens ('(' :: text) rest := by
  obtain ⟨t, more, rfl⟩ := List.exists_cons_of_ne_nil hne
  rw [List.forall_mem_cons] at hlex
  intro h
  obtain ⟨between, ht, -⟩ := spaced_cons_iff.1 h
  have htext : '(' :: text = t.text ++ between :=
    ((Reader.spaced_iff_of_solid hlex.1.solid).1 ht).2
  have hstart := hlex.1.startsWith_paren between
  rw [← htext] at hstart
  cases hstart

/-- No rule has its condition in parentheses. -/
theorem not_spellsRule_paren {text : List Char} {rule : Rule} :
    ¬ SpellsRule ("IF".toList ++ ' ' :: '(' :: text) rule := by
  rintro ⟨_, tail, htokens, hs, -⟩
  have hlex := lexical_of_ruleTokens htokens
  cases htokens with
  | @conditional c l i t r tokens last hi hc ht hr hl =>
    have hne : tokens ++ [.word t, .word r, last] ≠ [] :=
      List.append_ne_nil_of_left_ne_nil (ne_nil_of_conditionTokens hc) _
    rw [List.cons_append] at hs hlex
    rw [List.forall_mem_cons] at hlex
    exact not_spaced_paren hlex.2 hne (spaced_of_spaced_if hi hlex.2 hne hs)
  | @fallback l r last hr hl =>
    obtain ⟨between, hword, -⟩ := spaced_cons_iff.1 hs
    have hsolid := Reader.solid_word (Reader.isFieldName_of_isKeyword (by decide) hr)
    have htext : "IF".toList ++ ' ' :: '(' :: text = r ++ between :=
      ((Reader.spaced_iff_of_solid hsolid).1 hword).2
    rw [Reader.isKeyword_iff, List.mem_cons, List.mem_singleton] at hr
    rcases hr with rfl | rfl <;> cases htext

theorem exists_text_of_hasConnective {c : Condition} (h : c.hasConnective) :
    ∃ more, c.text.toList = '(' :: more := by
  cases c with
  | and a b => exact ⟨(a.text ++ " AND " ++ b.text ++ ")").toList, by simp [Condition.text]⟩
  | or a b => exact ⟨(a.text ++ " OR " ++ b.text ++ ")").toList, by simp [Condition.text]⟩
  | compare _ | const _ => cases h

/-- A rule with a connective is not read from its own text, nor is any other rule. -/
theorem exists_error_of_hasConnective {rule : Rule} (h : rule.hasConnective) :
    ∃ reason, Rule.parse rule.text = .error reason := by
  cases rule with
  | fallback l => cases h
  | conditional c l =>
    obtain ⟨more, hmore⟩ := exists_text_of_hasConnective h
    have htext : (Rule.conditional c l).text.toList =
        "IF".toList ++ ' ' :: '(' :: (more ++ " THEN RETURN ".toList ++ l.name.toList) := by
      simp [Rule.text, hmore]
    cases hparse : Rule.parse (Rule.conditional c l).text with
    | error reason => exact ⟨reason, rfl⟩
    | ok rule =>
      have hspells := Rule.parse_eq_ok_iff.1 hparse
      rw [htext] at hspells
      exact absurd hspells not_spellsRule_paren

/-! ## Printed lines -/

theorem newline_notMem_text_condition {c : Condition} (h : c.isPrintable) :
    '\n' ∉ c.text.toList := by
  induction c with
  | compare c =>
    obtain ⟨l, op, r⟩ := c
    simp only [Condition.isPrintable, Bool.and_eq_true] at h
    obtain ⟨s, -, hstext, hsn⟩ := exists_printedToken h.1
    obtain ⟨t, -, httext, htn⟩ := exists_printedToken h.2
    have hop : '\n' ∉ op.text.toList := newline_notMem_comparator op
    rw [hstext] at hsn
    rw [httext] at htn
    simp [Condition.text, Comparison.text, hsn, hop, htn]
  | and a b iha ihb | or a b iha ihb =>
    simp only [Condition.isPrintable, Bool.and_eq_true] at h
    simp [Condition.text, iha h.1, ihb h.2]
  | const value => cases value <;> decide

theorem newline_notMem_text {rule : Rule} (h : rule.isPrintable)
    (hlabel : rule.label.isIdentifier) : '\n' ∉ rule.text.toList := by
  have hname : '\n' ∉ rule.label.name.toList :=
    newline_notMem_fieldName (isFieldName_of_isIdentifier _ hlabel)
  cases rule with
  | conditional c l =>
    have hcondition := newline_notMem_text_condition h
    simpa [Rule.text, Rule.label, hcondition] using hname
  | fallback l => simpa [Rule.text, Rule.label] using hname

theorem startsWith_text_rule (rule : Rule) : startsWith isWordStart rule.text.toList := by
  cases rule with
  | conditional c l => simp [Rule.text, isWordStart]
  | fallback l => simp [Rule.text, isWordStart]

theorem endsSolid_text {rule : Rule} (hlabel : rule.label.isIdentifier) :
    EndsSolid rule.text.toList := by
  have hname := isFieldName_of_isIdentifier _ hlabel
  have hend : EndsSolid rule.label.name.toList :=
    endsSolid_of_all (fun _ => isBlank_eq_false_of_isNameChar) (ne_nil_of_isFieldName hname)
      (all_isNameChar_of_isFieldName hname)
  cases rule with
  | conditional c l =>
    rw [Rule.text, String.toList_append]
    exact hend.append_left _
  | fallback l =>
    rw [Rule.text, String.toList_append]
    exact hend.append_left _

/-- A printed rule is one line, and the line is read as it stands. -/
theorem readRuleLine?_text {rule : Rule} (hlabel : rule.label.isIdentifier) (number : Nat) :
    readRuleLine? ⟨number, rule.text⟩ = some (readRuleText number rule.text) := by
  have h := readRuleLine?_of_endsSolid (startsWith_text_rule rule) (endsSolid_text hlabel) number
  rwa [String.ofList_toList] at h

end Retention
