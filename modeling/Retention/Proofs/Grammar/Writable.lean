import Retention.Policy.Basic
import Retention.Proofs.Grammar.Printed

/-!
# Rules that can be written

Every chain of terms has a text. Its numbers are written as they print, and its strings with
escapes for what cannot stand between quotes on one line.
-/

namespace Retention

/-! ## What rule text can say -/

/-- A field whose name is no reserved word, a finite number, any string, or null. -/
def Operand.isWritable : Operand → Bool
  | .field name => isFieldName name.toList && !Reader.isReserved name.toList
  | .literal (.number n) => n.finite?.isSome
  | .literal (.string _) => true
  | .literal .null => true

def Condition.isTerm : Condition → Bool
  | .const _ => true
  | .compare c => c.left.isWritable && c.right.isWritable
  | .and _ _ | .or _ _ => false

/-- One or more terms joined by AND and OR and grouped to the left. -/
def Condition.isChain : Condition → Bool
  | .and a b | .or a b => a.isChain && b.isTerm
  | .compare c => (Condition.compare c).isTerm
  | .const value => (Condition.const value).isTerm

/-! ## Strings -/

/-- A character of a text, with a backslash in front of a backslash or a quote. -/
def slashChar (quote c : Char) : List Char := if c = '\\' ∨ c = quote then ['\\', c] else [c]

def escapeChar (quote c : Char) : List Char :=
  if c = '\n' then ['\\', 'n'] else slashChar quote c

/-- A text as it stands between quotes on one line. -/
def escape (quote : Char) (text : List Char) : List Char := text.flatMap (escapeChar quote)

theorem pairText_quote {quote : Char} (hquote : Reader.isQuote quote) :
    pairText quote = [quote] := by
  simp only [Reader.isQuote, decide_eq_true_eq] at hquote
  rcases hquote with rfl | rfl <;> rfl

theorem spellsChar_slashChar {quote : Char} (hquote : Reader.isQuote quote) (c : Char) :
    SpellsChar quote c (slashChar quote c) := by
  unfold slashChar
  split
  · rename_i h
    refine .inr ⟨c, rfl, ?_⟩
    rcases h with rfl | rfl
    · rfl
    · exact pairText_quote hquote
  · rename_i h
    rw [not_or] at h
    exact .inl ⟨rfl, h.2, h.1⟩

theorem spellsChar_escapeChar {quote : Char} (hquote : Reader.isQuote quote) (c : Char) :
    SpellsChar quote c (escapeChar quote c) := by
  unfold escapeChar
  split
  · rename_i hnewline
    rw [hnewline]
    exact .inr ⟨'n', rfl, rfl⟩
  · exact spellsChar_slashChar hquote c

theorem quotedBody_escape {quote : Char} (hquote : Reader.isQuote quote) (text : List Char) :
    QuotedBody quote (escape quote text) text :=
  quotedBody_flatMap fun c _ => spellsChar_escapeChar hquote c

theorem newline_notMem_escape (quote : Char) (text : List Char) : '\n' ∉ escape quote text := by
  intro h
  unfold escape at h
  obtain ⟨c, -, hc⟩ := List.mem_flatMap.1 h
  unfold escapeChar slashChar at hc
  split at hc
  · simp at hc
  · rename_i hnewline
    split at hc
    · simp [Ne.symm hnewline] at hc
    · simp [Ne.symm hnewline] at hc

/-! ## Tokens -/

theorem isPrintable_or_isString {o : Operand} (h : o.isWritable) :
    o.isPrintable ∨ ∃ s, o = .literal (.string s) := by
  rcases o with name | n | s | _
  · exact .inl h
  · exact .inl h
  · exact .inr ⟨s, rfl⟩
  · exact .inl h

/-- An operand is written as it prints, but strings are escaped. -/
theorem exists_operandToken {o : Operand} (h : o.isWritable) :
    ∃ t, OperandToken o t ∧ '\n' ∉ t.text := by
  rcases isPrintable_or_isString h with hprints | ⟨s, rfl⟩
  · obtain ⟨t, ht, -, hn⟩ := exists_printedToken hprints
    exact ⟨t, ht, hn⟩
  · have hquote : Reader.isQuote '"' := rfl
    have ht := OperandToken.string hquote (quotedBody_escape hquote s.toList)
    rw [String.ofList_toList] at ht
    refine ⟨_, ht, ?_⟩
    simp [Token.quoted, newline_notMem_escape]

theorem exists_termTokens {c : Condition} (h : c.isTerm) :
    ∃ tokens, TermTokens c tokens ∧ ∀ t ∈ tokens, '\n' ∉ t.text := by
  cases c with
  | const value =>
    cases value with
    | true => exact ⟨[.word "TRUE".toList], .true (by decide), by decide⟩
    | false => exact ⟨[.word "FALSE".toList], .false (by decide), by decide⟩
  | compare c =>
    obtain ⟨l, op, r⟩ := c
    simp only [Condition.isTerm, Bool.and_eq_true] at h
    obtain ⟨s, hs, hns⟩ := exists_operandToken h.1
    obtain ⟨t, ht, hnt⟩ := exists_operandToken h.2
    exact ⟨_, .compare hs ht, by simpa using ⟨hns, newline_notMem_comparator op, hnt⟩⟩
  | and _ _ | or _ _ => cases h

theorem exists_conditionTokens {c : Condition} (h : c.isChain) :
    ∃ tokens, ConditionTokens c tokens ∧ ∀ t ∈ tokens, '\n' ∉ t.text := by
  induction c with
  | const _ | compare _ =>
    obtain ⟨tokens, ht, hn⟩ := exists_termTokens h
    exact ⟨tokens, .term ht, hn⟩
  | and a b iha _ =>
    simp only [Condition.isChain, Bool.and_eq_true] at h
    obtain ⟨before, ha, hna⟩ := iha h.1
    obtain ⟨after, hb, hnb⟩ := exists_termTokens h.2
    refine ⟨_, .and ha (w := "AND".toList) (by decide) hb, ?_⟩
    rw [List.forall_mem_append, List.forall_mem_cons]
    exact ⟨hna, by decide, hnb⟩
  | or a b iha _ =>
    simp only [Condition.isChain, Bool.and_eq_true] at h
    obtain ⟨before, ha, hna⟩ := iha h.1
    obtain ⟨after, hb, hnb⟩ := exists_termTokens h.2
    refine ⟨_, .or ha (w := "OR".toList) (by decide) hb, ?_⟩
    rw [List.forall_mem_append, List.forall_mem_cons]
    exact ⟨hna, by decide, hnb⟩

/-! ## Rules -/

/-- The labels of the standard vocabulary are written bare. -/
theorem exists_labelToken {l : Label} (h : Policy.standard.knows l) :
    ∃ t, LabelToken l t ∧ '\n' ∉ t.text := by
  obtain ⟨name, hname, rfl⟩ : ∃ name ∈ standardLabels, Label.mk name = l := by
    simpa [Policy.knows, Policy.standard] using h
  have hword : ∀ name ∈ standardLabels, name.toList ≠ [] ∧ name.toList.all isWordChar := by
    decide
  obtain ⟨hne, hall⟩ := hword name hname
  have hl := LabelToken.bare hne hall
  rw [String.ofList_toList] at hl
  exact ⟨_, hl, newline_notMem_of_all rfl hall⟩

/-- A rule that hands out a standard label under a chain of terms, or under no condition. -/
def Rule.isWritable : Rule → Bool
  | .conditional condition label => condition.isChain && Policy.standard.knows label
  | .fallback label => Policy.standard.knows label

theorem exists_ruleTokens {rule : Rule} (h : rule.isWritable) :
    ∃ tokens, RuleTokens rule tokens ∧ ∀ t ∈ tokens, '\n' ∉ t.text := by
  cases rule with
  | conditional c l =>
    simp only [Rule.isWritable, Bool.and_eq_true] at h
    obtain ⟨tokens, hc, hn⟩ := exists_conditionTokens h.1
    obtain ⟨t, hl, ht⟩ := exists_labelToken h.2
    refine ⟨_, .conditional (i := "IF".toList) (t := "THEN".toList) (r := "RETURN".toList)
      (by decide) hc (by decide) (by decide) hl, ?_⟩
    rw [List.forall_mem_append, List.forall_mem_cons]
    exact ⟨⟨by decide, hn⟩, by simpa using ⟨by decide, by decide, ht⟩⟩
  | fallback l =>
    obtain ⟨t, hl, ht⟩ := exists_labelToken h
    refine ⟨_, .fallback (r := "RETURN".toList) (by decide) hl, ?_⟩
    simpa using ⟨by decide, ht⟩

theorem exists_writesRule {rule : Rule} (h : rule.isWritable) : ∃ line, WritesRule rule line := by
  obtain ⟨tokens, hrule, hn⟩ := exists_ruleTokens h
  have hwide := wide_intercalate (ne_nil_of_ruleTokens hrule)
  exact ⟨_, tokens, [], _, [], hrule, hwide, newline_notMem_of_wide hwide hn, rfl, isTail_nil, rfl⟩

end Retention
