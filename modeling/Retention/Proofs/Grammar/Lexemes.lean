import Retention.Proofs.Grammar.Rules

/-!
# What tokens have in common

Every token of a rule starts with no space and ends with no blank. Where a space or a slash
follows it the token ends, so what stands behind that does not matter to the tokens before.
-/

namespace Retention

/-! ## Characters that are no blanks -/

theorem isWordStart_or_isDigit {c : Char} (h : isWordChar c) : isWordStart c ∨ c.isDigit := by
  simp only [isWordChar, isWordStart, Char.isAlphanum, Bool.or_eq_true] at h ⊢
  rcases h with (h | h) | h
  · exact .inl (.inl h)
  · exact .inr h
  · exact .inl (.inr h)

theorem isBlank_eq_false_of_isWordChar {c : Char} (h : isWordChar c) : isBlank c = false := by
  unfold isBlank
  refine decide_eq_false ?_
  rcases isWordStart_or_isDigit h with h | h
  · have hcode := Reader.code_of_isWordStart h
    omega
  · have hmin : 48 ≤ c.toNat := (Char.isDigit_iff_toNat.1 h).1
    have hmax : c.toNat ≤ 57 := (Char.isDigit_iff_toNat.1 h).2
    omega

theorem isBlank_eq_false_of_isDigit {c : Char} (h : c.isDigit) : isBlank c = false := by
  apply isBlank_eq_false_of_isWordChar
  simp [isWordChar, Char.isAlphanum, h]

theorem isBlank_eq_false_of_isNameChar {c : Char} (h : isNameChar c) : isBlank c = false := by
  simp only [isNameChar, Bool.or_eq_true, beq_iff_eq] at h
  rcases h with h | rfl
  · exact isBlank_eq_false_of_isWordChar h
  · decide

theorem isSpace_eq_false_of_isBlank {c : Char} (h : isBlank c = false) : isSpace c = false := by
  rw [Bool.eq_false_iff]
  intro hspace
  rw [isBlank_of_isSpace c hspace] at h
  cases h

theorem ne_nil_of_isFieldName {name : List Char} (h : isFieldName name) : name ≠ [] := by
  rintro rfl
  cases h

theorem all_isNameChar_of_isFieldName {name : List Char} (h : isFieldName name) :
    name.all isNameChar := by
  cases name with
  | nil => cases h
  | cons c rest =>
    simp only [isFieldName, Bool.and_eq_true] at h
    rw [List.all_cons, h.2, isNameChar, isWordChar_of_isWordStart c h.1]
    rfl

/-- A text whose last character is no blank. -/
def EndsSolid (text : List Char) : Prop := ∃ front c, text = front ++ [c] ∧ isBlank c = false

theorem EndsSolid.append_left {text : List Char} (h : EndsSolid text) (front : List Char) :
    EndsSolid (front ++ text) := by
  obtain ⟨more, c, rfl, hc⟩ := h
  exact ⟨front ++ more, c, (List.append_assoc _ _ _).symm, hc⟩

theorem endsSolid_of_all {p : Char → Bool} (hp : ∀ c, p c → isBlank c = false) {text : List Char}
    (hne : text ≠ []) (hall : text.all p) : EndsSolid text :=
  ⟨text.dropLast, text.getLast hne, (List.dropLast_concat_getLast hne).symm,
    hp _ (List.all_eq_true.1 hall _ (List.getLast_mem hne))⟩

/-- The spaces behind a text are told from the text. -/
theorem EndsSolid.append_inj {a b gap gap' : List Char} (ha : EndsSolid a) (hb : EndsSolid b)
    (hgap : gap.all isSpace) (hgap' : gap'.all isSpace) (h : a ++ gap = b ++ gap') :
    a = b ∧ gap = gap' := by
  have hdrop : ∀ {text gap : List Char}, EndsSolid text → gap.all isSpace →
      (text ++ gap).reverse.dropWhile isSpace = text.reverse := by
    rintro _ gap ⟨front, c, rfl, hc⟩ hgap
    rw [List.reverse_append, List.dropWhile_append_of_pos (by simpa using hgap)]
    simp [isSpace_eq_false_of_isBlank hc]
  have hreverse := hdrop ha hgap
  rw [h, hdrop hb hgap', List.reverse_inj] at hreverse
  subst hreverse
  exact ⟨rfl, List.append_cancel_left h⟩

/-! ## Tokens -/

/-- The tokens that rules are spelled with. -/
inductive Token.Lexical : Token → Prop
  | word {w : List Char} : isFieldName w → Lexical (.word w)
  | bareLabel {name : List Char} : name ≠ [] → name.all isWordChar → Lexical (.bareLabel name)
  | numeral (n : Numeral) : Lexical (.numeral n)
  | quoted {quote : Char} (body : List Char) : Reader.isQuote quote → Lexical (.quoted quote body)
  | comparator (op : Comparator) : Lexical (.comparator op)

theorem length_of_isKeyword {name : String} {w : List Char} (h : Reader.isKeyword name w) :
    w.length = name.toList.length := by
  rw [Reader.isKeyword_iff, List.mem_cons, List.mem_singleton] at h
  rcases h with rfl | rfl
  · rfl
  · exact List.length_map _

theorem lexical_of_isKeyword {name : String} (hname : name ∈ Reader.reservedWords)
    {w : List Char} (h : Reader.isKeyword name w) : (Token.word w).Lexical :=
  .word (Reader.isFieldName_of_isKeyword hname h)

theorem lexical_of_operandToken {o : Operand} {t : Token} (h : OperandToken o t) : t.Lexical := by
  cases h with
  | field hname _ => exact .word hname
  | null hk => exact lexical_of_isKeyword (by decide) hk
  | @number n _ _ => exact .numeral n
  | string hquote _ => exact .quoted _ hquote

theorem lexical_of_termTokens {c : Condition} {tokens : List Token} (h : TermTokens c tokens) :
    ∀ t ∈ tokens, t.Lexical := by
  cases h with
  | true hk | false hk => simpa using lexical_of_isKeyword (by decide) hk
  | @compare _ _ op _ _ hs ht =>
    simpa using ⟨lexical_of_operandToken hs, .comparator op, lexical_of_operandToken ht⟩

theorem lexical_of_conditionTokens {c : Condition} {tokens : List Token}
    (h : ConditionTokens c tokens) : ∀ t ∈ tokens, t.Lexical := by
  induction h with
  | term ht => exact lexical_of_termTokens ht
  | and _ hk ht ih | or _ hk ht ih =>
    rw [List.forall_mem_append, List.forall_mem_cons]
    exact ⟨ih, lexical_of_isKeyword (by decide) hk, lexical_of_termTokens ht⟩

theorem ne_nil_of_conditionTokens {c : Condition} {tokens : List Token}
    (h : ConditionTokens c tokens) : tokens ≠ [] := by
  cases h with
  | term ht => cases ht <;> exact List.cons_ne_nil _ _
  | and _ _ _ | or _ _ _ => exact List.append_ne_nil_of_right_ne_nil _ (List.cons_ne_nil _ _)

theorem lexical_of_labelToken {l : Label} {t : Token} (h : LabelToken l t) : t.Lexical := by
  cases h with
  | bare hne hall => exact .bareLabel hne hall
  | quoted hquote _ _ => exact .quoted _ hquote

theorem ne_nil_of_ruleTokens {rule : Rule} {tokens : List Token} (h : RuleTokens rule tokens) :
    tokens ≠ [] := by
  cases h <;> exact List.cons_ne_nil _ _

theorem lexical_of_ruleTokens {rule : Rule} {tokens : List Token} (h : RuleTokens rule tokens) :
    ∀ t ∈ tokens, t.Lexical := by
  cases h with
  | conditional hi hc ht hr hl =>
    rw [List.forall_mem_append, List.forall_mem_cons]
    refine ⟨⟨lexical_of_isKeyword (by decide) hi, lexical_of_conditionTokens hc⟩, ?_⟩
    simpa using ⟨lexical_of_isKeyword (by decide) ht, lexical_of_isKeyword (by decide) hr,
      lexical_of_labelToken hl⟩
  | fallback hr hl =>
    simpa using ⟨lexical_of_isKeyword (by decide) hr, lexical_of_labelToken hl⟩

namespace Token.Lexical

theorem solid {t : Token} (h : t.Lexical) : Reader.Solid t := by
  cases h with
  | word hw => exact Reader.solid_word hw
  | bareLabel hne hall => exact Reader.solid_bareLabel hne hall
  | numeral n => exact Reader.solid_numeral n
  | quoted body hquote => exact Reader.solid_quoted hquote body
  | comparator op => exact Reader.solid_comparator op

theorem endsSolid {t : Token} (h : t.Lexical) : EndsSolid t.text := by
  cases h with
  | word hw =>
    exact endsSolid_of_all (fun _ => isBlank_eq_false_of_isNameChar) (ne_nil_of_isFieldName hw)
      (all_isNameChar_of_isFieldName hw)
  | bareLabel hne hall => exact endsSolid_of_all (fun _ => isBlank_eq_false_of_isWordChar) hne hall
  | numeral n =>
    have hdigit : ∀ c : Char, c.isDigit → isBlank c = false :=
      fun _ => isBlank_eq_false_of_isDigit
    unfold Token.numeral Numeral.text Numeral.fractionText
    split
    · rw [List.append_nil]
      exact (endsSolid_of_all hdigit n.whole_ne_nil n.whole_digits).append_left _
    · rename_i hne
      rw [List.append_cons]
      exact (endsSolid_of_all hdigit hne n.fraction_digits).append_left _
  | @quoted quote body hquote =>
    refine ⟨quote :: body, quote, rfl, ?_⟩
    simp only [Reader.isQuote, decide_eq_true_eq] at hquote
    rcases hquote with rfl | rfl <;> rfl
  | comparator op =>
    cases op with
    | eq => exact ⟨['='], '=', rfl, rfl⟩
    | ne => exact ⟨['!'], '=', rfl, rfl⟩
    | gt => exact ⟨[], '>', rfl, rfl⟩
    | ge => exact ⟨['>'], '=', rfl, rfl⟩
    | lt => exact ⟨[], '<', rfl, rfl⟩
    | le => exact ⟨['<'], '=', rfl, rfl⟩

end Token.Lexical

/-! ## Where tokens end -/

def isBreak (c : Char) : Bool := isSpace c || c == '/'

/-- Every token ends where a text has a space or a slash or ends itself. -/
def breaks (text : List Char) : Bool := text.head?.all isBreak

def Token.Ends (t : Token) : Prop := ∀ rest, breaks rest → t.goesOn rest = false

theorem startsWith_eq_false_of_breaks {p : Char → Bool} (hblank : p ' ' = false)
    (htab : p '\t' = false) (hslash : p '/' = false) {rest : List Char} (h : breaks rest) :
    startsWith p rest = false := by
  cases rest with
  | nil => rfl
  | cons c rest =>
    simp only [breaks, List.head?_cons, Option.all_some, isBreak, isSpace, Bool.or_eq_true,
      decide_eq_true_eq, beq_iff_eq] at h
    rw [startsWith_cons]
    rcases h with (rfl | rfl) | rfl
    · exact hblank
    · exact htab
    · exact hslash

theorem startsWith_append_of_breaks {p : Char → Bool} (hblank : p ' ' = false)
    (htab : p '\t' = false) (hslash : p '/' = false) {more : List Char} (h : breaks more)
    (rest : List Char) : startsWith p (rest ++ more) = startsWith p rest := by
  cases rest with
  | nil => exact startsWith_eq_false_of_breaks hblank htab hslash h
  | cons c rest => rw [List.cons_append, startsWith_cons, startsWith_cons]

theorem startsFraction_append_of_breaks {more : List Char} (h : breaks more) (rest : List Char) :
    Numeral.startsFraction (rest ++ more) = Numeral.startsFraction rest := by
  cases rest with
  | nil =>
    rw [List.nil_append, Numeral.startsFraction.eq_def]
    split
    · cases h
    · rfl
  | cons c rest =>
    rw [List.cons_append]
    by_cases hpoint : c = '.'
    · subst hpoint
      exact startsWith_append_of_breaks rfl rfl rfl h rest
    · simp [Numeral.startsFraction, hpoint]

namespace Token.Lexical

/-- What stands behind a space or a slash is no matter to a token before. -/
theorem goesOn_append {t : Token} (h : t.Lexical) {more : List Char} (hmore : breaks more)
    (rest : List Char) : t.goesOn (rest ++ more) = t.goesOn rest := by
  cases h with
  | word _ | bareLabel _ _ => exact startsWith_append_of_breaks rfl rfl rfl hmore rest
  | numeral n =>
    show n.goesOn (rest ++ more) = n.goesOn rest
    rw [Numeral.goesOn, startsFraction_append_of_breaks hmore,
      startsWith_append_of_breaks rfl rfl rfl hmore]
    rfl
  | quoted _ _ => rfl
  | comparator op =>
    have hequals : startsWith (· == '=') (rest ++ more) = startsWith (· == '=') rest :=
      startsWith_append_of_breaks rfl rfl rfl hmore rest
    simp only [Token.comparator, hequals]

theorem ends {t : Token} (h : t.Lexical) : t.Ends := by
  intro rest hrest
  have hnil : t.goesOn [] = false := by
    cases h with
    | word _ | bareLabel _ _ | quoted _ _ => rfl
    | numeral n => simp [Token.numeral, Numeral.goesOn, startsWith, Numeral.startsFraction]
    | comparator op => simp [Token.comparator, startsWith]
  rw [← hnil, ← h.goesOn_append hrest []]
  rfl

end Token.Lexical

/-! ## Tokens in a text -/

section

variable {tokens : List Token} {text rest more : List Char}

theorem suffix_of_spaced (h : Spaced tokens text rest) : rest <:+ text := by
  induction h with
  | nil => exact List.suffix_rfl
  | cons _ _ _ ih => exact ih.trans (List.suffix_append _ _)

theorem spaced_gap_iff (hlex : ∀ t ∈ tokens, t.Lexical) (hne : tokens ≠ []) {gap : List Char}
    (hgap : gap.all isSpace) : Spaced tokens (gap ++ text) rest ↔ Spaced tokens text rest := by
  obtain ⟨t, more, rfl⟩ := List.exists_cons_of_ne_nil hne
  have ht := (hlex t List.mem_cons_self).solid
  rw [spaced_cons_iff, spaced_cons_iff]
  simp only [Reader.spaced_iff_of_solid ht, List.dropWhile_append_of_pos (List.all_eq_true.1 hgap)]

theorem spaced_token {t : Token} (hends : t.goesOn text = false) (h : Spaced tokens text rest) :
    Spaced (t :: tokens) (t.text ++ text) rest := by
  have hgap : ([] : List Char).all isSpace := rfl
  simpa using Spaced.cons hgap hends h

theorem spaced_singleton_append_iff {t : Token} (ht : t.Lexical) (hmore : breaks more) :
    Spaced [t] (text ++ more) (rest ++ more) ↔ Spaced [t] text rest := by
  simp only [spaced_singleton_iff, ht.goesOn_append hmore, ← List.append_assoc,
    List.append_left_inj]

/-- Tokens are read alike whatever stands behind a space or a slash after them. -/
theorem spaced_append_more_iff (hlex : ∀ t ∈ tokens, t.Lexical) (hmore : breaks more) :
    Spaced tokens (text ++ more) (rest ++ more) ↔ Spaced tokens text rest := by
  induction tokens generalizing text with
  | nil =>
    constructor
    · intro h
      generalize htext : text ++ more = a at h
      generalize hrest : rest ++ more = b at h
      cases h
      rw [List.append_cancel_right (htext.trans hrest.symm)]
      exact .nil rest
    · rintro ⟨⟩
      exact .nil _
  | cons t tokens ih =>
    rw [List.forall_mem_cons] at hlex
    rw [spaced_cons_iff, spaced_cons_iff]
    constructor
    · rintro ⟨between, h, hs⟩
      obtain ⟨front, rfl⟩ := suffix_of_spaced hs
      rw [← List.append_assoc] at h hs
      exact ⟨front ++ rest, (spaced_singleton_append_iff hlex.1 hmore).1 h, (ih hlex.2).1 hs⟩
    · rintro ⟨between, h, hs⟩
      exact ⟨between ++ more, (spaced_singleton_append_iff hlex.1 hmore).2 h, (ih hlex.2).2 hs⟩

/-- What is read ends with no blank. -/
theorem exists_front_of_spaced (hlex : ∀ t ∈ tokens, t.Lexical) (hne : tokens ≠ [])
    (h : Spaced tokens text rest) : ∃ front, EndsSolid front ∧ text = front ++ rest := by
  induction h with
  | nil => exact absurd rfl hne
  | @cons gap between rest t tokens _ _ h ih =>
    rw [List.forall_mem_cons] at hlex
    by_cases hnil : tokens = []
    · subst hnil
      cases h
      exact ⟨_, hlex.1.endsSolid.append_left gap, rfl⟩
    · obtain ⟨front, hfront, rfl⟩ := ih hlex.2 hnil
      exact ⟨_, hfront.append_left (gap ++ t.text), (List.append_assoc _ _ _).symm⟩

/-- The tokens of a condition are read behind the `IF` of a rule. -/
theorem spaced_of_spaced_if {i : List Char} (hi : Reader.isKeyword "IF" i)
    (hlex : ∀ t ∈ tokens, t.Lexical) (hne : tokens ≠ [])
    (h : Spaced (.word i :: tokens) ("IF".toList ++ ' ' :: text) rest) :
    Spaced tokens text rest := by
  have hsolid := Reader.solid_word (Reader.isFieldName_of_isKeyword (by decide) hi)
  obtain ⟨between, hword, hs⟩ := spaced_cons_iff.1 h
  have htext : "IF".toList ++ ' ' :: text = i ++ between :=
    ((Reader.spaced_iff_of_solid hsolid).1 hword).2
  obtain ⟨-, rfl⟩ := List.append_inj htext (length_of_isKeyword hi).symm
  have hspace : [' '].all isSpace := rfl
  exact (spaced_gap_iff hlex hne hspace).1 hs

/-- The last token is found by its length alone, and what stands before it ends in the spaces
between the tokens. -/
theorem exists_gap_of_spaced_concat {before : List Token} {t : Token}
    (hlex : ∀ s ∈ before, s.Lexical) (hne : before ≠ []) {front last : List Char}
    (hlength : t.text.length = last.length)
    (h : Spaced (before ++ [t]) (front ++ last ++ rest) rest) :
    t.text = last ∧ ∃ solid gap, EndsSolid solid ∧ gap.all isSpace ∧ front = solid ++ gap ∧
      Spaced before (front ++ last ++ rest) (gap ++ last ++ rest) := by
  obtain ⟨between, hbefore, hlast⟩ := spaced_append_iff.1 h
  obtain ⟨gap, hgap, -, rfl⟩ := spaced_singleton_iff.1 hlast
  obtain ⟨solid, hsolid, htext⟩ := exists_front_of_spaced hlex hne hbefore
  rw [← List.append_assoc, ← List.append_assoc, List.append_left_inj] at htext
  obtain ⟨hfront, rfl⟩ := List.append_inj' htext hlength.symm
  exact ⟨rfl, solid, gap, hsolid, hgap, hfront, hbefore⟩

end

end Retention
