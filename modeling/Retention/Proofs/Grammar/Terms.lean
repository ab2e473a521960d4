import Retention.Proofs.Grammar.Numerals

/-!
# Reading terms

The first character of an operand decides which kind it is. A longer comparator comes before the
one it starts with. A word that is no operand can only be a whole term.
-/

namespace Retention.Reader

/-! ## First characters -/

theorem code_of_isUpper {c : Char} (h : c.isUpper) : 65 ≤ c.toNat ∧ c.toNat ≤ 90 :=
  of_decide_eq_true h

theorem code_of_isLower {c : Char} (h : c.isLower) : 97 ≤ c.toNat ∧ c.toNat ≤ 122 :=
  (Bool.and_eq_true_iff.1 h).imp of_decide_eq_true of_decide_eq_true

theorem code_of_isWordStart {c : Char} (h : isWordStart c) :
    (65 ≤ c.toNat ∧ c.toNat ≤ 90) ∨ c.toNat = 95 ∨ (97 ≤ c.toNat ∧ c.toNat ≤ 122) := by
  simp only [isWordStart, Bool.or_eq_true, beq_iff_eq] at h
  rcases h with h | rfl
  · rcases Bool.or_eq_true_iff.1 h with h | h
    · exact .inl (code_of_isUpper h)
    · exact .inr (.inr (code_of_isLower h))
  · exact .inr (.inl rfl)

theorem isStart_eq_false_of_isWordStart (c : Char) (h : isWordStart c) :
    Numeral.isStart c = false := by
  rw [Bool.eq_false_iff]
  intro hs
  have hcode := code_of_isWordStart h
  simp only [Numeral.isStart, Bool.or_eq_true, beq_iff_eq] at hs
  rcases hs with rfl | hs
  · exact absurd h (by decide)
  · have hmax : c.toNat ≤ 57 := (Char.isDigit_iff_toNat.1 hs).2
    omega

/-! ## Operands -/

theorem fieldOrNull_iff {text rest : List Char} {o : Operand} :
    fieldOrNull text = .ok (o, rest) ↔ ∃ w, ((isKeyword "NULL" w ∧ o = .literal .null) ∨
      (isReserved w = false ∧ o = .field (String.ofList w))) ∧
      text = w ++ rest ∧ isFieldName w ∧ startsWith isNameChar rest = false := by
  unfold fieldOrNull
  simp only [bind_eq_ok_iff, word_iff]
  constructor
  · rintro ⟨w, _, hread, h⟩
    split at h
    · rename_i hnull
      cases h
      exact ⟨w, .inl ⟨hnull, rfl⟩, hread⟩
    · split at h
      · cases h
      · rename_i hreserved
        cases h
        exact ⟨w, .inr ⟨by simpa using hreserved, rfl⟩, hread⟩
  · rintro ⟨w, ⟨hnull, rfl⟩ | ⟨hfree, rfl⟩, hread⟩
    · exact ⟨w, rest, hread, by rw [if_pos hnull]; rfl⟩
    · have hnull : ¬ isKeyword "NULL" w := by
        intro h
        rw [isReserved_of_isKeyword (by decide) h] at hfree
        cases hfree
      refine ⟨w, rest, hread, ?_⟩
      rw [if_neg hnull, hfree]
      rfl

theorem numeralOperand_iff {text rest : List Char} {o : Operand} :
    numeralOperand text = .ok (o, rest) ↔ ∃ n : Numeral, o = .literal (.number n.value) ∧
      n.goesOn rest = false ∧ text = n.text ++ rest := by
  unfold numeralOperand
  simp only [bind_eq_ok_iff, numeral_iff, pure_apply, Except.ok.injEq, Prod.mk.injEq]
  constructor
  · rintro ⟨_, _, ⟨n, rfl, hread⟩, rfl, rfl⟩
    exact ⟨n, rfl, hread⟩
  · rintro ⟨n, rfl, hread⟩
    exact ⟨n.value, rest, ⟨n, rfl, hread⟩, rfl, rfl⟩

theorem quotedOperand_iff {text rest : List Char} {o : Operand} :
    quotedOperand text = .ok (o, rest) ↔ ∃ quote body content, isQuote quote ∧
      QuotedBody quote body content ∧ o = .literal (.string (String.ofList content)) ∧
      text = (Token.quoted quote body).text ++ rest := by
  unfold quotedOperand
  simp only [bind_eq_ok_iff, quoted_iff, pure_apply, Except.ok.injEq, Prod.mk.injEq]
  constructor
  · rintro ⟨_, _, ⟨quote, body, content, hquote, hbody, rfl, rfl⟩, rfl, rfl⟩
    exact ⟨quote, body, content, hquote, hbody, rfl, rfl⟩
  · rintro ⟨quote, body, content, hquote, hbody, rfl, rfl⟩
    exact ⟨_, rest, ⟨quote, body, content, hquote, hbody, rfl, rfl⟩, rfl, rfl⟩

theorem declines_quotedOperand {text : List Char} (h : startsWith isQuote text = false) :
    Declines quotedOperand text :=
  declines_bind (declines_quoted h)

theorem declines_numeralOperand {text : List Char} (h : startsWith Numeral.isStart text = false) :
    Declines numeralOperand text :=
  declines_bind (declines_numeral h)

/-- What starts with a letter is read as a word. -/
theorem operand_of_word {text body : List Char} (hbody : text.dropWhile isSpace = body)
    (h : startsWith isWordStart body) {result : Operand × List Char} :
    operand text = .ok result ↔ fieldOrNull body = .ok result := by
  unfold operand
  rw [spaces_bind, noting_eq_ok_iff, hbody]
  rw [either_eq_of_declines (declines_quotedOperand
      (startsWith_eq_false_of_disjoint (isQuote_eq_false rfl rfl) h)),
    either_eq_of_declines (declines_numeralOperand
      (startsWith_eq_false_of_disjoint isStart_eq_false_of_isWordStart h))]

theorem exists_token_of_operand {text rest : List Char} {o : Operand}
    (h : operand text = .ok (o, rest)) : ∃ t, OperandToken o t ∧ Spaced [t] text rest := by
  unfold operand at h
  rw [spaces_bind, noting_eq_ok_iff, either_eq_ok_iff, either_eq_ok_iff, quotedOperand_iff,
    numeralOperand_iff, fieldOrNull_iff] at h
  rcases h with ⟨quote, body, content, hquote, hbody, rfl, h⟩ |
    ⟨-, ⟨n, rfl, hends, h⟩ | ⟨-, w, hword, h, hw, hrest⟩⟩
  · exact ⟨_, .string hquote hbody, (spaced_iff_of_solid (solid_quoted hquote body)).2 ⟨rfl, h⟩⟩
  · exact ⟨_, .number n.read?_text, (spaced_iff_of_solid (solid_numeral n)).2 ⟨hends, h⟩⟩
  · refine ⟨.word w, ?_, (spaced_iff_of_solid (solid_word hw)).2 ⟨hrest, h⟩⟩
    rcases hword with ⟨hnull, rfl⟩ | ⟨hfree, rfl⟩
    · exact .null hnull
    · exact .field hw hfree

theorem operand_of_token {text rest : List Char} {o : Operand} {t : Token} (ho : OperandToken o t)
    (h : Spaced [t] text rest) : operand text = .ok (o, rest) := by
  cases ho with
  | field hw hfree =>
    obtain ⟨hrest, htext⟩ := (spaced_iff_of_solid (solid_word hw)).1 h
    rw [operand_of_word htext (startsWith_isWordStart_of_isFieldName hw rest), fieldOrNull_iff]
    exact ⟨_, .inr ⟨hfree, rfl⟩, rfl, hw, hrest⟩
  | null hnull =>
    have hw := isFieldName_of_isKeyword (by decide) hnull
    obtain ⟨hrest, htext⟩ := (spaced_iff_of_solid (solid_word hw)).1 h
    rw [operand_of_word htext (startsWith_isWordStart_of_isFieldName hw rest), fieldOrNull_iff]
    exact ⟨_, .inl ⟨hnull, rfl⟩, rfl, hw, hrest⟩
  | @number n x hx =>
    obtain ⟨hends, htext⟩ := (spaced_iff_of_solid (solid_numeral n)).1 h
    change text.dropWhile isSpace = n.text ++ rest at htext
    rw [n.read?_text] at hx
    cases hx
    have hquote : startsWith isQuote (n.text ++ rest) = false :=
      startsWith_eq_false_of_disjoint (isQuote_eq_false rfl rfl) (n.startsWith_text rest)
    unfold operand
    rw [spaces_bind, noting_eq_ok_iff, htext, either_eq_of_declines (declines_quotedOperand hquote)]
    exact either_eq_of_ok (numeralOperand_iff.2 ⟨n, rfl, hends, rfl⟩) _
  | @string quote body content hquote hbody =>
    obtain ⟨-, htext⟩ := (spaced_iff_of_solid (solid_quoted hquote body)).1 h
    unfold operand
    rw [spaces_bind, noting_eq_ok_iff, htext]
    exact either_eq_of_ok (quotedOperand_iff.2 ⟨quote, body, content, hquote, hbody, rfl, rfl⟩) _

theorem operand_iff {text rest : List Char} {o : Operand} :
    operand text = .ok (o, rest) ↔ ∃ t, OperandToken o t ∧ Spaced [t] text rest := by
  constructor
  · intro h
    exact exists_token_of_operand h
  · rintro ⟨t, ho, h⟩
    exact operand_of_token ho h

/-- A reserved word other than NULL is no operand. -/
theorem declines_operand_of_keyword {name : String} (hname : name ∈ reservedWords)
    (hnull : name ≠ "NULL") {w text rest : List Char} (hk : isKeyword name w)
    (h : Spaced [.word w] text rest) : Declines operand text := by
  have hw := isFieldName_of_isKeyword hname hk
  obtain ⟨hrest, htext⟩ := (spaced_iff_of_solid (solid_word hw)).1 h
  have hstart := startsWith_isWordStart_of_isFieldName hw rest
  have hno : ¬ isKeyword "NULL" w := fun h' =>
    hnull (eq_of_isKeyword hname (by decide) hk h')
  unfold Declines operand
  rw [spaces_bind, htext]
  refine declines_noting (declines_either (declines_quotedOperand ?_)
    (declines_either (declines_numeralOperand ?_) ?_))
  · exact startsWith_eq_false_of_disjoint (isQuote_eq_false rfl rfl) hstart
  · exact startsWith_eq_false_of_disjoint isStart_eq_false_of_isWordStart hstart
  · refine declines_bind_of_ok (word_iff.2 ⟨rfl, hw, hrest⟩) ?_
    unfold Token.word
    rw [if_neg hno, if_pos (isReserved_of_isKeyword hname hk)]
    exact declines_fail rest

/-! ## Comparators -/

theorem symbol_iff {op found : Comparator} {text rest : List Char} :
    symbol op text = .ok (found, rest) ↔ found = op ∧ text = op.text.toList ++ rest := by
  unfold symbol
  simp only [bind_eq_ok_iff, pure_apply, Except.ok.injEq, Prod.mk.injEq]
  constructor
  · rintro ⟨⟨⟩, _, h, rfl, rfl⟩
    exact ⟨rfl, exactly_eq_ok_iff.1 h⟩
  · rintro ⟨rfl, h⟩
    exact ⟨(), rest, exactly_eq_ok_iff.2 h, rfl, rfl⟩

theorem declines_symbol_iff {op : Comparator} {text : List Char} :
    Declines (symbol op) text ↔ ¬ op.text.toList <+: text := by
  constructor
  · rintro h ⟨rest, rfl⟩
    exact ne_ok_of_declines h _ (symbol_iff.2 ⟨rfl, rfl⟩)
  · intro h
    exact declines_bind (declines_exactly h)

theorem solid_comparator (op : Comparator) : Solid (.comparator op) := by
  cases op <;> exact ⟨List.cons_ne_nil _ _, rfl⟩

/-- Two comparators at the front of one text are the same one with and without an equals sign. -/
theorem comparator_prefix_iff {op other : Comparator} {rest : List Char} :
    other.text.toList <+: op.text.toList ++ rest ↔ other = op ∨
      (op = .ge ∧ other = .gt) ∨ (op = .le ∧ other = .lt) ∨
      (((op = .gt ∧ other = .ge) ∨ (op = .lt ∧ other = .le)) ∧ startsWith (· == '=') rest) := by
  cases op <;> cases other <;> simp [Comparator.text, List.cons_prefix_cons, singleton_prefix_iff]

/-- A comparator is passed over unless it is the one that stands there or starts it. -/
theorem either_symbol_of_ne {op other : Comparator} {rest : List Char}
    (hends : (Token.comparator op).goesOn rest = false)
    (hne : other ≠ op ∧ (op = .ge → other ≠ .gt) ∧ (op = .le → other ≠ .lt))
    (second : Reader Comparator) :
    either (symbol other) second ((Token.comparator op).text ++ rest) =
      second ((Token.comparator op).text ++ rest) := by
  refine either_eq_of_declines (declines_symbol_iff.2 fun h => ?_) second
  rcases comparator_prefix_iff.1 h with h | ⟨h, h'⟩ | ⟨h, h'⟩ | ⟨h, hequals⟩
  · exact hne.1 h
  · exact hne.2.1 h h'
  · exact hne.2.2 h h'
  · rcases h with ⟨rfl, -⟩ | ⟨rfl, -⟩ <;> simp [Token.comparator, hequals] at hends

theorem spaced_of_comparator {text rest : List Char} {op : Comparator}
    (h : comparator text = .ok (op, rest)) : Spaced [.comparator op] text rest := by
  rw [spaced_iff_of_solid (solid_comparator op)]
  unfold comparator at h
  rw [spaces_bind, noting_eq_ok_iff] at h
  simp only [either_eq_ok_iff, symbol_iff] at h
  rcases h with ⟨rfl, h⟩ | ⟨hge, ⟨rfl, h⟩ | ⟨-, ⟨rfl, h⟩ | ⟨hle, ⟨rfl, h⟩ | ⟨-, ⟨rfl, h⟩ |
    ⟨-, rfl, h⟩⟩⟩⟩⟩
  · exact ⟨rfl, h⟩
  · have hlonger := declines_symbol_iff.1 hge
    rw [h, comparator_prefix_iff] at hlonger
    exact ⟨by simpa [Token.comparator] using hlonger, h⟩
  · exact ⟨rfl, h⟩
  · have hlonger := declines_symbol_iff.1 hle
    rw [h, comparator_prefix_iff] at hlonger
    exact ⟨by simpa [Token.comparator] using hlonger, h⟩
  · exact ⟨rfl, h⟩
  · exact ⟨rfl, h⟩

theorem comparator_of_token {text rest : List Char} {op : Comparator}
    (h : Spaced [.comparator op] text rest) : comparator text = .ok (op, rest) := by
  obtain ⟨hends, htext⟩ := (spaced_iff_of_solid (solid_comparator op)).1 h
  have hok : symbol op ((Token.comparator op).text ++ rest) = .ok (op, rest) :=
    symbol_iff.2 ⟨rfl, rfl⟩
  unfold comparator
  rw [spaces_bind, noting_eq_ok_iff, htext]
  cases op with
  | ge => exact either_eq_of_ok hok _
  | gt =>
    rw [either_symbol_of_ne hends (by decide)]
    exact either_eq_of_ok hok _
  | le =>
    rw [either_symbol_of_ne hends (by decide), either_symbol_of_ne hends (by decide)]
    exact either_eq_of_ok hok _
  | lt =>
    rw [either_symbol_of_ne hends (by decide), either_symbol_of_ne hends (by decide),
      either_symbol_of_ne hends (by decide)]
    exact either_eq_of_ok hok _
  | eq =>
    rw [either_symbol_of_ne hends (by decide), either_symbol_of_ne hends (by decide),
      either_symbol_of_ne hends (by decide), either_symbol_of_ne hends (by decide)]
    exact either_eq_of_ok hok _
  | ne =>
    rw [either_symbol_of_ne hends (by decide), either_symbol_of_ne hends (by decide),
      either_symbol_of_ne hends (by decide), either_symbol_of_ne hends (by decide),
      either_symbol_of_ne hends (by decide)]
    exact hok

theorem comparator_iff {text rest : List Char} {op : Comparator} :
    comparator text = .ok (op, rest) ↔ Spaced [.comparator op] text rest :=
  ⟨spaced_of_comparator, comparator_of_token⟩

/-! ## Terms -/

theorem comparison_iff {text rest : List Char} {c : Condition} :
    comparison text = .ok (c, rest) ↔ ∃ l op r s t, OperandToken l s ∧ OperandToken r t ∧
      c = .compare ⟨l, op, r⟩ ∧ Spaced [s, .comparator op, t] text rest := by
  unfold comparison
  simp only [bind_eq_ok_iff, commit_eq_ok_iff, operand_iff, comparator_iff, pure_apply,
    Except.ok.injEq, Prod.mk.injEq]
  constructor
  · rintro ⟨l, _, ⟨s, hs, h1⟩, op, _, h2, r, _, ⟨t, ht, h3⟩, rfl, rfl⟩
    exact ⟨l, op, r, s, t, hs, ht, rfl, spaced_cons_iff.2 ⟨_, h1, spaced_cons_iff.2 ⟨_, h2, h3⟩⟩⟩
  · rintro ⟨l, op, r, s, t, hs, ht, rfl, h⟩
    obtain ⟨_, h1, h⟩ := spaced_cons_iff.1 h
    obtain ⟨_, h2, h3⟩ := spaced_cons_iff.1 h
    exact ⟨l, _, ⟨s, hs, h1⟩, op, _, h2, r, _, ⟨t, ht, h3⟩, rfl, rfl⟩

theorem declines_comparison {text : List Char} (h : Declines operand text) :
    Declines comparison text :=
  declines_bind h

theorem constant_iff {text rest : List Char} {c : Condition} :
    constant text = .ok (c, rest) ↔ ∃ w, ((isKeyword "TRUE" w ∧ c = .const true) ∨
      (isKeyword "FALSE" w ∧ c = .const false)) ∧ Spaced [.word w] text rest := by
  unfold constant
  rw [spaces_bind]
  simp only [bind_eq_ok_iff, word_iff]
  constructor
  · rintro ⟨w, _, ⟨htext, hw, hrest⟩, h⟩
    have hspaced := (spaced_iff_of_solid (solid_word hw)).2 ⟨hrest, htext⟩
    split at h
    · rename_i htrue
      cases h
      exact ⟨w, .inl ⟨htrue, rfl⟩, hspaced⟩
    · split at h
      · rename_i hfalse
        cases h
        exact ⟨w, .inr ⟨hfalse, rfl⟩, hspaced⟩
      · cases h
  · rintro ⟨w, ⟨hk, rfl⟩ | ⟨hk, rfl⟩, h⟩
    · have hw := isFieldName_of_isKeyword (by decide) hk
      obtain ⟨hrest, htext⟩ := (spaced_iff_of_solid (solid_word hw)).1 h
      exact ⟨w, rest, ⟨htext, hw, hrest⟩, by rw [if_pos hk]; rfl⟩
    · have hw := isFieldName_of_isKeyword (by decide) hk
      obtain ⟨hrest, htext⟩ := (spaced_iff_of_solid (solid_word hw)).1 h
      have htrue : ¬ isKeyword "TRUE" w := fun h' =>
        absurd (eq_of_isKeyword (by decide) (by decide) h' hk) (by decide)
      exact ⟨w, rest, ⟨htext, hw, hrest⟩, by rw [if_neg htrue, if_pos hk]; rfl⟩

theorem term_iff {text rest : List Char} {c : Condition} :
    term text = .ok (c, rest) ↔ ∃ tokens, TermTokens c tokens ∧ Spaced tokens text rest := by
  unfold term
  rw [noting_eq_ok_iff]
  constructor
  · intro h
    rw [either_eq_ok_iff, comparison_iff, constant_iff] at h
    rcases h with ⟨l, op, r, s, t, hs, ht, rfl, h⟩ | ⟨-, w, ⟨hk, rfl⟩ | ⟨hk, rfl⟩, h⟩
    · exact ⟨_, .compare hs ht, h⟩
    · exact ⟨_, .true hk, h⟩
    · exact ⟨_, .false hk, h⟩
  · rintro ⟨_, hc, h⟩
    cases hc with
    | true hk =>
      have hno := declines_operand_of_keyword (by decide) (by decide) hk h
      rw [either_eq_of_declines (declines_comparison hno)]
      exact constant_iff.2 ⟨_, .inl ⟨hk, rfl⟩, h⟩
    | false hk =>
      have hno := declines_operand_of_keyword (by decide) (by decide) hk h
      rw [either_eq_of_declines (declines_comparison hno)]
      exact constant_iff.2 ⟨_, .inr ⟨hk, rfl⟩, h⟩
    | compare hs ht => exact either_eq_of_ok (comparison_iff.2 ⟨_, _, _, _, _, hs, ht, rfl, h⟩) _

end Retention.Reader
