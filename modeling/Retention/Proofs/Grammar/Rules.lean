import Mathlib.Data.List.TakeWhile
import Retention.ParseError
import Retention.Proofs.Grammar.Conditions

/-!
# What the grammar accepts

A text is read as a condition or as a rule exactly when it spells it, and nothing in the text is
left out but spaces and the comment at its end.
-/

namespace Retention

namespace Reader

/-! ## Labels -/

theorem startsWith_isWordChar_append {name : List Char} (hne : name ≠ [])
    (hall : name.all isWordChar) (rest : List Char) : startsWith isWordChar (name ++ rest) := by
  obtain ⟨c, more, rfl⟩ := List.exists_cons_of_ne_nil hne
  rw [List.all_cons, Bool.and_eq_true] at hall
  simpa using hall.1

theorem solid_bareLabel {name : List Char} (hne : name ≠ []) (hall : name.all isWordChar) :
    Solid (.bareLabel name) := by
  have h := startsWith_isWordChar_append hne hall []
  rw [List.append_nil] at h
  exact ⟨hne, startsWith_eq_false_of_disjoint (isSpace_eq_false rfl rfl) h⟩

theorem bareLabel_iff {text rest : List Char} {l : Label} :
    bareLabel text = .ok (l, rest) ↔ ∃ name, l = ⟨String.ofList name⟩ ∧ text = name ++ rest ∧
      name ≠ [] ∧ name.all isWordChar ∧ startsWith isWordChar rest = false := by
  unfold bareLabel
  simp only [bind_eq_ok_iff, many1_iff, pure_apply, Except.ok.injEq, Prod.mk.injEq]
  constructor
  · rintro ⟨name, _, h, rfl, rfl⟩
    exact ⟨name, rfl, h⟩
  · rintro ⟨name, rfl, h⟩
    exact ⟨name, rest, h, rfl, rfl⟩

theorem quotedLabel_iff {text rest : List Char} {l : Label} :
    quotedLabel text = .ok (l, rest) ↔ ∃ quote body name, isQuote quote ∧
      QuotedBody quote body name ∧ name ≠ [] ∧ l = ⟨String.ofList name⟩ ∧
      text = (Token.quoted quote body).text ++ rest := by
  unfold quotedLabel
  simp only [bind_eq_ok_iff, quoted_iff]
  constructor
  · rintro ⟨_, _, ⟨quote, body, name, hquote, hbody, rfl, rfl⟩, h⟩
    split at h
    · cases h
    · rename_i hne
      cases h
      refine ⟨quote, body, name, hquote, hbody, ?_, rfl, rfl⟩
      rintro rfl
      exact hne rfl
  · rintro ⟨quote, body, name, hquote, hbody, hne, rfl, rfl⟩
    refine ⟨_, rest, ⟨quote, body, name, hquote, hbody, rfl, rfl⟩, ?_⟩
    rw [if_neg]
    · rfl
    · intro h
      exact hne (by simpa using congrArg String.toList h)

theorem label_iff {text rest : List Char} {l : Label} :
    label text = .ok (l, rest) ↔ ∃ t, LabelToken l t ∧ Spaced [t] text rest := by
  unfold label
  rw [spaces_bind, noting_eq_ok_iff]
  constructor
  · intro h
    rw [either_eq_ok_iff, quotedLabel_iff, bareLabel_iff] at h
    rcases h with ⟨quote, body, name, hquote, hbody, hne, rfl, h⟩ |
      ⟨-, name, rfl, h, hne, hall, hrest⟩
    · exact ⟨_, .quoted hquote hbody hne,
        (spaced_iff_of_solid (solid_quoted hquote body)).2 ⟨rfl, h⟩⟩
    · exact ⟨_, .bare hne hall, (spaced_iff_of_solid (solid_bareLabel hne hall)).2 ⟨hrest, h⟩⟩
  · rintro ⟨_, hl, h⟩
    cases hl with
    | @bare name hne hall =>
      obtain ⟨hrest, htext⟩ := (spaced_iff_of_solid (solid_bareLabel hne hall)).1 h
      change text.dropWhile isSpace = name ++ rest at htext
      have hquote : startsWith isQuote (name ++ rest) = false :=
        startsWith_eq_false_of_disjoint (isQuote_eq_false rfl rfl)
          (startsWith_isWordChar_append hne hall rest)
      have hno : Declines quotedLabel (name ++ rest) := declines_bind (declines_quoted hquote)
      rw [htext, either_eq_of_declines hno]
      exact bareLabel_iff.2 ⟨name, rfl, rfl, hne, hall, hrest⟩
    | @quoted quote body name hquote hbody hne =>
      obtain ⟨-, htext⟩ := (spaced_iff_of_solid (solid_quoted hquote body)).1 h
      exact either_eq_of_ok
        (quotedLabel_iff.2 ⟨quote, body, name, hquote, hbody, hne, rfl, htext⟩) _

/-! ## Rules -/

theorem conditional_iff {text rest : List Char} {rule : Rule} :
    conditional text = .ok (rule, rest) ↔ ∃ c l i t r tokens last, rule = .conditional c l ∧
      isKeyword "IF" i ∧ ConditionTokens c tokens ∧ isKeyword "THEN" t ∧ isKeyword "RETURN" r ∧
      LabelToken l last ∧ Spaced (.word i :: tokens ++ [.word t, .word r, last]) text rest := by
  unfold conditional
  simp only [bind_eq_ok_iff, noting_eq_ok_iff, commit_eq_ok_iff, condition_iff, label_iff,
    pure_apply, Except.ok.injEq, Prod.mk.injEq]
  constructor
  · rintro ⟨⟨⟩, _, hi, c, _, ⟨⟨tokens, hc, hs⟩, -⟩, ⟨⟩, _, ht, ⟨⟩, _, hr, l, _, ⟨last, hl, hlast⟩,
      rfl, rfl⟩
    obtain ⟨i, hki, hi⟩ := (keyword_iff (by decide)).1 hi
    obtain ⟨t, hkt, ht⟩ := (keyword_iff (by decide)).1 ht
    obtain ⟨r, hkr, hr⟩ := (keyword_iff (by decide)).1 hr
    refine ⟨c, l, i, t, r, tokens, last, rfl, hki, hc, hkt, hkr, hl, ?_⟩
    have hend := spaced_cons_iff.2 ⟨_, ht, spaced_cons_iff.2 ⟨_, hr, hlast⟩⟩
    exact spaced_append_iff.2 ⟨_, spaced_cons_iff.2 ⟨_, hi, hs⟩, hend⟩
  · rintro ⟨c, l, i, t, r, tokens, last, rfl, hki, hc, hkt, hkr, hl, h⟩
    obtain ⟨_, hstart, hend⟩ := spaced_append_iff.1 h
    obtain ⟨_, hi, hs⟩ := spaced_cons_iff.1 hstart
    obtain ⟨_, ht, hend⟩ := spaced_cons_iff.1 hend
    obtain ⟨_, hr, hlast⟩ := spaced_cons_iff.1 hend
    refine ⟨(), _, (keyword_iff (by decide)).2 ⟨i, hki, hi⟩, c, _, ⟨⟨tokens, hc, hs⟩, ?_⟩, (), _,
      (keyword_iff (by decide)).2 ⟨t, hkt, ht⟩, (), _, (keyword_iff (by decide)).2 ⟨r, hkr, hr⟩, l,
      _, ⟨last, hl, hlast⟩, rfl, rfl⟩
    exact not_joinsNext_of_keyword (by decide) (by decide) hkt ht

theorem fallback_iff {text rest : List Char} {rule : Rule} :
    fallback text = .ok (rule, rest) ↔ ∃ l r last, rule = .fallback l ∧ isKeyword "RETURN" r ∧
      LabelToken l last ∧ Spaced [.word r, last] text rest := by
  unfold fallback
  simp only [bind_eq_ok_iff, commit_eq_ok_iff, label_iff, pure_apply, Except.ok.injEq,
    Prod.mk.injEq]
  constructor
  · rintro ⟨⟨⟩, _, hr, l, _, ⟨last, hl, hlast⟩, rfl, rfl⟩
    obtain ⟨r, hkr, hr⟩ := (keyword_iff (by decide)).1 hr
    exact ⟨l, r, last, rfl, hkr, hl, spaced_cons_iff.2 ⟨_, hr, hlast⟩⟩
  · rintro ⟨l, r, last, rfl, hkr, hl, h⟩
    obtain ⟨_, hr, hlast⟩ := spaced_cons_iff.1 h
    exact ⟨(), _, (keyword_iff (by decide)).2 ⟨r, hkr, hr⟩, l, _, ⟨last, hl, hlast⟩, rfl, rfl⟩

theorem rule_iff {text rest : List Char} {rule : Rule} :
    either conditional fallback text = .ok (rule, rest) ↔
      ∃ tokens, RuleTokens rule tokens ∧ Spaced tokens text rest := by
  constructor
  · intro h
    rw [either_eq_ok_iff, conditional_iff, fallback_iff] at h
    rcases h with ⟨c, l, i, t, r, tokens, last, rfl, hi, hc, ht, hr, hl, h⟩ |
      ⟨-, l, r, last, rfl, hr, hl, h⟩
    · exact ⟨_, .conditional hi hc ht hr hl, h⟩
    · exact ⟨_, .fallback hr hl, h⟩
  · rintro ⟨_, hrule, h⟩
    cases hrule with
    | conditional hi hc ht hr hl =>
      exact either_eq_of_ok
        (conditional_iff.2 ⟨_, _, _, _, _, _, _, rfl, hi, hc, ht, hr, hl, h⟩) _
    | fallback hr hl =>
      obtain ⟨_, hword, -⟩ := spaced_cons_iff.1 h
      have hno : Declines conditional text :=
        declines_bind (declines_keyword_of_keyword (by decide) (by decide) (by decide) hr hword)
      rw [either_eq_of_declines hno]
      exact fallback_iff.2 ⟨_, _, _, rfl, hr, hl, h⟩

/-! ## The end of a line -/

theorem restOfLine_iff {text : List Char} :
    restOfLine text = .ok ((), []) ↔ ∀ c ∈ text, c ≠ '\n' ∧ c ≠ '\r' := by
  have hall : (∀ c ∈ text, c ≠ '\n' ∧ c ≠ '\r') ↔ text.dropWhile (!isLineEnd ·) = [] := by
    simp [List.dropWhile_eq_nil_iff, isLineEnd]
  rw [hall]
  unfold restOfLine
  split <;> simp_all

theorem comment_iff {text : List Char} :
    comment text = .ok ((), []) ↔
      ∃ note, text = '/' :: '/' :: note ∧ ∀ c ∈ note, c ≠ '\n' ∧ c ≠ '\r' := by
  unfold comment
  rw [bind_eq_ok_iff]
  constructor
  · rintro ⟨⟨⟩, note, hslashes, h⟩
    exact ⟨note, exactly_eq_ok_iff.1 hslashes, restOfLine_iff.1 h⟩
  · rintro ⟨note, rfl, h⟩
    exact ⟨(), note, exactly_eq_ok_iff.2 rfl, restOfLine_iff.2 h⟩

theorem isTail_iff {text : List Char} :
    (∃ found, optional comment (text.dropWhile isSpace) = .ok (found, [])) ↔ IsTail text := by
  constructor
  · rintro ⟨found, h⟩
    refine ⟨text.takeWhile isSpace, text.dropWhile isSpace, List.all_takeWhile,
      List.takeWhile_append_dropWhile.symm, ?_⟩
    rcases optional_eq_ok_iff.1 h with ⟨⟨⟩, -, h⟩ | ⟨-, h, -⟩
    · exact .inr (comment_iff.1 h)
    · exact .inl h.symm
  · rintro ⟨gap, note, hgap, rfl, hnote⟩
    rw [List.dropWhile_append_of_pos (List.all_eq_true.1 hgap)]
    rcases hnote with rfl | ⟨comment, rfl, hcomment⟩
    · have hno : Declines comment [] := declines_bind (declines_exactly (by simp))
      exact ⟨none, optional_eq_ok_iff.2 (.inr ⟨rfl, rfl, hno⟩)⟩
    · exact ⟨some (), optional_eq_ok_iff.2 (.inl ⟨(), rfl, comment_iff.2 ⟨comment, rfl, hcomment⟩⟩)⟩

/-! ## Whole texts -/

theorem ruleLine_iff {text : List Char} {rule : Rule} :
    ruleLine text = .ok (rule, []) ↔ SpellsRule text rule := by
  unfold ruleLine SpellsRule
  simp only [bind_eq_ok_iff, noting_eq_ok_iff, rule_iff, ← isTail_iff, pure_apply,
    Except.ok.injEq, Prod.mk.injEq]
  constructor
  · rintro ⟨_, tail, ⟨tokens, hrule, h⟩, ⟨⟩, _, ⟨⟩, found, _, htail, rfl, rfl⟩
    exact ⟨tokens, tail, hrule, h, found, htail⟩
  · rintro ⟨tokens, tail, hrule, h, found, htail⟩
    exact ⟨rule, tail, ⟨tokens, hrule, h⟩, (), _, rfl, found, [], htail, rfl, rfl⟩

theorem not_joinsNext_of_spaces {text : List Char} (h : text.all isSpace) : ¬ JoinsNext text := by
  rintro ⟨w, rest, hk, hw⟩
  have hname : isFieldName w := by
    rcases hk with hk | hk
    · exact isFieldName_of_isKeyword (by decide) hk
    · exact isFieldName_of_isKeyword (by decide) hk
  have htext := ((spaced_iff_of_solid (solid_word hname)).1 hw).2
  rw [List.dropWhile_eq_nil_iff.2 (List.all_eq_true.1 h)] at htext
  exact (solid_word hname).1 (List.append_eq_nil_iff.1 htext.symm).1

theorem wholeCondition_iff {text : List Char} {c : Condition} :
    wholeCondition text = .ok (c, []) ↔ SpellsCondition text c := by
  unfold wholeCondition SpellsCondition
  simp only [bind_eq_ok_iff, condition_iff, pure_apply, Except.ok.injEq, Prod.mk.injEq]
  constructor
  · rintro ⟨_, tail, ⟨⟨tokens, hc, h⟩, -⟩, ⟨⟩, _, hspaces, rfl, rfl⟩
    have htail := List.dropWhile_eq_nil_iff.1 (spaces_iff.1 hspaces)
    exact ⟨tokens, tail, hc, h, List.all_eq_true.2 htail⟩
  · rintro ⟨tokens, tail, hc, h, htail⟩
    have hspaces := spaces_iff.2 (List.dropWhile_eq_nil_iff.2 (List.all_eq_true.1 htail))
    exact ⟨c, tail, ⟨⟨tokens, hc, h⟩, not_joinsNext_of_spaces htail⟩, (), [], hspaces, rfl, rfl⟩

end Reader

/-! ## Rules and conditions -/

theorem Rule.parse_eq_ok_iff {text : String} {rule : Rule} :
    Rule.parse text = .ok rule ↔ SpellsRule text.toList rule := by
  rw [← Reader.ruleLine_iff, ← Reader.complete_eq_ok_iff]
  unfold Rule.parse
  split <;> simp [*]

theorem Condition.parse_eq_ok_iff {text : String} {c : Condition} :
    Condition.parse text = .ok c ↔ SpellsCondition text.toList c := by
  rw [← Reader.wholeCondition_iff, ← Reader.complete_eq_ok_iff]
  unfold Condition.parse
  split <;> simp [*]

/-- A rule starts with a keyword. -/
theorem exists_word_of_ruleTokens {rule : Rule} {tokens : List Token} (h : RuleTokens rule tokens) :
    ∃ w more, tokens = .word w :: more ∧ isFieldName w := by
  cases h with
  | conditional hi _ _ _ _ => exact ⟨_, _, rfl, Reader.isFieldName_of_isKeyword (by decide) hi⟩
  | fallback hr _ => exact ⟨_, _, rfl, Reader.isFieldName_of_isKeyword (by decide) hr⟩

theorem startsWith_isWordStart_of_spellsRule {text : List Char} {rule : Rule}
    (h : SpellsRule text rule) : startsWith isWordStart (text.dropWhile isSpace) := by
  obtain ⟨tokens, tail, hrule, hs, -⟩ := h
  obtain ⟨w, more, rfl, hw⟩ := exists_word_of_ruleTokens hrule
  obtain ⟨between, hword, -⟩ := spaced_cons_iff.1 hs
  obtain ⟨-, htext⟩ := (Reader.spaced_iff_of_solid (Reader.solid_word hw)).1 hword
  rw [htext]
  exact Reader.startsWith_isWordStart_of_isFieldName hw between

/-- The grammar accepts what spells a rule or a condition, and nothing else. -/
theorem parse_iff_spells (text : String) :
    (∀ rule, Rule.parse text = .ok rule ↔ SpellsRule text.toList rule) ∧
      ∀ c, Condition.parse text = .ok c ↔ SpellsCondition text.toList c :=
  ⟨fun _ => Rule.parse_eq_ok_iff, fun _ => Condition.parse_eq_ok_iff⟩

end Retention
