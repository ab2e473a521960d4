import Mathlib.Data.List.Infix
import Retention.Diagnostic
import Retention.Proofs.Grammar.Layout
import Retention.Proofs.Lines
import Retention.Proofs.Lists

/-!
# Conditions alone and in rules

A condition is read alike alone and between `IF` and `THEN`. In one line a comment could hide the
end of the rule, so the condition must have no two slashes in a row.
-/

namespace Retention

/-! ## Comments -/

/-- Without two slashes in a row nothing stands behind the tokens of a line. -/
theorem eq_nil_of_isTail {tokens : List Token} {line tail : List Char}
    (hlex : ∀ t ∈ tokens, t.Lexical) (hne : tokens ≠ []) (hline : EndsSolid line)
    (hslashes : ¬ ['/', '/'] <:+: line) (h : Spaced tokens line tail) (htail : IsTail tail) :
    tail = [] := by
  obtain ⟨front, hfront, rfl⟩ := exists_front_of_spaced hlex hne h
  obtain ⟨gap, note, hgap, rfl, rfl | ⟨comment, rfl, -⟩⟩ := htail
  · rw [List.append_nil] at hline ⊢
    exact (hline.append_inj hfront rfl hgap (List.append_nil _)).2.symm
  · refine absurd ⟨front ++ gap, comment, ?_⟩ hslashes
    simp

/-! ## The line of a condition -/

/-- The line of a rule with the given condition. -/
def conditionLine (text : List Char) : List Char :=
  "IF".toList ++ ' ' :: text ++ " THEN RETURN BIG".toList

/-- Where one space stands before the last token, that space is what stands before it. -/
theorem spaced_of_spaced_concat {before : List Token} {t : Token} {front last rest : List Char}
    (hlex : ∀ s ∈ before, s.Lexical) (hne : before ≠ []) (hfront : EndsSolid front)
    (hlength : t.text.length = last.length)
    (h : Spaced (before ++ [t]) (front ++ [' '] ++ last ++ rest) rest) :
    t.text = last ∧ Spaced before (front ++ [' '] ++ last ++ rest) (' ' :: last ++ rest) := by
  obtain ⟨htext, solid, gap, hsolid, hgap, hsplit, hs⟩ :=
    exists_gap_of_spaced_concat hlex hne hlength h
  obtain ⟨-, rfl⟩ := hfront.append_inj hsolid (by decide) hgap hsplit
  exact ⟨htext, hs⟩

theorem suffix_of_spaced_concat {before : List Token} {t : Token} {text : List Char}
    (h : Spaced (before ++ [t]) text []) : t.text <:+ text := by
  obtain ⟨between, hbefore, hlast⟩ := spaced_append_iff.1 h
  obtain ⟨gap, -, -, rfl⟩ := spaced_singleton_iff.1 hlast
  rw [List.append_nil] at hbefore
  exact (List.suffix_append gap t.text).trans (suffix_of_spaced hbefore)

/-- The spaces behind a text end in the last space. -/
theorem EndsSolid.exists_of_append_space {solid gap front : List Char} (h : EndsSolid solid)
    (hsplit : front ++ [' '] = solid ++ gap) : ∃ more, gap = more ++ [' '] := by
  rcases List.eq_nil_or_concat' gap with rfl | ⟨more, c, rfl⟩
  · obtain ⟨_, d, rfl, hd⟩ := h
    rw [List.append_nil] at hsplit
    obtain ⟨-, hlast⟩ := List.append_inj' hsplit rfl
    cases hlast
    cases hd
  · rw [← List.append_assoc] at hsplit
    obtain ⟨-, hlast⟩ := List.append_inj' hsplit rfl
    exact ⟨more, by rw [hlast]⟩

section

variable {text : List Char}

theorem endsSolid_conditionLine : EndsSolid (conditionLine text) :=
  EndsSolid.append_left ⟨" THEN RETURN BI".toList, 'G', by decide, rfl⟩ _

theorem not_slashes_conditionLine (h : ¬ ['/', '/'] <:+: text) :
    ¬ ['/', '/'] <:+: conditionLine text := by
  have hstart : ¬ ['/', '/'] <:+: "IF".toList := by simp [List.infix_cons_iff]
  have hend : ¬ ['/', '/'] <:+: "THEN RETURN BIG".toList := by simp [List.infix_cons_iff]
  have hsplit : conditionLine text =
      "IF".toList ++ ' ' :: (text ++ ' ' :: "THEN RETURN BIG".toList) := by simp [conditionLine]
  intro hslashes
  rw [hsplit] at hslashes
  rcases slashes_of_append (by decide) hslashes with hslashes | hslashes
  · exact hstart hslashes
  · rcases slashes_of_append (by decide) hslashes with hslashes | hslashes
    · exact h hslashes
    · exact hend hslashes

/-- The label at the end of the line is bare, since a quoted one ends in a quote. -/
theorem text_of_labelToken {t : Token} (hl : LabelToken ⟨"BIG"⟩ t)
    (hline : t.text <:+ conditionLine text) : t.text = "BIG".toList := by
  generalize hlabel : (⟨"BIG"⟩ : Label) = l at hl
  cases hl with
  | @bare name hne hall =>
    rw [Label.mk.injEq] at hlabel
    rw [hlabel, String.toList_ofList]
    rfl
  | @quoted quote body name hquote _ _ =>
    have hlast : (conditionLine text).getLast? = some quote := by
      obtain ⟨before, hline⟩ := hline
      rw [← hline, Token.quoted, ← List.append_assoc, List.getLast?_concat]
    have hbig : (conditionLine text).getLast? = some 'G' := by
      rw [conditionLine, List.getLast?_append]
      rfl
    rw [hbig] at hlast
    cases hlast
    exact absurd hquote (by decide)

/-- The last three tokens of the line are its last three words, so the others are read in what
stands before those. -/
theorem spaced_of_spaced_conditionLine {i t r : List Char} {tokens : List Token} {last : Token}
    (hi : Reader.isKeyword "IF" i) (hlex : ∀ s ∈ tokens, s.Lexical)
    (ht : Reader.isKeyword "THEN" t) (hr : Reader.isKeyword "RETURN" r)
    (hl : LabelToken ⟨"BIG"⟩ last)
    (h : Spaced (.word i :: tokens ++ [.word t] ++ [.word r] ++ [last]) (conditionLine text) []) :
    ∃ gap, gap.all isSpace ∧ Spaced (.word i :: tokens) ("IF".toList ++ ' ' :: text) gap := by
  have hif : ∀ s ∈ .word i :: tokens, s.Lexical :=
    List.forall_mem_cons.2 ⟨lexical_of_isKeyword (by decide) hi, hlex⟩
  have hthen : ∀ s ∈ .word i :: tokens ++ [.word t], s.Lexical := by
    rw [List.forall_mem_append]
    exact ⟨hif, List.forall_mem_singleton.2 (lexical_of_isKeyword (by decide) ht)⟩
  have hreturn : ∀ s ∈ .word i :: tokens ++ [.word t] ++ [.word r], s.Lexical := by
    rw [List.forall_mem_append]
    exact ⟨hthen, List.forall_mem_singleton.2 (lexical_of_isKeyword (by decide) hr)⟩
  -- The line once for each word at its end.
  have hbig : conditionLine text =
      "IF".toList ++ ' ' :: text ++ " THEN RETURN".toList ++ [' '] ++ "BIG".toList ++ [] := by
    simp [conditionLine]
  have hsecond : conditionLine text =
      "IF".toList ++ ' ' :: text ++ " THEN".toList ++ [' '] ++ "RETURN".toList ++
        " BIG".toList := by simp [conditionLine]
  have hfirst : conditionLine text =
      "IF".toList ++ ' ' :: text ++ [' '] ++ "THEN".toList ++ " RETURN BIG".toList := by
    simp [conditionLine]
  have hlength := congrArg List.length (text_of_labelToken hl (suffix_of_spaced_concat h))
  rw [hbig] at h
  have hbeforeLabel := (spaced_of_spaced_concat hreturn (by simp)
    (EndsSolid.append_left ⟨" THEN RETUR".toList, 'N', by decide, rfl⟩ _) hlength h).2
  rw [← hbig, hsecond] at hbeforeLabel
  have hbeforeReturn := (spaced_of_spaced_concat hthen (by simp)
    (EndsSolid.append_left ⟨" THE".toList, 'N', by decide, rfl⟩ _) (length_of_isKeyword hr)
    hbeforeLabel).2
  rw [← hsecond, hfirst] at hbeforeReturn
  obtain ⟨-, solid, gap, hsolid, hgap, hsplit, hbeforeThen⟩ :=
    exists_gap_of_spaced_concat hif (by simp) (length_of_isKeyword ht) hbeforeReturn
  obtain ⟨more, rfl⟩ := hsolid.exists_of_append_space hsplit
  rw [List.all_append, Bool.and_eq_true] at hgap
  have hbreaks : breaks " THEN RETURN BIG".toList := rfl
  refine ⟨more, hgap.1, (spaced_append_more_iff hif hbreaks).1 ?_⟩
  simpa using hbeforeThen

theorem spaced_conditionLine {tokens : List Token} {tail : List Char}
    (hlex : ∀ s ∈ tokens, s.Lexical) (hne : tokens ≠ []) (h : Spaced tokens text tail)
    (htail : tail.all isSpace) :
    Spaced (.word "IF".toList :: tokens ++
      [.word "THEN".toList, .word "RETURN".toList, .bareLabel "BIG".toList])
      (conditionLine text) [] := by
  have hspace : [' '] ≠ [] ∧ [' '].all isSpace := by decide
  have hbreaks : breaks " THEN RETURN BIG".toList := rfl
  have hcondition := (spaced_append_more_iff hlex hbreaks).2 h
  have hif : Spaced (.word "IF".toList :: tokens) (conditionLine text)
      (tail ++ " THEN RETURN BIG".toList) :=
    spaced_token rfl ((spaced_gap_iff hlex hne hspace.2).2 hcondition)
  have hwords : ∀ s ∈ [Token.word "THEN".toList, .word "RETURN".toList, .bareLabel "BIG".toList],
      s.Lexical := by
    simpa using ⟨.word (by decide), .word (by decide), .bareLabel (by decide) (by decide)⟩
  have hwide : Wide [.word "THEN".toList, .word "RETURN".toList, .bareLabel "BIG".toList]
      "THEN RETURN BIG".toList :=
    .cons hspace.1 hspace.2 (.cons hspace.1 hspace.2 (.last _))
  have hend : breaks [] := rfl
  have hgap : (tail ++ [' ']).all isSpace := by
    rw [List.all_append, htail]
    exact hspace.2
  have hafter := (spaced_gap_iff hwords (List.cons_ne_nil _ _) hgap).2
    (spaced_of_wide hwide hwords hend)
  refine spaced_append_iff.2 ⟨_, hif, ?_⟩
  simpa using hafter

theorem spellsRule_conditionLine_iff {condition : Condition} (h : ¬ ['/', '/'] <:+: text) :
    SpellsRule (conditionLine text) (.conditional condition ⟨"BIG"⟩) ↔
      SpellsCondition text condition := by
  constructor
  · rintro ⟨_, tail, htokens, hs, htail⟩
    obtain rfl := eq_nil_of_isTail (lexical_of_ruleTokens htokens) (ne_nil_of_ruleTokens htokens)
      endsSolid_conditionLine (not_slashes_conditionLine h) hs htail
    cases htokens with
    | @conditional _ _ i t r tokens last hi hc ht hr hl =>
      rw [List.append_cons, List.append_cons] at hs
      have hlex := lexical_of_conditionTokens hc
      obtain ⟨gap, hgap, hs⟩ := spaced_of_spaced_conditionLine hi hlex ht hr hl hs
      exact ⟨tokens, gap, hc, spaced_of_spaced_if hi hlex (ne_nil_of_conditionTokens hc) hs, hgap⟩
  · rintro ⟨tokens, tail, hc, hs, htail⟩
    have hbig : LabelToken ⟨"BIG"⟩ (.bareLabel "BIG".toList) := .bare (by decide) (by decide)
    exact ⟨_, [], .conditional (by decide) hc (by decide) (by decide) hbig,
      spaced_conditionLine (lexical_of_conditionTokens hc) (ne_nil_of_conditionTokens hc) hs htail,
      isTail_nil⟩

end

/-! ## One line of text -/

theorem ofRuleText_conditionLine {text : String} (h : '\n' ∉ text.toList) :
    Entry.ofRuleText ("IF " ++ text ++ " THEN RETURN BIG") =
      [readRuleText 1 (String.ofList (conditionLine text.toList))] := by
  have hchars : ("IF " ++ text ++ " THEN RETURN BIG").toList = conditionLine text.toList := by
    simp [conditionLine]
  have hline : splitLines (conditionLine text.toList) = [conditionLine text.toList] := by
    refine splitLines_of_newline_notMem (by simp [conditionLine]) ?_
    simpa [conditionLine] using h
  unfold Entry.ofRuleText Line.ofText readRuleLines
  rw [hchars, hline, Line.numbered, Line.numbered, List.filterMap_cons,
    readRuleLine?_of_endsSolid rfl endsSolid_conditionLine]
  rfl

theorem rule_readRuleText_iff {number : Nat} {text : String} {placed : PlacedRule} :
    ([readRuleText number text].filterMap Entry.diagnostic? = [] ∧
      [readRuleText number text].filterMap Entry.rule? = [placed]) ↔
      Rule.parse text = .ok placed.rule ∧ placed.line = number := by
  unfold readRuleText
  cases Rule.parse text with
  | error reason => simp [Entry.diagnostic?, Entry.malformed?]
  | ok rule =>
    constructor
    · rintro ⟨-, h⟩
      cases h
      exact ⟨rfl, rfl⟩
    · rintro ⟨h, rfl⟩
      cases h
      exact ⟨rfl, rfl⟩

/-- A condition is read from a text exactly when the rule of that condition is read from the line
around it, and nothing else is. -/
theorem Condition.parse_eq_ok_iff_ofRuleText {text : String} (hline : '\n' ∉ text.toList)
    (hslashes : ¬ ['/', '/'] <:+: text.toList) (condition : Condition) :
    let entries := Entry.ofRuleText ("IF " ++ text ++ " THEN RETURN BIG")
    Condition.parse text = .ok condition ↔ entries.filterMap Entry.diagnostic? = [] ∧
      entries.filterMap Entry.rule? = [⟨.conditional condition ⟨"BIG"⟩, 1⟩] := by
  intro entries
  unfold entries
  rw [ofRuleText_conditionLine hline, rule_readRuleText_iff, Rule.parse_eq_ok_iff,
    String.toList_ofList, spellsRule_conditionLine_iff hslashes, Condition.parse_eq_ok_iff]
  exact (and_iff_left rfl).symm

/-- The end of a rule stands in quotes, and the condition ends in spaces. -/
theorem Condition.parse_eq_ok_iff_ofRuleText_of_rule_in_quotes :
    let text := "plan != ' THEN RETURN BIG' and tenure<6.5 \t"
    let condition : Condition := .and (.field "plan" .ne (.string " THEN RETURN BIG"))
      (.field "tenure" .lt (.number (.ofDecimal false 65 (-1))))
    let entries := Entry.ofRuleText ("IF " ++ text ++ " THEN RETURN BIG")
    '\n' ∉ text.toList ∧ ¬ ['/', '/'] <:+: text.toList ∧ Condition.parse text = .ok condition ∧
      entries.filterMap Entry.diagnostic? = [] ∧
      entries.filterMap Entry.rule? = [⟨.conditional condition ⟨"BIG"⟩, 1⟩] := by
  intro text condition entries
  have hline : '\n' ∉ text.toList := by decide
  have hslashes : ¬ ['/', '/'] <:+: text.toList := by simp [text, List.infix_cons_iff]
  have hparse : Condition.parse text = .ok condition := by decide +kernel
  exact ⟨hline, hslashes, hparse,
    (Condition.parse_eq_ok_iff_ofRuleText hline hslashes condition).1 hparse⟩

end Retention
