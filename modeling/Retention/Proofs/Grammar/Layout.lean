import Retention.Document
import Retention.Proofs.Grammar.Lexemes
import Retention.RuleLines

/-!
# How a rule is written on a line

Tokens stand apart when spaces stand between them, so a line of such tokens spells its rule,
whatever the spaces at its ends and the comment behind it are.
-/

namespace Retention

/-! ## Lines -/

/-- Tokens with one or more spaces between each two of them. -/
inductive Wide : List Token → List Char → Prop
  | last (t : Token) : Wide [t] t.text
  | cons {t : Token} {tokens : List Token} {gap text : List Char} : gap ≠ [] → gap.all isSpace →
    Wide tokens text → Wide (t :: tokens) (t.text ++ gap ++ text)

/-- A line that holds one rule, with spaces at its ends and a comment behind it at most. -/
def WritesRule (rule : Rule) (line : List Char) : Prop :=
  ∃ tokens lead body tail, RuleTokens rule tokens ∧ Wide tokens body ∧ '\n' ∉ body ∧
    lead.all isSpace ∧ IsTail tail ∧ line = lead ++ body ++ tail

/-! ## Tokens that stand apart -/

theorem ne_nil_of_wide {tokens : List Token} {body : List Char} (h : Wide tokens body) :
    tokens ≠ [] := by
  cases h <;> exact List.cons_ne_nil _ _

theorem wide_append {before after : List Token} {gap text rest : List Char} (hne : gap ≠ [])
    (hgap : gap.all isSpace) (h : Wide before text) (hrest : Wide after rest) :
    Wide (before ++ after) (text ++ gap ++ rest) := by
  induction h with
  | last t => exact .cons hne hgap hrest
  | @cons t tokens space text hspace hall _ ih =>
    have hassoc : t.text ++ space ++ text ++ gap ++ rest =
        t.text ++ space ++ (text ++ gap ++ rest) := by simp
    rw [hassoc]
    exact .cons hspace hall ih

theorem wide_intercalate {tokens : List Token} (hne : tokens ≠ []) :
    Wide tokens ([' '].intercalate (tokens.map Token.text)) := by
  induction tokens with
  | nil => exact absurd rfl hne
  | cons t tokens ih =>
    cases tokens with
    | nil =>
      rw [List.map_singleton, List.intercalate_singleton]
      exact .last t
    | cons next tokens =>
      rw [List.map_cons, List.map_cons, List.intercalate_cons_cons, ← List.map_cons]
      exact .cons (List.cons_ne_nil _ _) rfl (ih (List.cons_ne_nil _ _))

theorem breaks_of_spaces {gap : List Char} (hne : gap ≠ []) (hgap : gap.all isSpace)
    (rest : List Char) : breaks (gap ++ rest) := by
  obtain ⟨c, more, rfl⟩ := List.exists_cons_of_ne_nil hne
  rw [List.all_cons, Bool.and_eq_true] at hgap
  simp [breaks, isBreak, hgap.1]

theorem spaced_of_wide {tokens : List Token} {body rest : List Char} (h : Wide tokens body)
    (hlex : ∀ t ∈ tokens, t.Lexical) (hrest : breaks rest) :
    Spaced tokens (body ++ rest) rest := by
  induction h with
  | last t => exact spaced_token ((hlex t List.mem_cons_self).ends rest hrest) (.nil rest)
  | @cons t tokens gap text hne hgap h ih =>
    rw [List.forall_mem_cons] at hlex
    have hspaced := (spaced_gap_iff hlex.2 (ne_nil_of_wide h) hgap).2 (ih hlex.2)
    have hend := hlex.1.ends (gap ++ (text ++ rest)) (breaks_of_spaces hne hgap _)
    rw [List.append_assoc, List.append_assoc]
    exact spaced_token hend hspaced

/-! ## The ends of a line -/

theorem prefix_of_wide {t : Token} {tokens : List Token} {body : List Char}
    (h : Wide (t :: tokens) body) : t.text <+: body := by
  cases h with
  | last => exact List.prefix_rfl
  | cons _ _ _ =>
    rw [List.append_assoc]
    exact List.prefix_append _ _

theorem endsSolid_of_wide {tokens : List Token} {body : List Char} (h : Wide tokens body)
    (hlex : ∀ t ∈ tokens, t.Lexical) : EndsSolid body := by
  induction h with
  | last t => exact (hlex t List.mem_cons_self).endsSolid
  | cons _ _ _ ih => exact (ih (List.forall_mem_cons.1 hlex).2).append_left _

/-- The last character of a rule is no blank. -/
theorem endsSolid_of_ruleTokens {rule : Rule} {tokens : List Token} {body : List Char}
    (h : RuleTokens rule tokens) (hbody : Wide tokens body) : EndsSolid body :=
  endsSolid_of_wide hbody (lexical_of_ruleTokens h)

theorem startsWith_of_ruleTokens {rule : Rule} {tokens : List Token} {body : List Char}
    (h : RuleTokens rule tokens) (hbody : Wide tokens body) (rest : List Char) :
    startsWith isWordStart (body ++ rest) := by
  obtain ⟨w, more, rfl, hw⟩ := exists_word_of_ruleTokens h
  obtain ⟨tail, htail⟩ := prefix_of_wide hbody
  rw [← htail, List.append_assoc]
  exact Reader.startsWith_isWordStart_of_isFieldName hw (tail ++ rest)

/-! ## Trimming -/

theorem trimEnd_append_cons {c : Char} (hc : isBlank c = false) (front rest : List Char) :
    trimEnd (front ++ c :: rest) = front ++ c :: trimEnd rest := by
  unfold trimEnd
  rw [List.reverse_append, List.reverse_cons, List.append_assoc, List.dropWhile_append]
  split
  · rename_i hnil
    rw [List.isEmpty_iff] at hnil
    simp [hnil, hc]
  · simp

/-- Nothing is trimmed where the first and the last character are no blanks. -/
theorem trim_eq_self {text : List Char} (hstart : startsWith isBlank text = false)
    (hend : EndsSolid text) : trim text = text := by
  obtain ⟨front, d, rfl, hd⟩ := hend
  have htrim : trimStart (front ++ [d]) = front ++ [d] := by
    unfold trimStart
    cases hcons : front ++ [d] with
    | nil => rfl
    | cons c rest =>
      rw [hcons, startsWith_cons] at hstart
      rw [List.dropWhile_cons_of_neg (by simp [hstart])]
  rw [trim, htrim, trimEnd_append_cons hd]
  rfl

theorem trimStart_append {lead body : List Char} (hlead : lead.all isSpace)
    (hbody : startsWith isWordStart body) : trimStart (lead ++ body) = body := by
  have hblank : ∀ c ∈ lead, isBlank c = true := fun c hc =>
    isBlank_of_isSpace c (List.all_eq_true.1 hlead c hc)
  unfold trimStart
  rw [List.dropWhile_append_of_pos hblank]
  cases body with
  | nil => rfl
  | cons c rest =>
    rw [startsWith_cons] at hbody
    have hc := isBlank_eq_false_of_isWordChar (isWordChar_of_isWordStart c hbody)
    rw [List.dropWhile_cons_of_neg (by simp [hc])]

theorem isTail_nil : IsTail [] := ⟨[], [], rfl, rfl, .inl rfl⟩

theorem isTail_trimEnd {tail : List Char} (h : IsTail tail) : IsTail (trimEnd tail) := by
  obtain ⟨gap, note, hgap, rfl, rfl | ⟨comment, rfl, hcomment⟩⟩ := h
  · have hblank : isBlankText (gap ++ []) := by
      rw [List.append_nil]
      exact List.all_eq_true.2 fun c hc => isBlank_of_isSpace c (List.all_eq_true.1 hgap c hc)
    rw [(trimEnd_eq_nil_iff _).2 hblank]
    exact isTail_nil
  · have hslash : isBlank '/' = false := by decide
    have hsplit : gap ++ '/' :: '/' :: comment = (gap ++ ['/']) ++ '/' :: comment := by simp
    refine ⟨gap, '/' :: '/' :: trimEnd comment, hgap, ?_, .inr ⟨trimEnd comment, rfl, ?_⟩⟩
    · rw [hsplit, trimEnd_append_cons hslash, List.append_assoc]
      rfl
    · intro c hc
      refine hcomment c ?_
      unfold trimEnd at hc
      rw [List.mem_reverse] at hc
      exact List.mem_reverse.1 ((List.dropWhile_sublist _).subset hc)

theorem ne_of_isSpace {c : Char} (h : isSpace c) : c ≠ '\n' ∧ c ≠ '\r' := by
  constructor <;> (rintro rfl; cases h)

theorem newline_notMem_of_wide {tokens : List Token} {body : List Char} (h : Wide tokens body)
    (hn : ∀ t ∈ tokens, '\n' ∉ t.text) : '\n' ∉ body := by
  induction h with
  | last t => exact hn t List.mem_cons_self
  | @cons t tokens gap text _ hgap _ ih =>
    rw [List.forall_mem_cons] at hn
    have hspaces : '\n' ∉ gap := fun hc => (ne_of_isSpace (List.all_eq_true.1 hgap _ hc)).1 rfl
    simp [hn.1, hspaces, ih hn.2]

theorem ne_of_mem_isTail {tail : List Char} (h : IsTail tail) {c : Char} (hc : c ∈ tail) :
    c ≠ '\n' ∧ c ≠ '\r' := by
  obtain ⟨gap, note, hgap, rfl, hnote⟩ := h
  rcases List.mem_append.1 hc with hc | hc
  · exact ne_of_isSpace (List.all_eq_true.1 hgap c hc)
  · rcases hnote with rfl | ⟨comment, rfl, hcomment⟩
    · cases hc
    · simp only [List.mem_cons] at hc
      rcases hc with rfl | rfl | hc
      · decide
      · decide
      · exact hcomment c hc

theorem breaks_of_isTail {tail : List Char} (h : IsTail tail) : breaks tail := by
  obtain ⟨gap, note, hgap, rfl, hnote⟩ := h
  by_cases hne : gap = []
  · subst hne
    rcases hnote with rfl | ⟨comment, rfl, -⟩ <;> rfl
  · exact breaks_of_spaces hne hgap note

/-! ## Lines that hold a rule -/

/-- A line without blanks at its ends is read as it stands. -/
theorem readRuleLine?_of_endsSolid {text : List Char} (hstart : startsWith isWordStart text)
    (hend : EndsSolid text) (number : Nat) :
    readRuleLine? ⟨number, String.ofList text⟩ =
      some (readRuleText number (String.ofList text)) := by
  have hblank : startsWith isBlank text = false :=
    startsWith_eq_false_of_disjoint
      (fun c hc => isBlank_eq_false_of_isWordChar (isWordChar_of_isWordStart c hc)) hstart
  have htrim : Line.trimmed ⟨number, String.ofList text⟩ = text := by
    rw [Line.trimmed, Line.chars, String.toList_ofList, trim_eq_self hblank hend]
  unfold readRuleLine?
  rw [htrim, if_neg]
  rintro (rfl | hcomment)
  · cases hstart
  · obtain ⟨note, rfl⟩ := List.isPrefixOf_iff_prefix.1 hcomment
    cases hstart

section

variable {rule : Rule} {line : List Char}

/-- A line that holds a rule spells it once the line is trimmed. -/
theorem spellsRule_of_writesRule (h : WritesRule rule line) : SpellsRule (trim line) rule := by
  obtain ⟨tokens, lead, body, tail, htokens, hbody, -, hlead, htail, rfl⟩ := h
  obtain ⟨front, c, hlast, hc⟩ := endsSolid_of_ruleTokens htokens hbody
  have hstart := startsWith_of_ruleTokens htokens hbody tail
  have htrim : trim (lead ++ body ++ tail) = body ++ trimEnd tail := by
    rw [trim, List.append_assoc, trimStart_append hlead hstart, hlast, List.append_assoc,
      List.singleton_append, trimEnd_append_cons hc, List.append_assoc, List.singleton_append]
  have hend := isTail_trimEnd htail
  rw [htrim]
  exact ⟨tokens, trimEnd tail, htokens,
    spaced_of_wide hbody (lexical_of_ruleTokens htokens) (breaks_of_isTail hend), hend⟩

theorem ne_nil_of_writesRule (h : WritesRule rule line) : line ≠ [] := by
  obtain ⟨tokens, lead, body, tail, htokens, hbody, -, -, -, rfl⟩ := h
  obtain ⟨front, c, rfl, -⟩ := endsSolid_of_ruleTokens htokens hbody
  simp

theorem newline_notMem_of_writesRule (h : WritesRule rule line) : '\n' ∉ line := by
  obtain ⟨tokens, lead, body, tail, -, -, hbody, hlead, htail, rfl⟩ := h
  rw [List.append_assoc, List.mem_append, List.mem_append, not_or, not_or]
  refine ⟨fun hc => ?_, hbody, fun hc => (ne_of_mem_isTail htail hc).1 rfl⟩
  exact (ne_of_isSpace (List.all_eq_true.1 hlead _ hc)).1 rfl

theorem getLast?_ne_return_of_writesRule (h : WritesRule rule line) :
    line.getLast? ≠ some '\r' := by
  obtain ⟨tokens, lead, body, tail, htokens, hbody, -, -, htail, rfl⟩ := h
  obtain ⟨front, c, hlast, hc⟩ := endsSolid_of_ruleTokens htokens hbody
  intro hreturn
  rw [List.getLast?_append] at hreturn
  cases hend : tail.getLast? with
  | some d =>
    rw [hend, Option.some_or, Option.some.injEq] at hreturn
    exact (ne_of_mem_isTail htail (List.mem_of_getLast? hend)).2 hreturn
  | none =>
    rw [hend, Option.none_or, hlast, ← List.append_assoc, List.getLast?_concat,
      Option.some.injEq] at hreturn
    rw [hreturn] at hc
    cases hc

theorem headerName?_of_writesRule (h : WritesRule rule line) : headerName? line = none := by
  obtain ⟨tokens, lead, body, tail, htokens, hbody, -, hlead, -, rfl⟩ := h
  have hstart := startsWith_of_ruleTokens htokens hbody tail
  have hdrop : (lead ++ body ++ tail).dropWhile isSpace = body ++ tail := by
    rw [List.append_assoc, List.dropWhile_append_of_pos (List.all_eq_true.1 hlead)]
    cases hbt : body ++ tail with
    | nil => rfl
    | cons c rest =>
      rw [hbt, startsWith_cons] at hstart
      rw [List.dropWhile_cons_of_neg]
      simp [isSpace_eq_false rfl rfl c hstart]
  unfold headerName?
  rw [hdrop]
  split
  · rename_i hbt
    rw [hbt] at hstart
    cases hstart
  · rfl

end

end Retention
