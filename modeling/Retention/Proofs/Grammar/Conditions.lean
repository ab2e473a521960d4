import Retention.Proofs.Grammar.Terms

/-!
# Reading conditions

A condition is read term by term from left to right, for as long as AND or OR comes next. What
was read so far is a condition at each step.
-/

namespace Retention

/-! ## What tokens take off a text -/

theorem length_le_of_spaced {tokens : List Token} {text rest : List Char}
    (h : Spaced tokens text rest) : rest.length ≤ text.length := by
  induction h with
  | nil => exact Nat.le_refl _
  | cons _ _ _ ih =>
    rw [List.length_append]
    omega

namespace Reader

theorem length_lt_of_spaced {token : Token} (h : Solid token) {tokens : List Token}
    {text rest : List Char} (hs : Spaced (token :: tokens) text rest) :
    rest.length < text.length := by
  cases hs with
  | cons _ _ hs =>
    have hle := length_le_of_spaced hs
    have hpos := List.length_pos_iff.2 h.1
    simp only [List.length_append]
    omega

/-- The word in front of a text is determined. -/
theorem eq_of_spaced_word {v w text rest rest' : List Char} (hv : isFieldName v)
    (hw : isFieldName w) (h : Spaced [.word v] text rest) (h' : Spaced [.word w] text rest') :
    v = w := by
  obtain ⟨hrest, htext⟩ := (spaced_iff_of_solid (solid_word hv)).1 h
  obtain ⟨hrest', htext'⟩ := (spaced_iff_of_solid (solid_word hw)).1 h'
  have hread := word_iff.2 ⟨htext, hv, hrest⟩
  rw [word_iff.2 ⟨htext', hw, hrest'⟩] at hread
  cases hread
  rfl

/-! ## Connectives -/

/-- Whether AND or OR comes next. -/
def JoinsNext (text : List Char) : Prop :=
  ∃ w rest, (isKeyword "AND" w ∨ isKeyword "OR" w) ∧ Spaced [.word w] text rest

theorem not_joinsNext_of_keyword {name : String} (hname : name ∈ reservedWords)
    (hno : name ≠ "AND" ∧ name ≠ "OR") {w text rest : List Char} (hk : isKeyword name w)
    (h : Spaced [.word w] text rest) : ¬ JoinsNext text := by
  rintro ⟨v, rest', hv | hv, h'⟩
  · have hvw := eq_of_spaced_word (isFieldName_of_isKeyword (by decide) hv)
      (isFieldName_of_isKeyword hname hk) h' h
    exact hno.1 (eq_of_isKeyword hname (by decide) hk (hvw ▸ hv))
  · have hvw := eq_of_spaced_word (isFieldName_of_isKeyword (by decide) hv)
      (isFieldName_of_isKeyword hname hk) h' h
    exact hno.2 (eq_of_isKeyword hname (by decide) hk (hvw ▸ hv))

theorem ok_or_declines_keyword (name : String) (text : List Char) :
    (∃ rest, keyword name text = .ok ((), rest)) ∨ Declines (keyword name) text := by
  cases h : startsWith isWordStart (text.dropWhile isSpace) with
  | false => exact .inr (declines_keyword_of_no_word h)
  | true =>
    obtain ⟨c, more, hmore⟩ : ∃ c more, text.dropWhile isSpace = c :: more := by
      cases htext : text.dropWhile isSpace with
      | nil => rw [htext] at h; cases h
      | cons c more => exact ⟨c, more, rfl⟩
    rw [hmore, startsWith_cons] at h
    have hword : word (text.dropWhile isSpace) =
        .ok (c :: more.takeWhile isNameChar, more.dropWhile isNameChar) := by
      unfold word
      simp only [bind_eq_ok_iff, satisfy_eq_ok_iff, hmore]
      exact ⟨c, more, ⟨rfl, h⟩, _, _, many_apply isNameChar more, rfl⟩
    unfold Declines keyword
    rw [spaces_bind]
    by_cases hk : isKeyword name (c :: more.takeWhile isNameChar)
    · exact .inl ⟨_, bind_eq_ok_iff.2 ⟨_, _, hword, by rw [if_pos hk]; rfl⟩⟩
    · refine .inr (declines_bind_of_ok hword ?_)
      rw [if_neg hk]
      exact declines_fail _

theorem connective_iff {text rest : List Char} {join : Condition → Condition → Condition} :
    either andKeyword orKeyword text = .ok (join, rest) ↔
      ∃ w, ((isKeyword "AND" w ∧ join = .and) ∨ (isKeyword "OR" w ∧ join = .or)) ∧
        Spaced [.word w] text rest := by
  constructor
  · intro h
    simp only [either_eq_ok_iff, andKeyword, orKeyword, bind_eq_ok_iff, pure_apply,
      Except.ok.injEq, Prod.mk.injEq] at h
    rcases h with ⟨⟨⟩, _, h, rfl, rfl⟩ | ⟨-, ⟨⟩, _, h, rfl, rfl⟩
    · obtain ⟨w, hk, h⟩ := (keyword_iff (by decide)).1 h
      exact ⟨w, .inl ⟨hk, rfl⟩, h⟩
    · obtain ⟨w, hk, h⟩ := (keyword_iff (by decide)).1 h
      exact ⟨w, .inr ⟨hk, rfl⟩, h⟩
  · rintro ⟨w, ⟨hk, rfl⟩ | ⟨hk, rfl⟩, h⟩
    · have hand := (keyword_iff (by decide)).2 ⟨w, hk, h⟩
      exact either_eq_of_ok (bind_eq_ok_iff.2 ⟨(), rest, hand, rfl⟩) _
    · have hor := (keyword_iff (by decide)).2 ⟨w, hk, h⟩
      have hdeclines : Declines andKeyword text :=
        declines_bind (declines_keyword_of_keyword (by decide) (by decide) (by decide) hk h)
      rw [either_eq_of_declines hdeclines]
      exact bind_eq_ok_iff.2 ⟨(), rest, hor, rfl⟩

theorem declines_connective_iff {text : List Char} :
    Declines (either andKeyword orKeyword) text ↔ ¬ JoinsNext text := by
  constructor
  · rintro h ⟨w, rest, hk | hk, hw⟩
    · exact ne_ok_of_declines h _ (connective_iff.2 ⟨w, .inl ⟨hk, rfl⟩, hw⟩)
    · exact ne_ok_of_declines h _ (connective_iff.2 ⟨w, .inr ⟨hk, rfl⟩, hw⟩)
  · intro h
    refine declines_either ?_ ?_
    · rcases ok_or_declines_keyword "AND" text with ⟨rest, hok⟩ | hno
      · obtain ⟨w, hk, hw⟩ := (keyword_iff (by decide)).1 hok
        exact absurd ⟨w, rest, .inl hk, hw⟩ h
      · exact declines_bind hno
    · rcases ok_or_declines_keyword "OR" text with ⟨rest, hok⟩ | hno
      · obtain ⟨w, hk, hw⟩ := (keyword_iff (by decide)).1 hok
        exact absurd ⟨w, rest, .inr hk, hw⟩ h
      · exact declines_bind hno

/-! ## One more term -/

theorem extend_iff {c d : Condition} {text rest : List Char} :
    extend c text = .ok (d, rest) ↔ ∃ w t after,
      ((isKeyword "AND" w ∧ d = c.and t) ∨ (isKeyword "OR" w ∧ d = c.or t)) ∧
        TermTokens t after ∧ Spaced (.word w :: after) text rest := by
  unfold extend
  simp only [bind_eq_ok_iff, connective_iff, commit_eq_ok_iff, term_iff, pure_apply,
    Except.ok.injEq, Prod.mk.injEq]
  constructor
  · rintro ⟨_, _, ⟨w, ⟨hk, rfl⟩ | ⟨hk, rfl⟩, hw⟩, t, _, ⟨after, ht, h⟩, rfl, rfl⟩
    · exact ⟨w, t, after, .inl ⟨hk, rfl⟩, ht, spaced_cons_iff.2 ⟨_, hw, h⟩⟩
    · exact ⟨w, t, after, .inr ⟨hk, rfl⟩, ht, spaced_cons_iff.2 ⟨_, hw, h⟩⟩
  · rintro ⟨w, t, after, ⟨hk, rfl⟩ | ⟨hk, rfl⟩, ht, h⟩
    · obtain ⟨_, hw, h⟩ := spaced_cons_iff.1 h
      exact ⟨_, _, ⟨w, .inl ⟨hk, rfl⟩, hw⟩, t, _, ⟨after, ht, h⟩, rfl, rfl⟩
    · obtain ⟨_, hw, h⟩ := spaced_cons_iff.1 h
      exact ⟨_, _, ⟨w, .inr ⟨hk, rfl⟩, hw⟩, t, _, ⟨after, ht, h⟩, rfl, rfl⟩

theorem declines_extend_iff {c : Condition} {text : List Char} :
    Declines (extend c) text ↔ ¬ JoinsNext text := by
  rw [← declines_connective_iff]
  constructor
  · rintro ⟨failure, hf, hc⟩
    rw [extend, bind_eq_error_iff] at hf
    rcases hf with hf | ⟨join, between, -, hf⟩
    · exact ⟨failure, hf, hc⟩
    · -- After a connective the term is committed.
      exfalso
      rw [bind_eq_error_iff] at hf
      rcases hf with hf | ⟨_, _, -, hf⟩
      · unfold commit at hf
        split at hf <;> cases hf
        cases hc
      · cases hf
  · exact declines_bind

theorem conditionTokens_of_extend {c d : Condition} {before : List Token}
    {start text rest : List Char} (hc : ConditionTokens c before) (hs : Spaced before start text)
    (h : extend c text = .ok (d, rest)) :
    ∃ tokens, ConditionTokens d tokens ∧ Spaced tokens start rest := by
  obtain ⟨w, t, after, ⟨hk, rfl⟩ | ⟨hk, rfl⟩, ht, h⟩ := extend_iff.1 h
  · exact ⟨_, hc.and hk ht, spaced_append_iff.2 ⟨text, hs, h⟩⟩
  · exact ⟨_, hc.or hk ht, spaced_append_iff.2 ⟨text, hs, h⟩⟩

theorem length_lt_of_extend {c d : Condition} {text rest : List Char}
    (h : extend c text = .ok (d, rest)) : rest.length < text.length := by
  obtain ⟨w, t, after, hk, -, h⟩ := extend_iff.1 h
  refine length_lt_of_spaced (solid_word ?_) h
  rcases hk with ⟨hk, -⟩ | ⟨hk, -⟩
  · exact isFieldName_of_isKeyword (by decide) hk
  · exact isFieldName_of_isKeyword (by decide) hk

/-! ## All terms -/

theorem conditionTokens_of_steps {n : Nat} {c d : Condition} {before : List Token}
    {start text rest : List Char} (hn : text.length < n) (hc : ConditionTokens c before)
    (hs : Spaced before start text) (h : steps extend n c text = .ok (d, rest)) :
    (∃ tokens, ConditionTokens d tokens ∧ Spaced tokens start rest) ∧ ¬ JoinsNext rest := by
  induction n generalizing c before text with
  | zero => omega
  | succ n ih =>
    unfold steps at h
    split at h
    · rename_i c' between hstep
      obtain ⟨tokens, hc', hs'⟩ := conditionTokens_of_extend hc hs hstep
      have hlt := length_lt_of_extend hstep
      exact ih (by omega) hc' hs' h
    · rename_i failure hstep
      split at h
      · cases h
      · rename_i hopen
        cases h
        exact ⟨⟨before, hc, hs⟩, declines_extend_iff.1 ⟨failure, hstep, by simpa using hopen⟩⟩

/-- From its first term on, a text is read as a condition and a rest. -/
def Reaches (text : List Char) (c : Condition) (rest : List Char) : Prop :=
  ∃ first between n, term text = .ok (first, between) ∧ n + rest.length ≤ between.length ∧
    ∀ m, steps extend (n + m) first between = steps extend m c rest

theorem reaches_extend {c d : Condition} {text mid rest : List Char} (h : Reaches text c mid)
    (hstep : extend c mid = .ok (d, rest)) : Reaches text d rest := by
  obtain ⟨first, between, n, hterm, hlen, hrun⟩ := h
  have hlt := length_lt_of_extend hstep
  refine ⟨first, between, n + 1, hterm, by omega, fun m => ?_⟩
  rw [show n + 1 + m = n + (m + 1) by omega, hrun, steps]
  simp only [hstep]

theorem reaches_of_conditionTokens {c : Condition} {tokens : List Token}
    (hc : ConditionTokens c tokens) {text rest : List Char} (hs : Spaced tokens text rest) :
    Reaches text c rest := by
  induction hc generalizing rest with
  | term ht =>
    exact ⟨_, rest, 0, term_iff.2 ⟨_, ht, hs⟩, by omega, fun m => by rw [Nat.zero_add]⟩
  | and _ hk ht ih =>
    obtain ⟨mid, hbefore, hafter⟩ := spaced_append_iff.1 hs
    exact reaches_extend (ih hbefore) (extend_iff.2 ⟨_, _, _, .inl ⟨hk, rfl⟩, ht, hafter⟩)
  | or _ hk ht ih =>
    obtain ⟨mid, hbefore, hafter⟩ := spaced_append_iff.1 hs
    exact reaches_extend (ih hbefore) (extend_iff.2 ⟨_, _, _, .inr ⟨hk, rfl⟩, ht, hafter⟩)

/-- A condition is read for as long as a connective comes next. -/
theorem condition_iff {text rest : List Char} {c : Condition} :
    condition text = .ok (c, rest) ↔
      (∃ tokens, ConditionTokens c tokens ∧ Spaced tokens text rest) ∧ ¬ JoinsNext rest := by
  unfold condition
  rw [bind_eq_ok_iff]
  constructor
  · rintro ⟨first, between, hterm, h⟩
    obtain ⟨tokens, ht, hs⟩ := term_iff.1 hterm
    exact conditionTokens_of_steps (Nat.lt_succ_self _) (.term ht) hs h
  · rintro ⟨⟨tokens, hc, hs⟩, hend⟩
    obtain ⟨first, between, n, hterm, hlen, hrun⟩ := reaches_of_conditionTokens hc hs
    refine ⟨first, between, hterm, ?_⟩
    obtain ⟨failure, hf, hopen⟩ := declines_extend_iff (c := c).2 hend
    unfold chain
    rw [show between.length + 1 = n + (between.length - n + 1) by omega, hrun, steps]
    simp [hf, hopen]

end Reader

end Retention
