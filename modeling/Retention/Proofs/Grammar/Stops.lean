import Retention.Grammar.Rule

/-!
# Where readers stop

A reader takes characters off the front of its text and nothing else. Wherever it stops, and
whether it got through or failed there, an end of the text is left. Each way to put readers
together keeps this, so it holds of every reader of the rule language.
-/

namespace Retention

namespace Reader

variable {α β : Type}

/-- What is left of a text where reading it stopped. -/
def left : Except Failure (α × List Char) → List Char
  | .ok (_, rest) => rest
  | .error failure => failure.rest

@[simp] theorem left_ok (a : α) (rest : List Char) : left (.ok (a, rest)) = rest := rfl

@[simp] theorem left_error (failure : Failure) :
    left (.error failure : Except Failure (α × List Char)) = failure.rest := rfl

/-- The reader stops inside its text. -/
def StopsInside (reader : Reader α) : Prop := ∀ text, left (reader text) <:+ text

/-! ## One reader after another -/

theorem stopsInside_pure (a : α) : StopsInside (pure a : Reader α) := List.suffix_refl

theorem stopsInside_fail : StopsInside (fail : Reader α) := List.suffix_refl

theorem StopsInside.bind {first : Reader α} {next : α → Reader β} (hfirst : StopsInside first)
    (hnext : ∀ a, StopsInside (next a)) : StopsInside (first >>= next) := by
  intro text
  have hleft := hfirst text
  rw [bind_apply]
  cases hread : first text with
  | error failure =>
    rw [hread] at hleft
    exact hleft
  | ok read =>
    obtain ⟨a, rest⟩ := read
    rw [hread] at hleft
    exact (hnext a rest).trans hleft

theorem StopsInside.ite {c : Prop} [Decidable c] {yes no : Reader α} (hyes : StopsInside yes)
    (hno : StopsInside no) : StopsInside (if c then yes else no) := by
  split
  · exact hyes
  · exact hno

/-! ## Characters -/

theorem stopsInside_satisfy (p : Char → Bool) : StopsInside (satisfy p) := by
  intro text
  cases text with
  | nil => exact List.suffix_refl []
  | cons c rest =>
    rw [satisfy]
    split
    · exact List.suffix_cons c rest
    · exact List.suffix_refl (c :: rest)

theorem stopsInside_many (p : Char → Bool) : StopsInside (many p) :=
  fun _ => List.dropWhile_suffix p

theorem stopsInside_many1 (p : Char → Bool) : StopsInside (many1 p) :=
  (stopsInside_satisfy p).bind fun _ => (stopsInside_many p).bind fun _ => stopsInside_pure _

theorem stopsInside_exactly (word : List Char) : StopsInside (exactly word) := by
  intro text
  rw [exactly]
  split
  · exact List.drop_suffix word.length text
  · exact List.suffix_refl text

/-! ## Choices -/

theorem StopsInside.either {first second : Reader α} (hfirst : StopsInside first)
    (hsecond : StopsInside second) : StopsInside (either first second) := by
  intro text
  have hleft := hfirst text
  rw [Reader.either]
  cases hread : first text with
  | ok read =>
    rw [hread] at hleft
    exact hleft
  | error failure =>
    rw [hread] at hleft
    dsimp only
    split
    · exact hleft
    · exact hsecond text

theorem StopsInside.optional {reader : Reader α} (h : StopsInside reader) :
    StopsInside (optional reader) := by
  intro text
  have hleft := h text
  rw [Reader.optional]
  cases hread : reader text with
  | ok read =>
    rw [hread] at hleft
    exact hleft
  | error failure =>
    rw [hread] at hleft
    dsimp only
    split
    · exact hleft
    · exact List.suffix_refl text

theorem left_commit (reader : Reader α) (text : List Char) :
    left (commit reader text) = left (reader text) := by
  rw [commit]
  cases reader text <;> rfl

theorem StopsInside.commit {reader : Reader α} (h : StopsInside reader) :
    StopsInside (commit reader) := by
  intro text
  rw [left_commit]
  exact h text

theorem left_noting (note : Note) (reader : Reader α) (text : List Char) :
    left (noting note reader text) = left (reader text) := by
  rw [noting]
  cases reader text <;> rfl

theorem StopsInside.noting {reader : Reader α} (note : Note) (h : StopsInside reader) :
    StopsInside (noting note reader) := by
  intro text
  rw [left_noting]
  exact h text

/-! ## Repetition -/

/-- A step that cannot be taken leaves the text to the steps before it. -/
theorem StopsInside.steps {step : α → Reader α} (h : ∀ a, StopsInside (step a)) (n : Nat) :
    ∀ a, StopsInside (steps step n a) := by
  induction n with
  | zero => exact stopsInside_pure
  | succ n ih =>
    intro a text
    have hleft := h a text
    cases hread : step a text with
    | ok read =>
      obtain ⟨b, rest⟩ := read
      rw [hread] at hleft
      simp only [Reader.steps, hread]
      exact (ih b rest).trans hleft
    | error failure =>
      rw [hread] at hleft
      simp only [Reader.steps, hread]
      split
      · exact hleft
      · exact List.suffix_refl text

theorem StopsInside.chain {step : α → Reader α} (h : ∀ a, StopsInside (step a)) (a : α) :
    StopsInside (chain step a) :=
  fun text => StopsInside.steps h (text.length + 1) a text

/-! ## Tokens -/

theorem stopsInside_spaces : StopsInside spaces :=
  (stopsInside_many isSpace).bind fun _ => stopsInside_pure ()

theorem stopsInside_word : StopsInside word :=
  (stopsInside_satisfy isWordStart).bind fun _ =>
    (stopsInside_many isNameChar).bind fun _ => stopsInside_pure _

theorem stopsInside_keyword (name : String) : StopsInside (keyword name) :=
  stopsInside_spaces.bind fun _ => stopsInside_word.bind fun _ =>
    (stopsInside_pure ()).ite stopsInside_fail

/-- The body takes one character at a time, and the two of a pair together. -/
theorem stopsInside_quotedBody (quote : Char) : StopsInside (quotedBody quote) := by
  intro text
  fun_induction quotedBody quote text with
  | case1 => exact List.suffix_refl []
  | case2 => exact List.nil_suffix
  | case3 c rest ih =>
    have hrest : rest <:+ '\\' :: c :: rest :=
      (List.suffix_cons c rest).trans (List.suffix_cons '\\' (c :: rest))
    cases hread : quotedBody quote rest with
    | error failure =>
      rw [hread] at ih
      exact ih.trans hrest
    | ok read =>
      rw [hread] at ih
      exact ih.trans hrest
  | case4 rest => exact List.suffix_cons quote rest
  | case5 c rest _ _ _ ih =>
    cases hread : quotedBody quote rest with
    | error failure =>
      rw [hread] at ih
      exact ih.trans (List.suffix_cons c rest)
    | ok read =>
      rw [hread] at ih
      exact ih.trans (List.suffix_cons c rest)

theorem stopsInside_quoted : StopsInside quoted :=
  (stopsInside_satisfy isQuote).bind fun quote =>
    (stopsInside_quotedBody quote).bind fun _ => stopsInside_pure _

theorem stopsInside_fraction : StopsInside fraction :=
  (stopsInside_exactly _).bind fun _ => stopsInside_many1 _

theorem stopsInside_numeral : StopsInside numeral :=
  (stopsInside_exactly _).optional.bind fun _ =>
    (stopsInside_many1 _).bind fun _ =>
      stopsInside_fraction.optional.bind fun _ => stopsInside_pure _

/-! ## Conditions -/

theorem stopsInside_fieldOrNull : StopsInside fieldOrNull :=
  stopsInside_word.bind fun _ =>
    (stopsInside_pure _).ite (stopsInside_fail.ite (stopsInside_pure _))

theorem stopsInside_operand : StopsInside operand := by
  have hquoted : StopsInside quotedOperand :=
    stopsInside_quoted.bind fun _ => stopsInside_pure _
  have hnumeral : StopsInside numeralOperand :=
    stopsInside_numeral.bind fun _ => stopsInside_pure _
  have hany := hquoted.either (hnumeral.either stopsInside_fieldOrNull)
  exact stopsInside_spaces.bind fun _ => hany.noting _

theorem stopsInside_comparator : StopsInside comparator := by
  have h : ∀ op, StopsInside (symbol op) := fun op =>
    (stopsInside_exactly _).bind fun _ => stopsInside_pure op
  have hany := (h .ge).either ((h .gt).either ((h .le).either ((h .lt).either
    ((h .eq).either (h .ne)))))
  exact stopsInside_spaces.bind fun _ => hany.noting _

theorem stopsInside_term : StopsInside term := by
  have hcomparison : StopsInside comparison :=
    stopsInside_operand.bind fun _ => stopsInside_comparator.bind fun _ =>
      stopsInside_operand.commit.bind fun _ => stopsInside_pure _
  have hconstant : StopsInside constant :=
    stopsInside_spaces.bind fun _ => stopsInside_word.bind fun _ =>
      (stopsInside_pure _).ite ((stopsInside_pure _).ite stopsInside_fail)
  exact (hcomparison.either hconstant).noting _

theorem stopsInside_extend (c : Condition) : StopsInside (extend c) := by
  have hand : StopsInside andKeyword :=
    (stopsInside_keyword _).bind fun _ => stopsInside_pure _
  have hor : StopsInside orKeyword :=
    (stopsInside_keyword _).bind fun _ => stopsInside_pure _
  exact (hand.either hor).bind fun _ => stopsInside_term.commit.bind fun _ => stopsInside_pure _

theorem stopsInside_condition : StopsInside condition :=
  stopsInside_term.bind fun first => .chain stopsInside_extend first

theorem stopsInside_wholeCondition : StopsInside wholeCondition :=
  stopsInside_condition.bind fun _ => stopsInside_spaces.bind fun _ => stopsInside_pure _

/-! ## Rules -/

theorem stopsInside_label : StopsInside label := by
  have hquoted : StopsInside quotedLabel :=
    stopsInside_quoted.bind fun _ => stopsInside_fail.ite (stopsInside_pure _)
  have hbare : StopsInside bareLabel :=
    (stopsInside_many1 _).bind fun _ => stopsInside_pure _
  exact stopsInside_spaces.bind fun _ => (hquoted.either hbare).noting _

theorem stopsInside_restOfLine : StopsInside restOfLine := by
  intro text
  have hleft : text.dropWhile (!isLineEnd ·) <:+ text := List.dropWhile_suffix _
  rw [restOfLine]
  split
  case h_1 rest hrest =>
    rw [hrest] at hleft
    exact hleft
  case h_2 rest _ hrest =>
    rw [hrest] at hleft
    exact hleft
  case h_3 => exact hleft

theorem stopsInside_ruleLine : StopsInside ruleLine := by
  have hconditional : StopsInside conditional :=
    (stopsInside_keyword _).bind fun _ =>
      (stopsInside_condition.commit.noting _).bind fun _ =>
        ((stopsInside_keyword _).commit.noting _).bind fun _ =>
          ((stopsInside_keyword _).commit.noting _).bind fun _ =>
            stopsInside_label.commit.bind fun _ => stopsInside_pure _
  have hfallback : StopsInside fallback :=
    (stopsInside_keyword _).bind fun _ =>
      stopsInside_label.commit.bind fun _ => stopsInside_pure _
  have hcomment : StopsInside comment :=
    (stopsInside_exactly _).bind fun _ => stopsInside_restOfLine
  exact ((hconditional.either hfallback).noting _).bind fun _ =>
    stopsInside_spaces.bind fun _ => hcomment.optional.bind fun _ => stopsInside_pure _

/-! ## Whole texts -/

/-- A text that is not read as a whole is refused at an end of it. -/
theorem StopsInside.rest_suffix {reader : Reader α} (h : StopsInside reader) {text : List Char}
    {failure : Failure} (herror : complete reader text = .error failure) :
    failure.rest <:+ text := by
  have hleft := h text
  rw [complete] at herror
  cases hread : reader text with
  | error inner =>
    rw [hread] at hleft herror
    cases herror
    exact hleft
  | ok read =>
    obtain ⟨a, rest⟩ := read
    rw [hread] at hleft herror
    cases rest with
    | nil => cases herror
    | cons c rest =>
      cases herror
      exact hleft

end Reader

end Retention
