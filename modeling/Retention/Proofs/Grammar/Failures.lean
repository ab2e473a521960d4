import Retention.ParseError

/-!
# How readers fail

What holds of every failure of a reader follows from the failures of its parts. The readers of
single tokens fail silently, so that an alternative is tried. A quoted text that does not end is
a committed failure. Whatever is noted by a reader of the rule language stays on one line.
-/

namespace Retention

/-! ## Properties of failures -/

namespace Note

def text : Note → String
  | .within part => part
  | .expected what => what.text

/-- The text of the note stays on one line. -/
def IsPlain (note : Note) : Prop := '\n' ∉ note.text.toList

instance (note : Note) : Decidable note.IsPlain :=
  inferInstanceAs (Decidable ('\n' ∉ note.text.toList))

theorem isPlain_mark {c : Char} (h : c ≠ '\n') : (Note.expected (.mark c)).IsPlain := by
  simp [IsPlain, text, Expectation.text, h.symm]

end Note

namespace Failure

/-- An alternative is tried, and nothing is noted. -/
def IsSilent (failure : Failure) : Prop := failure.committed = false ∧ failure.notes = []

def IsPlain (failure : Failure) : Prop := ∀ note ∈ failure.notes, note.IsPlain

def IsNoted (failure : Failure) : Prop := failure.notes ≠ []

theorem IsSilent.isPlain {failure : Failure} (h : failure.IsSilent) : failure.IsPlain := by
  simp [IsPlain, h.2]

end Failure

namespace Reader

variable {α β : Type} {P Q : Failure → Prop}

/-- Every failure of the reader has the property. -/
def FailsWith (P : Failure → Prop) (reader : Reader α) : Prop :=
  ∀ text failure, reader text = .error failure → P failure

theorem FailsWith.mono {reader : Reader α} (h : FailsWith P reader) (hPQ : ∀ f, P f → Q f) :
    FailsWith Q reader :=
  fun text failure hread => hPQ failure (h text failure hread)

theorem FailsWith.isPlain {reader : Reader α} (h : FailsWith Failure.IsSilent reader) :
    FailsWith Failure.IsPlain reader :=
  h.mono fun _ => Failure.IsSilent.isPlain

/-- Of what fails silently nothing is said once it is committed. -/
theorem FailsWith.of_committed {reader : Reader α} (h : FailsWith Failure.IsSilent reader) :
    FailsWith (fun f => f.committed → P f) reader := by
  refine h.mono fun f hf hcommitted => ?_
  rw [hf.1] at hcommitted
  cases hcommitted

/-! ## One reader after another -/

theorem failsWith_pure (a : α) : FailsWith P (pure a : Reader α) := by
  intro text failure h
  cases h

theorem FailsWith.bind_of_ok {first : Reader α} {next : α → Reader β} (hfirst : FailsWith P first)
    (hnext : ∀ text a rest, first text = .ok (a, rest) → FailsWith P (next a)) :
    FailsWith P (first >>= next) := by
  intro text failure h
  rcases bind_eq_error_iff.1 h with h | ⟨a, rest, hread, h⟩
  · exact hfirst text failure h
  · exact hnext text a rest hread rest failure h

theorem FailsWith.bind {first : Reader α} {next : α → Reader β} (hfirst : FailsWith P first)
    (hnext : ∀ a, FailsWith P (next a)) : FailsWith P (first >>= next) :=
  hfirst.bind_of_ok fun _ a _ _ => hnext a

theorem FailsWith.ite {c : Prop} [Decidable c] {yes no : Reader α} (hyes : FailsWith P yes)
    (hno : FailsWith P no) : FailsWith P (if c then yes else no) := by
  split
  · exact hyes
  · exact hno

/-! ## Characters -/

theorem failsWith_fail : FailsWith Failure.IsSilent (fail : Reader α) := by
  intro text failure h
  cases h
  exact ⟨rfl, rfl⟩

theorem failsWith_satisfy (p : Char → Bool) : FailsWith Failure.IsSilent (satisfy p) := by
  intro text failure h
  cases text with
  | nil =>
    cases h
    exact ⟨rfl, rfl⟩
  | cons c rest =>
    rw [satisfy] at h
    split at h <;> cases h
    exact ⟨rfl, rfl⟩

theorem failsWith_many (p : Char → Bool) : FailsWith P (many p) := by
  intro text failure h
  cases h

theorem failsWith_many1 (p : Char → Bool) : FailsWith Failure.IsSilent (many1 p) :=
  (failsWith_satisfy p).bind fun _ => (failsWith_many p).bind fun _ => failsWith_pure _

theorem failsWith_exactly (word : List Char) : FailsWith Failure.IsSilent (exactly word) := by
  intro text failure h
  rw [exactly] at h
  split at h <;> cases h
  exact ⟨rfl, rfl⟩

/-! ## Choices -/

theorem FailsWith.either {first second : Reader α} (hfirst : FailsWith P first)
    (hsecond : FailsWith P second) : FailsWith P (either first second) := by
  intro text failure h
  unfold Reader.either at h
  cases hread : first text with
  | ok read => simp [hread] at h
  | error inner =>
    simp only [hread] at h
    split at h
    · cases h
      exact hfirst text _ hread
    · exact hsecond text failure h

/-- Only a committed failure is left. -/
theorem FailsWith.optional {reader : Reader α} (h : FailsWith (fun f => f.committed → P f) reader) :
    FailsWith P (optional reader) := by
  intro text failure hfails
  unfold Reader.optional at hfails
  cases hread : reader text with
  | ok read => simp [hread] at hfails
  | error inner =>
    simp only [hread] at hfails
    split at hfails
    · rename_i hcommitted
      cases hfails
      exact h text _ hread hcommitted
    · cases hfails

theorem FailsWith.commit {reader : Reader α}
    (h : FailsWith (fun f => P { f with committed := true }) reader) :
    FailsWith P (commit reader) := by
  intro text failure hfails
  unfold Reader.commit at hfails
  cases hread : reader text with
  | ok read => simp [hread] at hfails
  | error inner =>
    simp only [hread] at hfails
    cases hfails
    exact h text inner hread

theorem FailsWith.noting {note : Note} {reader : Reader α}
    (h : FailsWith (fun f => P { f with notes := f.notes ++ [note] }) reader) :
    FailsWith P (noting note reader) := by
  intro text failure hfails
  unfold Reader.noting at hfails
  cases hread : reader text with
  | ok read => simp [hread] at hfails
  | error inner =>
    simp only [hread] at hfails
    cases hfails
    exact h text inner hread

theorem failsWith_isNoted_noting (note : Note) (reader : Reader α) :
    FailsWith Failure.IsNoted (noting note reader) :=
  FailsWith.noting fun _ _ _ => by simp [Failure.IsNoted]

theorem FailsWith.isPlain_noting {note : Note} {reader : Reader α} (hnote : note.IsPlain)
    (h : FailsWith Failure.IsPlain reader) :
    FailsWith Failure.IsPlain (Reader.noting note reader) := by
  refine FailsWith.noting (h.mono fun f hf => ?_)
  simpa [Failure.IsPlain, or_imp, forall_and] using ⟨hf, hnote⟩

/-! ## Repetition -/

/-- A step that cannot be taken is passed over unless it is committed. -/
theorem FailsWith.steps {step : α → Reader α}
    (h : ∀ a, FailsWith (fun f => f.committed → P f) (step a)) (n : Nat) :
    ∀ a, FailsWith P (steps step n a) := by
  induction n with
  | zero => exact failsWith_pure
  | succ n ih =>
    intro a text failure hfails
    unfold Reader.steps at hfails
    cases hread : step a text with
    | ok read =>
      simp only [hread] at hfails
      exact ih _ _ failure hfails
    | error inner =>
      simp only [hread] at hfails
      split at hfails
      · rename_i hcommitted
        cases hfails
        exact h a text _ hread hcommitted
      · cases hfails

theorem FailsWith.chain {step : α → Reader α}
    (h : ∀ a, FailsWith (fun f => f.committed → P f) (step a)) (a : α) :
    FailsWith P (chain step a) :=
  fun text => FailsWith.steps h (text.length + 1) a text

/-! ## Tokens -/

theorem failsWith_spaces : FailsWith P spaces :=
  (failsWith_many isSpace).bind fun _ => failsWith_pure ()

theorem failsWith_word : FailsWith Failure.IsSilent word :=
  (failsWith_satisfy isWordStart).bind fun _ =>
    (failsWith_many isNameChar).bind fun _ => failsWith_pure _

theorem failsWith_keyword (name : String) : FailsWith Failure.IsSilent (keyword name) :=
  failsWith_spaces.bind fun _ => failsWith_word.bind fun _ =>
    (failsWith_pure ()).ite failsWith_fail

theorem failsWith_numeral : FailsWith Failure.IsSilent numeral := by
  have hfraction : FailsWith Failure.IsSilent fraction :=
    (failsWith_exactly _).bind fun _ => failsWith_many1 _
  exact (failsWith_exactly _).of_committed.optional.bind fun _ =>
    (failsWith_many1 _).bind fun _ =>
      hfraction.of_committed.optional.bind fun _ => failsWith_pure _

/-- The failure of the rest of a text is the failure of the text. -/
theorem error_of_bind_front {found : Except Failure (List Char × List Char)}
    {next : List Char × List Char → List Char × List Char} {failure : Failure}
    (h : (found >>= fun result => pure (next result)) = .error failure) :
    found = .error failure := by
  cases found with
  | ok read => cases h
  | error inner => exact h

/-- A quoted text that does not end leaves no alternative, and names no more than its quote. -/
theorem failsWith_quotedBody (quote : Char) : FailsWith
    (fun f => f.committed ∧ ∀ note ∈ f.notes, note = .expected (.mark quote))
    (quotedBody quote) := by
  intro text failure h
  fun_induction quotedBody quote text with
  | case1 =>
    cases h
    simp
  | case2 =>
    cases h
    simp
  | case3 c rest ih => exact ih (error_of_bind_front h)
  | case4 => cases h
  | case5 c rest _ _ _ ih => exact ih (error_of_bind_front h)

theorem ne_newline_of_isQuote {quote : Char} (h : isQuote quote) : quote ≠ '\n' := by
  rintro rfl
  cases h

theorem failsWith_quoted : FailsWith Failure.IsPlain quoted := by
  refine (failsWith_satisfy isQuote).isPlain.bind_of_ok fun text quote rest hquote => ?_
  have hne := ne_newline_of_isQuote (satisfy_eq_ok_iff.1 hquote).2
  have hbody : FailsWith Failure.IsPlain (quotedBody quote) := by
    refine (failsWith_quotedBody quote).mono fun f hf note hnote => ?_
    rw [hf.2 note hnote]
    exact Note.isPlain_mark hne
  exact hbody.bind fun _ => failsWith_pure _

/-! ## Conditions -/

theorem failsWith_operand : FailsWith Failure.IsPlain operand := by
  have hquoted : FailsWith Failure.IsPlain quotedOperand :=
    failsWith_quoted.bind fun _ => failsWith_pure _
  have hnumeral : FailsWith Failure.IsSilent numeralOperand :=
    failsWith_numeral.bind fun _ => failsWith_pure _
  have hfield : FailsWith Failure.IsSilent fieldOrNull :=
    failsWith_word.bind fun _ => (failsWith_pure _).ite (failsWith_fail.ite (failsWith_pure _))
  have hany := hquoted.either (hnumeral.either hfield).isPlain
  exact failsWith_spaces.bind fun _ => hany.isPlain_noting (by decide)

theorem failsWith_comparator : FailsWith Failure.IsPlain comparator := by
  have h : ∀ op, FailsWith Failure.IsSilent (symbol op) := fun op =>
    (failsWith_exactly _).bind fun _ => failsWith_pure op
  have hany := (h .ge).either ((h .gt).either ((h .le).either ((h .lt).either
    ((h .eq).either (h .ne)))))
  exact failsWith_spaces.bind fun _ => hany.isPlain.isPlain_noting (by decide)

theorem failsWith_term : FailsWith Failure.IsPlain term := by
  have hcomparison : FailsWith Failure.IsPlain comparison :=
    failsWith_operand.bind fun _ => failsWith_comparator.bind fun _ =>
      (FailsWith.commit failsWith_operand).bind fun _ => failsWith_pure _
  have hconstant : FailsWith Failure.IsSilent constant :=
    failsWith_spaces.bind fun _ => failsWith_word.bind fun _ =>
      (failsWith_pure _).ite ((failsWith_pure _).ite failsWith_fail)
  exact (hcomparison.either hconstant.isPlain).isPlain_noting (by decide)

theorem failsWith_connective : FailsWith Failure.IsSilent (either andKeyword orKeyword) := by
  have hand : FailsWith Failure.IsSilent andKeyword :=
    (failsWith_keyword _).bind fun _ => failsWith_pure _
  have hor : FailsWith Failure.IsSilent orKeyword :=
    (failsWith_keyword _).bind fun _ => failsWith_pure _
  exact hand.either hor

theorem failsWith_condition : FailsWith Failure.IsPlain condition := by
  have hextend : ∀ c, FailsWith Failure.IsPlain (extend c) := fun c =>
    failsWith_connective.isPlain.bind fun _ =>
      (FailsWith.commit failsWith_term).bind fun _ => failsWith_pure _
  exact failsWith_term.bind fun first =>
    FailsWith.chain (fun c => (hextend c).mono fun _ hf _ => hf) first

/-- A condition is not refused without a note: a term is missing where one has to follow. -/
theorem isNoted_condition : FailsWith Failure.IsNoted condition := by
  have hterm : FailsWith Failure.IsNoted term := failsWith_isNoted_noting _ _
  have hextend : ∀ c, FailsWith (fun f => f.committed → f.IsNoted) (extend c) := fun c =>
    failsWith_connective.of_committed.bind fun _ =>
      (FailsWith.commit (hterm.mono fun _ hf _ => hf)).bind fun _ => failsWith_pure _
  exact hterm.bind fun first => FailsWith.chain hextend first

theorem failsWith_wholeCondition (hcondition : FailsWith P condition) :
    FailsWith P wholeCondition :=
  hcondition.bind fun _ => failsWith_spaces.bind fun _ => failsWith_pure _

/-! ## Rules -/

theorem failsWith_label : FailsWith Failure.IsPlain label := by
  have hquoted : FailsWith Failure.IsPlain quotedLabel :=
    failsWith_quoted.bind fun _ => failsWith_fail.isPlain.ite (failsWith_pure _)
  have hbare : FailsWith Failure.IsSilent bareLabel :=
    (failsWith_many1 _).bind fun _ => failsWith_pure _
  exact failsWith_spaces.bind fun _ => (hquoted.either hbare.isPlain).isPlain_noting (by decide)

theorem failsWith_comment : FailsWith Failure.IsSilent comment := by
  refine (failsWith_exactly _).bind fun _ => ?_
  intro text failure h
  unfold restOfLine at h
  split at h <;> cases h
  exact ⟨rfl, rfl⟩

theorem failsWith_ruleLine : FailsWith Failure.IsPlain ruleLine := by
  have hkeyword : ∀ name, FailsWith Failure.IsPlain (commit (keyword name)) := fun name =>
    FailsWith.commit (failsWith_keyword name).isPlain
  have hlabel : FailsWith Failure.IsPlain (commit label) := FailsWith.commit failsWith_label
  have hcondition : FailsWith Failure.IsPlain (noting (.within "condition") (commit condition)) :=
    FailsWith.isPlain_noting (by decide) (FailsWith.commit failsWith_condition)
  have hconditional : FailsWith Failure.IsPlain conditional :=
    (failsWith_keyword _).isPlain.bind fun _ => hcondition.bind fun _ =>
      ((hkeyword _).isPlain_noting (by decide)).bind fun _ =>
        ((hkeyword _).isPlain_noting (by decide)).bind fun _ =>
          hlabel.bind fun _ => failsWith_pure _
  have hfallback : FailsWith Failure.IsPlain fallback :=
    (failsWith_keyword _).isPlain.bind fun _ => hlabel.bind fun _ => failsWith_pure _
  have hrule : FailsWith Failure.IsPlain
      (noting (.within "rule") (either conditional fallback)) :=
    (hconditional.either hfallback).isPlain_noting (by decide)
  exact hrule.bind fun _ => failsWith_spaces.bind fun _ =>
    failsWith_comment.of_committed.optional.bind fun _ => failsWith_pure _

end Reader

end Retention
