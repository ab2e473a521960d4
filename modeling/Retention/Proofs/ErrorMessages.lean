import Retention.Proofs.ErrorColumns
import Retention.Proofs.Grammar.Failures
import Retention.Proofs.Lists

/-!
# Error messages

A message is made of the notes of a failure, stays on one line, and is empty where nothing was
noted. A refused rule line always has a message. A refused condition has none exactly where a
condition stands in front and something else behind it.
-/

namespace Retention

/-! ## The message of a failure -/

namespace Failure

variable {failure : Failure}

theorem newline_notMem_withinText (h : failure.IsPlain) :
    ∀ text ∈ failure.withinText, '\n' ∉ text.toList := by
  unfold withinText
  split
  · rename_i part hpart
    obtain ⟨note, hnote, hpart⟩ := List.exists_of_findSome?_eq_some hpart
    have hplain := h note hnote
    cases note with
    | within name =>
      cases hpart
      simpa [Note.IsPlain, Note.text] using hplain
    | expected what => cases hpart
  · simp

theorem newline_notMem_expectedText (h : failure.IsPlain) :
    ∀ text ∈ failure.expectedText, '\n' ∉ text.toList := by
  have hwhats : ∀ text ∈ (failure.notes.filterMap Note.expected?).map Expectation.text,
      '\n' ∉ text.toList := by
    intro text htext
    obtain ⟨what, hwhat, rfl⟩ := List.mem_map.1 htext
    obtain ⟨note, hnote, hwhat⟩ := List.mem_filterMap.1 hwhat
    cases note with
    | within name => cases hwhat
    | expected other =>
      cases hwhat
      exact h _ hnote
  have hcomma : '\n' ∉ ", ".toList := by decide
  have hlist := notMem_intercalate hcomma hwhats
  unfold expectedText
  split
  · simp
  · simpa using hlist

theorem newline_notMem_message (h : failure.IsPlain) : '\n' ∉ failure.message.toList := by
  refine notMem_intercalate (by decide) ?_
  rw [List.forall_mem_append]
  exact ⟨newline_notMem_withinText h, newline_notMem_expectedText h⟩

theorem parts_ne_nil (h : failure.IsNoted) : failure.withinText ++ failure.expectedText ≠ [] := by
  obtain ⟨note, rest, hnotes⟩ := List.exists_cons_of_ne_nil h
  cases note with
  | within part =>
    have hfirst : failure.notes.findSome? Note.within? = some part := by rw [hnotes]; rfl
    simp [withinText, hfirst]
  | expected what =>
    have hwhats : failure.notes.filterMap Note.expected? =
        what :: rest.filterMap Note.expected? := by rw [hnotes]; rfl
    simp [expectedText, hwhats]

theorem ne_empty_of_mem_parts {text : String}
    (h : text ∈ failure.withinText ++ failure.expectedText) : text ≠ "" := by
  rw [List.mem_append] at h
  unfold withinText expectedText at h
  rcases h with h | h
  · split at h
    · simp at h
      simp [h]
    · cases h
  · split at h
    · cases h
    · simp at h
      simp [h]

/-- Every note shows in the message. -/
theorem message_eq_empty_iff : failure.message = "" ↔ failure.notes = [] := by
  constructor
  · intro h
    by_contra hne
    obtain ⟨text, rest, hparts⟩ := List.exists_cons_of_ne_nil (parts_ne_nil hne)
    have htext : text ≠ "" := ne_empty_of_mem_parts (by rw [hparts]; exact List.mem_cons_self)
    rw [message, hparts] at h
    exact intercalate_cons_ne_empty htext _ rest h
  · intro h
    simp [message, withinText, expectedText, h]

end Failure

/-! ## Conditions -/

/-- A condition stands in front, and AND or OR do not go on from it. -/
def StartsWithCondition (text : List Char) : Prop :=
  ∃ c tokens rest, ConditionTokens c tokens ∧ Spaced tokens text rest ∧ ¬ Reader.JoinsNext rest

theorem startsWithCondition_iff {text : List Char} :
    StartsWithCondition text ↔ ∃ read, Reader.wholeCondition text = .ok read := by
  constructor
  · rintro ⟨c, tokens, rest, hc, hs, hend⟩
    have hread := Reader.condition_iff.2 ⟨⟨tokens, hc, hs⟩, hend⟩
    exact ⟨_, Reader.bind_eq_ok_iff.2 ⟨c, rest, hread, rfl⟩⟩
  · rintro ⟨⟨_, _⟩, hread⟩
    obtain ⟨c, rest, hc, -⟩ := Reader.bind_eq_ok_iff.1 hread
    obtain ⟨⟨tokens, hc, hs⟩, hend⟩ := Reader.condition_iff.1 hc
    exact ⟨c, tokens, rest, hc, hs, hend⟩

namespace Reader

/-- What is left of a text is refused without a note. -/
theorem complete_eq_error {α : Type} {reader : Reader α} {text : List Char} {failure : Failure}
    (h : complete reader text = .error failure) :
    reader text = .error failure ∨
      (∃ read, reader text = .ok read) ∧ failure.notes = [] := by
  unfold complete at h
  cases hread : reader text with
  | error inner =>
    simp only [hread] at h
    cases h
    exact .inl rfl
  | ok read =>
    obtain ⟨a, rest⟩ := read
    simp only [hread] at h
    cases rest with
    | nil => cases h
    | cons c rest =>
      cases h
      exact .inr ⟨⟨_, rfl⟩, rfl⟩

theorem FailsWith.isPlain_complete {α : Type} {reader : Reader α}
    (hreader : FailsWith Failure.IsPlain reader) {text : List Char} {failure : Failure}
    (h : complete reader text = .error failure) : failure.IsPlain := by
  rcases complete_eq_error h with h | ⟨-, hnotes⟩
  · exact hreader text failure h
  · simp [Failure.IsPlain, hnotes]

end Reader

theorem Condition.parse_eq_error {text : String} {error : ParseError}
    (h : Condition.parse text = .error error) :
    ∃ failure, Reader.complete Reader.wholeCondition text.toList = .error failure ∧
      error.message = failure.message := by
  unfold Condition.parse at h
  split at h <;> cases h
  rename_i failure hread
  exact ⟨failure, hread, rfl⟩

theorem Condition.newline_notMem_of_parse {text : String} {error : ParseError}
    (h : Condition.parse text = .error error) : '\n' ∉ error.message.toList := by
  obtain ⟨failure, hread, hmessage⟩ := Condition.parse_eq_error h
  have hreader := Reader.failsWith_wholeCondition Reader.failsWith_condition
  rw [hmessage]
  exact Failure.newline_notMem_message (hreader.isPlain_complete hread)

/-- Nothing is said of a text that goes on behind a condition. -/
theorem Condition.message_eq_empty_iff_of_parse {text : String} {error : ParseError}
    (h : Condition.parse text = .error error) :
    error.message = "" ↔ StartsWithCondition text.toList := by
  obtain ⟨failure, hread, hmessage⟩ := Condition.parse_eq_error h
  rw [hmessage, Failure.message_eq_empty_iff, startsWithCondition_iff]
  rcases Reader.complete_eq_error hread with hfails | ⟨hok, hnotes⟩
  · have hnoted : failure.notes ≠ [] :=
      Reader.failsWith_wholeCondition Reader.isNoted_condition _ failure hfails
    simp [hfails, hnoted]
  · exact iff_of_true hnotes hok

/-! ## Rule lines -/

/-- The error says something, on one line. -/
def ParseError.IsExplained (error : ParseError) : Prop :=
  error.message ≠ "" ∧ '\n' ∉ error.message.toList

theorem Rule.isExplained_of_parse {text : String} {error : ParseError}
    (h : Rule.parse text = .error error) : error.IsExplained := by
  unfold Rule.parse at h
  split at h <;> cases h
  rename_i failure hread
  have hplain := Reader.failsWith_ruleLine.isPlain_complete hread
  unfold ParseError.IsExplained
  dsimp only
  split
  · decide
  · rename_i hmessage
    exact ⟨hmessage, Failure.newline_notMem_message hplain⟩

/-- A refused rule line is always explained. A refused condition is explained on one line, or not
at all, and the latter exactly where the text goes on behind a condition. -/
theorem explained_of_refused (text : String) (lines : List Line) :
    (∀ error, Condition.parse text = .error error → '\n' ∉ error.message.toList ∧
      (error.message = "" ↔ StartsWithCondition text.toList)) ∧
      ∀ d ∈ (readRuleLines lines).filterMap Entry.diagnostic?,
        ∃ reason, d.kind = .skipped reason ∧ reason.IsExplained := by
  refine ⟨fun error h => ?_, fun d hd => ?_⟩
  · exact ⟨Condition.newline_notMem_of_parse h, Condition.message_eq_empty_iff_of_parse h⟩
  · obtain ⟨line, -, -, reason, hparse, rfl⟩ := mem_diagnostics_readRuleLines_iff.1 hd
    exact ⟨reason, rfl, Rule.isExplained_of_parse hparse⟩

/-- A word too many has no message behind a condition, and one behind a rule. -/
theorem explained_of_refused_of_word_too_many :
    let missing : ParseError := ⟨some 9, "expected operand, comparison"⟩
    let lines : List Line := [⟨3, "RETURN BIG"⟩, ⟨4, "RETURN BIG now"⟩]
    let d : Diagnostic := ⟨4, "RETURN BIG now", .skipped ⟨some 12, "unrecognised rule"⟩⟩
    (Condition.parse "tenure <" = .error missing ∧ '\n' ∉ missing.message.toList ∧
      ¬ StartsWithCondition "tenure <".toList) ∧
      d ∈ (readRuleLines lines).filterMap Entry.diagnostic? ∧
        ∃ reason, d.kind = .skipped reason ∧ reason.IsExplained := by
  intro missing lines d
  have hcondition : Condition.parse "tenure <" = .error missing := by decide +kernel
  have hd : d ∈ (readRuleLines lines).filterMap Entry.diagnostic? := by decide +kernel
  obtain ⟨hrefused, hskipped⟩ := explained_of_refused "tenure <" lines
  obtain ⟨hnewline, hempty⟩ := hrefused missing hcondition
  exact ⟨⟨hcondition, hnewline, fun h => absurd (hempty.2 h) (by decide)⟩, hd, hskipped d hd⟩

/-- Where a condition is complete and a word is left, the error has a column and no message. -/
theorem message_eq_empty_of_word_too_many :
    Condition.parse "tenure < 6 THEN" = .error ⟨some 12, ""⟩ := by
  decide +kernel

end Retention
