import Retention.Proofs.Accounting
import Retention.Proofs.Grammar.Stops

/-!
# Error columns

The column of an error is one more than the bytes in front of the place where reading stopped.
Reading stops with an end of the text left, so a column points into the text: to the start of
one of its characters, or right behind the last one.
-/

namespace Retention

/-- The error has a column in the text, and a character can start there. -/
def ParseError.PointsInto (error : ParseError) (text : String) : Prop :=
  ∃ column, error.column = some column ∧ 1 ≤ column ∧ column ≤ text.utf8ByteSize + 1 ∧
    String.Pos.Raw.IsValid text ⟨column - 1⟩

/-! ## One text -/

/-- With an end of the text left, the column counts the bytes in front of it. -/
theorem Failure.column_append (failure : Failure) (before : List Char) :
    failure.column (before ++ failure.rest) = (String.ofList before).utf8ByteSize + 1 := by
  rw [column, String.ofList_append, String.utf8ByteSize_append, Nat.add_sub_cancel]

theorem Failure.pointsInto_column {failure : Failure} {text : List Char}
    (h : failure.rest <:+ text) (message : String) :
    (ParseError.mk (some (failure.column text)) message).PointsInto (String.ofList text) := by
  obtain ⟨before, rfl⟩ := h
  refine ⟨_, rfl, ?_⟩
  rw [failure.column_append]
  have hvalid : String.Pos.Raw.IsValid (String.ofList (before ++ failure.rest))
      ⟨(String.ofList before).utf8ByteSize + 1 - 1⟩ := by
    rw [Nat.add_sub_cancel, String.Pos.Raw.isValid_iff_exists_append]
    exact ⟨String.ofList before, String.ofList failure.rest, String.ofList_append, rfl⟩
  refine ⟨by omega, ?_, hvalid⟩
  rw [String.ofList_append, String.utf8ByteSize_append]
  omega

theorem Condition.pointsInto_of_parse {text : String} {error : ParseError}
    (h : Condition.parse text = .error error) : error.PointsInto text := by
  cases hread : Reader.complete Reader.wholeCondition text.toList with
  | ok condition =>
    unfold Condition.parse at h
    rw [hread] at h
    cases h
  | error failure =>
    have hrest := Reader.stopsInside_wholeCondition.rest_suffix hread
    unfold Condition.parse at h
    rw [hread] at h
    cases h
    simpa using Failure.pointsInto_column hrest failure.message

theorem Rule.pointsInto_of_parse {text : String} {error : ParseError}
    (h : Rule.parse text = .error error) : error.PointsInto text := by
  cases hread : Reader.complete Reader.ruleLine text.toList with
  | ok rule =>
    unfold Rule.parse at h
    rw [hread] at h
    cases h
  | error failure =>
    have hrest := Reader.stopsInside_ruleLine.rest_suffix hread
    unfold Rule.parse at h
    rw [hread] at h
    cases h
    simpa using Failure.pointsInto_column hrest _

/-! ## Rule lines -/

/-- A line that the grammar refuses gives one diagnostic, which holds the trimmed line. -/
theorem Line.diagnostic?_entry_eq_some_iff {line : Line} {d : Diagnostic} :
    line.entry.diagnostic? = some d ↔ ∃ reason, line.parse = .error reason ∧
      d = ⟨line.number, String.ofList line.trimmed, .skipped reason⟩ := by
  cases hparse : line.parse with
  | ok rule => simp [entry_of_ok hparse, Entry.diagnostic?, Entry.malformed?]
  | error reason =>
    simp [entry_of_error hparse, Entry.diagnostic?, Entry.malformed?, Diagnostic.ofMalformed,
      eq_comm]

theorem mem_diagnostics_readRuleLines_iff {lines : List Line} {d : Diagnostic} :
    d ∈ (readRuleLines lines).filterMap Entry.diagnostic? ↔
      ∃ line ∈ lines, line.holdsRule ∧ ∃ reason, line.parse = .error reason ∧
        d = ⟨line.number, String.ofList line.trimmed, .skipped reason⟩ := by
  simp only [readRuleLines_eq, List.filterMap_map, List.mem_filterMap, List.mem_filter,
    Function.comp_apply, Line.diagnostic?_entry_eq_some_iff, and_assoc]

/-- Whatever is refused, a condition or a rule line, the column is a place in the text that the
error is about. -/
theorem pointsInto_of_refused :
    (∀ text error, Condition.parse text = .error error → error.PointsInto text) ∧
      ∀ lines, ∀ d ∈ (readRuleLines lines).filterMap Entry.diagnostic?,
        ∃ line ∈ lines, ∃ reason, line.parse = .error reason ∧
          d = ⟨line.number, String.ofList line.trimmed, .skipped reason⟩ ∧
          reason.PointsInto d.text := by
  refine ⟨fun text error => Condition.pointsInto_of_parse, ?_⟩
  intro lines d hd
  obtain ⟨line, hline, -, reason, hparse, rfl⟩ := mem_diagnostics_readRuleLines_iff.1 hd
  exact ⟨line, hline, reason, hparse, rfl, Rule.pointsInto_of_parse hparse⟩

/-- Both errors stand right in front of an umlaut. -/
theorem pointsInto_of_refused_of_umlaut :
    let error : ParseError := ⟨some 3, "expected comparison"⟩
    let lines : List Line := [⟨6, "RETURN BIG"⟩, ⟨7, "  IF a == 'ü' THEN größe"⟩]
    let d : Diagnostic :=
      ⟨7, "IF a == 'ü' THEN größe", .skipped ⟨some 21, "invalid rule; expected `RETURN`"⟩⟩
    (Condition.parse "größe == 3" = .error error ∧ error.PointsInto "größe == 3") ∧
      d ∈ (readRuleLines lines).filterMap Entry.diagnostic? ∧
        ∃ reason, d.kind = .skipped reason ∧ reason.PointsInto d.text := by
  intro error lines d
  have hcondition : Condition.parse "größe == 3" = .error error := by decide +kernel
  have hd : d ∈ (readRuleLines lines).filterMap Entry.diagnostic? := by decide +kernel
  obtain ⟨_, _, reason, _, heq, hpoints⟩ := pointsInto_of_refused.2 lines d hd
  exact ⟨⟨hcondition, pointsInto_of_refused.1 _ _ hcondition⟩, hd, reason,
    congrArg Diagnostic.kind heq, hpoints⟩

end Retention
