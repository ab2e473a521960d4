import Retention.Proofs.Accounting

/-!
# What diagnostics quote

A diagnostic stands at its own line of the document. A line that cannot be read is quoted as it
stands there, trimmed. Any other line is quoted as the rule that was read from it prints, and that
is the trimmed line only where the rule was written as it prints.
-/

namespace Retention

/-- The text that stands for a line in a diagnostic. -/
def Line.quoted (line : Line) : String :=
  match line.parse with
  | .ok rule => rule.text
  | .error _ => String.ofList line.trimmed

theorem Line.quoted_eq_trimmed_iff (line : Line) :
    line.quoted = String.ofList line.trimmed ↔
      ∀ rule, line.parse = .ok rule → rule.text = String.ofList line.trimmed := by
  unfold quoted
  cases line.parse with
  | ok rule => simp
  | error reason => simp

/-- How a diagnostic speaks of its line. It names a column only where the line cannot be read. -/
structure Diagnostic.Quotes (d : Diagnostic) (line : Line) : Prop where
  line_eq : d.line = line.number
  text_eq : d.text = line.quoted
  malformed_iff : ∀ reason : ParseError,
    (d.kind = .skipped reason ∧ reason.column.isSome) ↔ line.parse = .error reason

theorem quotes_of_noted {policy : Policy} {above : Option Nat} {line : Line} {d : Diagnostic}
    (h : .noted d = verdict policy above line.entry) : d.Quotes line := by
  have hline : d.line = line.number := by
    have hverdict := verdict_line policy above line.entry
    rwa [← h, Line.entry_line] at hverdict
  have hmalformed : ∀ reason : ParseError,
      (d.kind = .skipped reason ∧ reason.column.isSome) ↔ line.parse = .error reason := by
    intro reason
    have hnoted : (∃ found, .noted found = verdict policy above line.entry ∧
        found.kind = .skipped reason ∧ reason.column.isSome) ↔ line.parse = .error reason :=
      noted_malformed_iff
    rw [← hnoted, ← h]
    simp
  refine ⟨hline, ?_, hmalformed⟩
  unfold Line.quoted
  rcases verdict_entry_cases policy above line with ⟨reason, hparse, hv⟩ | ⟨rule, hparse, -, hv⟩ |
    ⟨rule, -, -, -, hv⟩ | ⟨rule, n, hparse, -, -, hv⟩
  · rw [hv] at h
    cases h
    rw [hparse]
  · rw [hv] at h
    cases h
    rw [hparse]
    rfl
  · -- A rule that runs leaves no diagnostic.
    rw [hv] at h
    cases h
  · rw [hv] at h
    cases h
    rw [hparse]
    rfl

/-- On sorted lines a diagnostic quotes the line of its number. -/
theorem exists_quotes_of_mem {policy : Policy} {lines : List Line} {d : Diagnostic}
    (hlines : lines.Pairwise fun a b => a.number < b.number)
    (hd : d ∈ (RuleSet.ofEntries policy (lines.map Line.entry)).diagnostics) :
    ∃ line ∈ lines, d.Quotes line := by
  have hnumber : d.line ∈ lines.map Line.number := by
    refine (accounts_entries policy hlines).once.mem_iff.1 (List.mem_append_right _ ?_)
    exact List.mem_map_of_mem hd
  obtain ⟨line, hline, hsame⟩ := List.mem_map.1 hnumber
  have hnoted := (mem_diagnostics_entries_iff hlines hline).1 ⟨hd, hsame.symm⟩
  exact ⟨line, hline, quotes_of_noted hnoted⟩

/-- A diagnostic of a document stands at its own line of the text. It quotes that line trimmed if
the line cannot be read, and else the rule that was read from it. -/
theorem RuleSet.quotes_of_mem_diagnostics_compile {text : String} {d : Diagnostic}
    (hd : d ∈ (RuleSet.compile text).diagnostics) :
    ∃ line ∈ (Document.parse text).ruleLines, d.Quotes line ∧ 1 ≤ d.line ∧
      (splitLines text.toList)[d.line - 1]? = some line.chars ∧
      (d.text = String.ofList (trim line.chars) ↔
        ∀ rule, line.parse = .ok rule → rule.text = String.ofList (trim line.chars)) := by
  have hsorted : (Document.parse text).ruleLines.Pairwise fun a b => a.number < b.number :=
    (Line.ofText_pairwise text).sublist (Document.ruleLines_sublist text)
  unfold compile ofDocument Entry.ofDocument at hd
  rw [readRuleLines_eq] at hd
  obtain ⟨line, hline, hquotes⟩ := exists_quotes_of_mem (hsorted.filter _) hd
  have hmem := List.mem_of_mem_filter hline
  refine ⟨line, hmem, hquotes, ?_⟩
  rw [hquotes.line_eq, hquotes.text_eq]
  obtain ⟨hpos, hchars⟩ :=
    Line.getElem?_splitLines_of_mem ((Document.ruleLines_sublist text).mem hmem)
  exact ⟨hpos, hchars, line.quoted_eq_trimmed_iff⟩

/-- A line that is no rule and a rule below a fallback. -/
theorem RuleSet.quotes_of_mem_diagnostics_compile_of_two_lines :
    let text := "[RULES]\nRETURN SMALL\n  if x  then \n return BIG"
    let malformed : Diagnostic :=
      ⟨3, "if x  then", .skipped ⟨some 5, "invalid condition; expected comparison"⟩⟩
    let unreachable : Diagnostic := ⟨4, "RETURN BIG", .unreachable 2⟩
    (malformed ∈ (RuleSet.compile text).diagnostics ∧
        ∃ line ∈ (Document.parse text).ruleLines, malformed.Quotes line) ∧
      unreachable ∈ (RuleSet.compile text).diagnostics ∧
        ∃ line ∈ (Document.parse text).ruleLines, unreachable.Quotes line := by
  intro text malformed unreachable
  have hmalformed : malformed ∈ (RuleSet.compile text).diagnostics := by decide +kernel
  have hunreachable : unreachable ∈ (RuleSet.compile text).diagnostics := by decide +kernel
  obtain ⟨line, hline, hquotes, -⟩ := quotes_of_mem_diagnostics_compile hmalformed
  obtain ⟨other, hother, hquotes', -⟩ := quotes_of_mem_diagnostics_compile hunreachable
  exact ⟨⟨hmalformed, line, hline, hquotes⟩, hunreachable, other, hother, hquotes'⟩

/-- Rules in another spelling are not quoted as they stand in the text. A rule with a connective
is even quoted as a line that is no rule. -/
theorem RuleSet.diagnostics_compile_ne_trimmed :
    let text := "return  SMALL\nreturn  BIG\nIF x == 1 OR x == 2 THEN RETURN PLATINUM"
    let found := (RuleSet.compile text).diagnostics
    found.map Diagnostic.line = [2, 3] ∧
      found.map Diagnostic.text =
        ["RETURN BIG", "IF (x == 1 OR x == 2) THEN RETURN PLATINUM"] ∧
      found.map Diagnostic.isUnreachable = [true, false] ∧
      (Rule.parse "IF (x == 1 OR x == 2) THEN RETURN PLATINUM").toOption = none ∧
      ∀ d ∈ found, ∀ chars ∈ (splitLines text.toList)[d.line - 1]?,
        d.text ≠ String.ofList (trim chars) := by
  decide +kernel

end Retention
