import Mathlib.Data.List.Nodup
import Retention.Proofs.Grammar.Rules
import Retention.Proofs.Lines
import Retention.Proofs.Verdicts

/-!
# Every line is accounted for

Each line of a rule text that is neither blank nor a comment becomes one rule that runs or one
diagnostic. Which of them it becomes depends on the line and on the fallbacks above it.
-/

namespace Retention

/-! ## Lines that hold something -/

namespace Line

/-- Neither blank nor a comment, once it is trimmed. -/
def holdsRule (line : Line) : Bool := ¬ (line.trimmed = [] ∨ isComment line.trimmed)

/-- What the grammar makes of the trimmed line. -/
def parse (line : Line) : Except ParseError Rule := Rule.parse (String.ofList line.trimmed)

/-- A bare RETURN of a label that the policy knows. -/
def isReturn (policy : Policy) (line : Line) : Prop :=
  ∃ label, line.parse = .ok (.fallback label) ∧ policy.knows label

/-- A line that is blank or a comment is refused by the grammar. -/
theorem holdsRule_of_parse {line : Line} {rule : Rule} (h : line.parse = .ok rule) :
    line.holdsRule := by
  have hstart := startsWith_isWordStart_of_spellsRule (Rule.parse_eq_ok_iff.1 h)
  rw [String.toList_ofList] at hstart
  refine decide_eq_true ?_
  rintro (hblank | hcomment)
  · rw [hblank] at hstart
    cases hstart
  · obtain ⟨note, hnote⟩ := List.isPrefixOf_iff_prefix.1 hcomment
    rw [← hnote] at hstart
    cases hstart

def entry (line : Line) : Entry := readRuleText line.number (String.ofList line.trimmed)

theorem entry_of_ok {line : Line} {rule : Rule} (h : line.parse = .ok rule) :
    line.entry = .rule ⟨rule, line.number⟩ := by
  unfold parse at h
  delta entry readRuleText
  rw [h]

theorem entry_of_error {line : Line} {reason : ParseError} (h : line.parse = .error reason) :
    line.entry = .malformed ⟨line.number, String.ofList line.trimmed, reason⟩ := by
  unfold parse at h
  delta entry readRuleText
  rw [h]

theorem entry_line (line : Line) : line.entry.line = line.number := by
  cases h : line.parse with
  | ok rule => rw [entry_of_ok h]; rfl
  | error reason => rw [entry_of_error h]; rfl

theorem returnLine?_entry_eq_some_iff {policy : Policy} {line : Line} {n : Nat} :
    line.entry.returnLine? policy = some n ↔ line.number = n ∧ line.isReturn policy := by
  unfold isReturn
  cases h : line.parse with
  | error reason => simp [entry_of_error h, Entry.returnLine?]
  | ok rule =>
    rw [entry_of_ok h]
    cases rule with
    | conditional c label => simp [Entry.returnLine?, PlacedRule.isFallback, Rule.isFallback]
    | fallback label =>
      simp [Entry.returnLine?, PlacedRule.isFallback, Rule.isFallback, PlacedRule.label, Rule.label,
        and_comm]

/-- A line that cannot be read is refused at a column. -/
theorem column_of_error {line : Line} {reason : ParseError} (h : line.parse = .error reason) :
    reason.column.isSome := by
  unfold parse Rule.parse at h
  split at h <;> cases h
  rfl

end Line

theorem readRuleLines_eq (lines : List Line) :
    readRuleLines lines = (lines.filter Line.holdsRule).map Line.entry := by
  induction lines with
  | nil => rfl
  | cons line rest ih =>
    rw [readRuleLines] at ih
    rw [readRuleLines, List.filterMap_cons, List.filter_cons]
    by_cases h : line.trimmed = [] ∨ isComment line.trimmed
    · have hno : line.holdsRule = false := decide_eq_false (not_not_intro h)
      rw [readRuleLine?, if_pos h, ih, hno]
      rfl
    · have hyes : line.holdsRule = true := decide_eq_true h
      rw [readRuleLine?, if_neg h, ih, hyes]
      rfl

/-! ## The first fallback above a line -/

def returnAbove? (policy : Policy) (lines : List Line) (line : Line) : Option Nat :=
  (lines.filter (·.number < line.number)).findSome? fun above => above.entry.returnLine? policy

theorem returnAbove?_eq_none_iff {policy : Policy} {lines : List Line} {line : Line} :
    returnAbove? policy lines line = none ↔
      ∀ above ∈ lines, above.number < line.number → ¬ above.isReturn policy := by
  simp only [returnAbove?, List.findSome?_eq_none_iff, List.mem_filter, decide_eq_true_eq, and_imp]
  refine forall_congr' fun above => forall_congr' fun _ => forall_congr' fun _ => ?_
  rw [Option.eq_none_iff_forall_ne_some]
  constructor
  · intro h hr
    exact h above.number (Line.returnLine?_entry_eq_some_iff.2 ⟨rfl, hr⟩)
  · intro h n hn
    exact h (Line.returnLine?_entry_eq_some_iff.1 hn).2

/-- The line that returns first is above the given line, and no other returns before it. -/
def IsFirstReturn (policy : Policy) (lines : List Line) (line : Line) (n : Nat) : Prop :=
  n < line.number ∧ (∃ first ∈ lines, first.number = n ∧ first.isReturn policy) ∧
    ∀ other ∈ lines, other.isReturn policy → n ≤ other.number

theorem isFirstReturn_of_returnAbove? {policy : Policy} {lines : List Line} {line : Line} {n : Nat}
    (hlines : lines.Pairwise fun a b => a.number < b.number)
    (h : returnAbove? policy lines line = some n) : IsFirstReturn policy lines line n := by
  rw [returnAbove?, List.findSome?_eq_some_iff] at h
  obtain ⟨before, first, after, hsplit, hfirst, hbefore⟩ := h
  rw [Line.returnLine?_entry_eq_some_iff] at hfirst
  obtain ⟨rfl, hreturn⟩ := hfirst
  have hmem : first ∈ lines.filter (·.number < line.number) := by rw [hsplit]; simp
  rw [List.mem_filter, decide_eq_true_eq] at hmem
  refine ⟨hmem.2, ⟨first, hmem.1, rfl, hreturn⟩, ?_⟩
  intro other hother hr
  by_cases hlt : other.number < line.number
  · have ho : other ∈ lines.filter (·.number < line.number) :=
      List.mem_filter.2 ⟨hother, by simpa using hlt⟩
    have hsorted := hlines.filter (fun l => decide (l.number < line.number))
    rw [hsplit] at ho hsorted
    rw [List.pairwise_append, List.pairwise_cons] at hsorted
    rw [List.mem_append, List.mem_cons] at ho
    rcases ho with ho | rfl | ho
    · have hnone := hbefore other ho
      rw [Line.returnLine?_entry_eq_some_iff.2 ⟨rfl, hr⟩] at hnone
      simp at hnone
    · exact Nat.le_refl _
    · exact Nat.le_of_lt (hsorted.2.1.1 other ho)
  · have := hmem.2
    omega

theorem returnAbove?_eq_some_iff {policy : Policy} {lines : List Line} {line : Line} {n : Nat}
    (hlines : lines.Pairwise fun a b => a.number < b.number) :
    returnAbove? policy lines line = some n ↔ IsFirstReturn policy lines line n := by
  constructor
  · exact isFirstReturn_of_returnAbove? hlines
  · rintro ⟨hlt, ⟨first, hfirst, rfl, hr⟩, hleast⟩
    cases h : returnAbove? policy lines line with
    | none => exact absurd hr (returnAbove?_eq_none_iff.1 h first hfirst hlt)
    | some m =>
      obtain ⟨-, ⟨other, hother, rfl, hr'⟩, hleast'⟩ := isFirstReturn_of_returnAbove? hlines h
      have h1 := hleast other hother hr'
      have h2 := hleast' first hfirst hr
      rw [Nat.le_antisymm h2 h1]

/-! ## The verdict on a line -/

/-- On sorted lines the lines of a smaller number are those that stand before. -/
theorem filter_number_lt {before after : List Line} {line : Line}
    (h : (before ++ line :: after).Pairwise fun a b => a.number < b.number) :
    (before ++ line :: after).filter (·.number < line.number) = before := by
  rw [List.pairwise_append, List.pairwise_cons] at h
  have hbefore : ∀ x ∈ before, decide (x.number < line.number) = true := fun x hx =>
    decide_eq_true (h.2.2 x hx line List.mem_cons_self)
  have hafter : ∀ x ∈ line :: after, ¬ decide (x.number < line.number) = true := by
    intro x hx
    rcases List.mem_cons.1 hx with rfl | hx
    · simp
    · simpa using Nat.le_of_lt (h.2.1.1 x hx)
  rw [List.filter_append, List.filter_eq_self.2 hbefore, List.filter_eq_nil_iff.2 hafter,
    List.append_nil]

theorem verdict_mem_verdicts {policy : Policy} {lines : List Line} {line : Line}
    (hlines : lines.Pairwise fun a b => a.number < b.number) (hline : line ∈ lines) :
    verdict policy (returnAbove? policy lines line) line.entry ∈
      verdicts policy none (lines.map Line.entry) := by
  obtain ⟨before, after, rfl⟩ := List.append_of_mem hline
  refine mem_verdicts_iff.2 ⟨before.map Line.entry, line.entry, after.map Line.entry, by simp, ?_⟩
  rw [returnAbove?, filter_number_lt hlines, Option.none_or, List.findSome?_map,
    Function.comp_def]

theorem verdicts_numbers (policy : Policy) (lines : List Line) :
    (verdicts policy none (lines.map Line.entry)).map Verdict.line = lines.map Line.number := by
  rw [verdicts_lines, List.map_map]
  exact congrArg (lines.map ·) (funext Line.entry_line)

/-- The verdicts on sorted lines hold one verdict for each line, and it depends on the line and
the first fallback above it. -/
theorem mem_verdicts_entries_iff {policy : Policy} {lines : List Line} {line : Line} {v : Verdict}
    (hlines : lines.Pairwise fun a b => a.number < b.number) (hline : line ∈ lines) :
    (v ∈ verdicts policy none (lines.map Line.entry) ∧ v.line = line.number) ↔
      v = verdict policy (returnAbove? policy lines line) line.entry := by
  have hmem : verdict policy _ _ ∈ _ := verdict_mem_verdicts hlines hline
  have hnodup : ((verdicts policy none (lines.map Line.entry)).map Verdict.line).Nodup := by
    rw [verdicts_numbers, List.nodup_iff_pairwise_ne, List.pairwise_map]
    exact hlines.imp Nat.ne_of_lt
  constructor
  · rintro ⟨hv, hn⟩
    refine List.inj_on_of_nodup_map hnodup hv hmem ?_
    rw [hn, verdict_line, Line.entry_line]
  · intro h
    rw [h, verdict_line, Line.entry_line]
    exact ⟨hmem, rfl⟩

/-! ## The account -/

/-- How a rule set accounts for the lines that hold something. -/
structure Accounts (policy : Policy) (lines : List Line) (set : RuleSet) : Prop where
  policy_eq : set.policy = policy
  /-- Each number of a line stands at one rule or at one diagnostic, and no other number does. -/
  once : (set.rules.map PlacedRule.line ++ set.diagnostics.map Diagnostic.line).Perm
    (lines.map Line.number)
  rules_increase : (set.rules.map PlacedRule.line).Pairwise (· < ·)
  diagnostics_increase : (set.diagnostics.map Diagnostic.line).Pairwise (· < ·)
  runs_iff : ∀ line ∈ lines, ∀ rule, ⟨rule, line.number⟩ ∈ set.rules ↔
    line.parse = .ok rule ∧ policy.knows rule.label ∧
      ∀ above ∈ lines, above.number < line.number → ¬ above.isReturn policy
  unreachable_iff : ∀ line ∈ lines, ∀ n,
    (∃ d ∈ set.diagnostics, d.line = line.number ∧ d.kind = .unreachable n) ↔
      (∃ rule, line.parse = .ok rule ∧ policy.knows rule.label) ∧ IsFirstReturn policy lines line n
  malformed_iff : ∀ line ∈ lines, ∀ reason : ParseError,
    (∃ d ∈ set.diagnostics, d.line = line.number ∧ d.kind = .skipped reason ∧
      reason.column.isSome) ↔ line.parse = .error reason
  undeclared_iff : ∀ line ∈ lines,
    (∃ d ∈ set.diagnostics, d.line = line.number ∧ ∃ reason, d.kind = .skipped reason ∧
      reason.column = none) ↔ ∃ rule, line.parse = .ok rule ∧ ¬ policy.knows rule.label
  /-- The fallback that hides other rules is the last rule that runs. -/
  return_last : ∀ d ∈ set.diagnostics, ∀ n, d.kind = .unreachable n →
    ∃ placed, set.rules.getLast? = some placed ∧ placed.isFallback ∧ placed.line = n
  /-- A fallback that runs is the last rule, so there is at most one. -/
  fallback_last : ∀ before placed after, set.rules = before ++ placed :: after →
    placed.isFallback → after = []

section Fields

variable {policy : Policy} {lines : List Line} {line : Line}

theorem mem_rules_entries_iff {placed : PlacedRule}
    (hlines : lines.Pairwise fun a b => a.number < b.number) (hline : line ∈ lines) :
    (placed ∈ (RuleSet.ofEntries policy (lines.map Line.entry)).rules ∧
      placed.line = line.number) ↔
      .runs placed = verdict policy (returnAbove? policy lines line) line.entry := by
  rw [RuleSet.ofEntries, mem_rules_ofVerdicts]
  exact mem_verdicts_entries_iff hlines hline

theorem mem_diagnostics_entries_iff {d : Diagnostic}
    (hlines : lines.Pairwise fun a b => a.number < b.number) (hline : line ∈ lines) :
    (d ∈ (RuleSet.ofEntries policy (lines.map Line.entry)).diagnostics ∧ d.line = line.number) ↔
      .noted d = verdict policy (returnAbove? policy lines line) line.entry := by
  rw [RuleSet.ofEntries, mem_diagnostics_ofVerdicts]
  exact mem_verdicts_entries_iff hlines hline

/-- The four things that can become of a line. -/
theorem verdict_entry_cases (policy : Policy) (above : Option Nat) (line : Line) :
    (∃ reason, line.parse = .error reason ∧ verdict policy above line.entry =
      .noted ⟨line.number, String.ofList line.trimmed, .skipped reason⟩) ∨
    (∃ rule, line.parse = .ok rule ∧ policy.knows rule.label = false ∧
      verdict policy above line.entry = .noted (.undeclared ⟨rule, line.number⟩)) ∨
    (∃ rule, line.parse = .ok rule ∧ policy.knows rule.label ∧ above = none ∧
      verdict policy above line.entry = .runs ⟨rule, line.number⟩) ∨
    (∃ rule n, line.parse = .ok rule ∧ policy.knows rule.label ∧ above = some n ∧
      verdict policy above line.entry = .noted (.unreachable ⟨rule, line.number⟩ n)) := by
  cases h : line.parse with
  | error reason => exact .inl ⟨reason, rfl, by rw [Line.entry_of_error h]; rfl⟩
  | ok rule =>
    rw [Line.entry_of_ok h]
    cases hk : policy.knows rule.label with
    | false => exact .inr (.inl ⟨rule, rfl, hk, by simp [verdict, PlacedRule.label, hk]⟩)
    | true =>
      cases above with
      | none =>
        exact .inr (.inr (.inl ⟨rule, rfl, hk, rfl, by simp [verdict, PlacedRule.label, hk]⟩))
      | some n =>
        exact .inr (.inr (.inr ⟨rule, n, rfl, hk, rfl, by simp [verdict, PlacedRule.label, hk]⟩))

theorem runs_eq_verdict_iff {above : Option Nat} {rule : Rule} :
    .runs ⟨rule, line.number⟩ = verdict policy above line.entry ↔
      line.parse = .ok rule ∧ policy.knows rule.label ∧ above = none := by
  rcases verdict_entry_cases policy above line with ⟨_, h, hv⟩ | ⟨found, h, hk, hv⟩ |
    ⟨found, h, hk, rfl, hv⟩ | ⟨found, n, h, hk, rfl, hv⟩
  · simp [h, hv]
  · rw [h, hv]
    simp only [reduceCtorEq, Except.ok.injEq, false_iff, not_and]
    rintro rfl hk'
    exact absurd hk' (by simp [hk])
  · rw [h, hv]
    simp only [Verdict.runs.injEq, PlacedRule.mk.injEq, and_true, Except.ok.injEq]
    constructor
    · rintro rfl
      exact ⟨rfl, hk⟩
    · rintro ⟨rfl, -⟩
      rfl
  · simp [h, hv]

theorem noted_unreachable_iff {above : Option Nat} {n : Nat} :
    (∃ d, .noted d = verdict policy above line.entry ∧ d.kind = .unreachable n) ↔
      (∃ rule, line.parse = .ok rule ∧ policy.knows rule.label) ∧ above = some n := by
  rcases verdict_entry_cases policy above line with ⟨_, h, hv⟩ | ⟨found, h, hk, hv⟩ |
    ⟨found, h, hk, rfl, hv⟩ | ⟨found, m, h, hk, rfl, hv⟩
  · simp [h, hv]
  · simp [h, hv, hk, Diagnostic.undeclared]
  · simp [h, hv]
  · simp [h, hv, hk, Diagnostic.unreachable]

theorem noted_malformed_iff {above : Option Nat} {reason : ParseError} :
    (∃ d, .noted d = verdict policy above line.entry ∧ d.kind = .skipped reason ∧
      reason.column.isSome) ↔ line.parse = .error reason := by
  rcases verdict_entry_cases policy above line with ⟨found, h, hv⟩ | ⟨found, h, hk, hv⟩ |
    ⟨found, h, hk, rfl, hv⟩ | ⟨found, m, h, hk, rfl, hv⟩
  · rw [h, hv]
    simp only [Verdict.noted.injEq, exists_eq_left, DiagnosticKind.skipped.injEq,
      Except.error.injEq]
    constructor
    · rintro ⟨rfl, -⟩
      rfl
    · rintro rfl
      exact ⟨rfl, Line.column_of_error h⟩
  · rw [h, hv]
    simp only [Verdict.noted.injEq, exists_eq_left, Diagnostic.undeclared,
      DiagnosticKind.skipped.injEq, reduceCtorEq, iff_false, not_and]
    rintro rfl
    simp
  · simp [h, hv]
  · simp [h, hv, Diagnostic.unreachable]

theorem noted_undeclared_iff {above : Option Nat} :
    (∃ d, .noted d = verdict policy above line.entry ∧ ∃ reason, d.kind = .skipped reason ∧
      reason.column = none) ↔ ∃ rule, line.parse = .ok rule ∧ ¬ policy.knows rule.label := by
  rcases verdict_entry_cases policy above line with ⟨found, h, hv⟩ | ⟨found, h, hk, hv⟩ |
    ⟨found, h, hk, rfl, hv⟩ | ⟨found, m, h, hk, rfl, hv⟩
  · have hcolumn := Line.column_of_error h
    simp only [h, hv, Verdict.noted.injEq, exists_eq_left, DiagnosticKind.skipped.injEq,
      exists_eq_left', reduceCtorEq, false_and, exists_false, iff_false]
    intro hnone
    simp [hnone] at hcolumn
  · simp [h, hv, hk, Diagnostic.undeclared]
  · simp [h, hv, hk]
  · simp [h, hv, hk, Diagnostic.unreachable]

end Fields

theorem accounts_entries (policy : Policy) {lines : List Line}
    (hlines : lines.Pairwise fun a b => a.number < b.number) :
    Accounts policy lines (RuleSet.ofEntries policy (lines.map Line.entry)) := by
  have hnumbers := verdicts_numbers policy lines
  have hincrease : (lines.map Line.number).Pairwise (· < ·) := List.pairwise_map.2 hlines
  constructor
  · rfl
  · rw [← hnumbers]
    exact lines_ofVerdicts_perm policy _
  · exact (hnumbers ▸ hincrease).sublist (rules_lines_sublist policy _)
  · exact (hnumbers ▸ hincrease).sublist (diagnostics_lines_sublist policy _)
  · intro line hline rule
    have h : _ ↔ .runs ⟨rule, line.number⟩ = verdict policy _ _ :=
      mem_rules_entries_iff hlines hline
    rw [runs_eq_verdict_iff, returnAbove?_eq_none_iff] at h
    simpa using h
  · intro line hline n
    rw [← returnAbove?_eq_some_iff hlines]
    exact (exists_congr fun d => by
      rw [← and_assoc, mem_diagnostics_entries_iff hlines hline]).trans noted_unreachable_iff
  · intro line hline reason
    exact (exists_congr fun d => by
      rw [← and_assoc, mem_diagnostics_entries_iff hlines hline]).trans noted_malformed_iff
  · intro line hline
    exact (exists_congr fun d => by
      rw [← and_assoc, mem_diagnostics_entries_iff hlines hline]).trans noted_undeclared_iff
  · intro d hd n hn
    rw [RuleSet.ofEntries, mem_diagnostics_ofVerdicts, mem_verdicts_iff] at hd
    obtain ⟨before, entry, after, hsplit, hd⟩ := hd
    have habove := above_of_unreachable hd.symm hn
    rw [Option.none_or] at habove
    refine getLast?_rules_of_return ?_
    rw [hsplit, List.findSome?_append, habove]
    rfl
  · intro before placed after h hp
    rw [rules_ofEntries] at h
    exact eq_nil_of_throughFallback h hp

/-- No rule line is lost, counted twice or misclassified. Lines are numbered from one. -/
theorem accounts_ofRuleText (text : String) (policy : Policy) :
    (∀ i : Nat, (Line.ofText text)[i]? =
      (splitLines text.toList)[i]?.map fun chars => (⟨i + 1, String.ofList chars⟩ : Line)) ∧
    Accounts policy ((Line.ofText text).filter Line.holdsRule)
      (RuleSet.ofRuleText text policy) := by
  constructor
  · intro i
    rw [Line.ofText, Line.getElem?_numbered, Nat.add_comm]
  · rw [RuleSet.ofRuleText, Entry.ofRuleText, readRuleLines_eq]
    exact accounts_entries policy ((Line.ofText_pairwise text).filter _)

end Retention
