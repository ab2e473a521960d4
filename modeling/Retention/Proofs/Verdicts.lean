import Retention.RuleSet

/-!
# What becomes of each entry

The verdict on an entry depends on the entry itself and on the first fallback with a known
label above it. The rules that run are the rules with known labels, through the first fallback.
-/

namespace Retention

/-! ## One entry -/

/-- The line of an entry that ends the rules: a fallback whose label the policy knows. -/
def Entry.returnLine? (policy : Policy) : Entry → Option Nat
  | .rule placed => if policy.knows placed.label ∧ placed.isFallback then some placed.line else none
  | .malformed _ => none

theorem returnLine?_of_not_isFallback (policy : Policy) {placed : PlacedRule}
    (h : placed.isFallback = false) : Entry.returnLine? policy (.rule placed) = none :=
  if_neg fun hreturns => Bool.false_ne_true (h.symm.trans hreturns.2)

def verdict (policy : Policy) (above : Option Nat) : Entry → Verdict
  | .malformed bad => .noted (.ofMalformed bad)
  | .rule placed =>
    if policy.knows placed.label then
      match above with
      | some line => .noted (.unreachable placed line)
      | none => .runs placed
    else .noted (.undeclared placed)

def Verdict.line : Verdict → Nat
  | .runs placed => placed.line
  | .noted diagnostic => diagnostic.line

theorem verdict_line (policy : Policy) (above : Option Nat) (entry : Entry) :
    (verdict policy above entry).line = entry.line := by
  unfold verdict
  split
  · rfl
  · split
    · split <;> rfl
    · rfl

theorem above_of_unreachable {policy : Policy} {above : Option Nat} {entry : Entry}
    {d : Diagnostic} {n : Nat} (h : verdict policy above entry = .noted d)
    (hn : d.kind = .unreachable n) : above = some n := by
  unfold verdict at h
  split at h
  · cases h
    simp [Diagnostic.ofMalformed] at hn
  · split at h
    · split at h <;> cases h
      simpa [Diagnostic.unreachable] using hn
    · cases h
      simp [Diagnostic.undeclared] at hn

theorem verdicts_cons (policy : Policy) (above : Option Nat) (entry : Entry) (rest : List Entry) :
    verdicts policy above (entry :: rest) =
      verdict policy above entry :: verdicts policy (above.or (entry.returnLine? policy)) rest := by
  cases entry with
  | malformed bad => simp [verdicts, verdict, Entry.returnLine?]
  | rule placed =>
    by_cases hk : policy.knows placed.label
    · cases above with
      | some line => simp [verdicts, verdict, hk]
      | none => simp [verdicts, verdict, Entry.returnLine?, hk]
    · simp [verdicts, verdict, Entry.returnLine?, hk]

/-! ## All entries -/

theorem verdicts_lines (policy : Policy) (above : Option Nat) (entries : List Entry) :
    (verdicts policy above entries).map Verdict.line = entries.map Entry.line := by
  induction entries generalizing above with
  | nil => rfl
  | cons entry rest ih => rw [verdicts_cons, List.map_cons, List.map_cons, verdict_line, ih]

theorem verdicts_append (policy : Policy) (above : Option Nat) (before after : List Entry) :
    verdicts policy above (before ++ after) = verdicts policy above before ++
      verdicts policy (above.or (before.findSome? (Entry.returnLine? policy))) after := by
  induction before generalizing above with
  | nil => simp [verdicts]
  | cons entry rest ih =>
    rw [List.cons_append, verdicts_cons, verdicts_cons, ih, Option.or_assoc, List.findSome?_cons]
    cases entry.returnLine? policy <;> simp

theorem mem_verdicts_iff {policy : Policy} {above : Option Nat} {entries : List Entry}
    {v : Verdict} :
    v ∈ verdicts policy above entries ↔ ∃ before entry after, entries = before ++ entry :: after ∧
      v = verdict policy (above.or (before.findSome? (Entry.returnLine? policy))) entry := by
  constructor
  · intro hv
    induction entries generalizing above with
    | nil => simp [verdicts] at hv
    | cons entry rest ih =>
      rw [verdicts_cons, List.mem_cons] at hv
      rcases hv with rfl | hv
      · exact ⟨[], entry, rest, rfl, by simp⟩
      · obtain ⟨before, found, after, rfl, rfl⟩ := ih hv
        refine ⟨entry :: before, found, after, rfl, ?_⟩
        rw [Option.or_assoc, List.findSome?_cons]
        cases entry.returnLine? policy <;> rfl
  · rintro ⟨before, entry, after, rfl, rfl⟩
    rw [verdicts_append, verdicts_cons]
    simp

/-! ## Rules and diagnostics -/

theorem mem_rules_ofVerdicts {policy : Policy} {found : List Verdict} {placed : PlacedRule} :
    placed ∈ (RuleSet.ofVerdicts policy found).rules ↔ .runs placed ∈ found := by
  simp only [RuleSet.ofVerdicts, List.mem_filterMap]
  constructor
  · rintro ⟨v | _, hv, h⟩ <;> cases h
    exact hv
  · intro h
    exact ⟨_, h, rfl⟩

theorem mem_diagnostics_ofVerdicts {policy : Policy} {found : List Verdict}
    {diagnostic : Diagnostic} :
    diagnostic ∈ (RuleSet.ofVerdicts policy found).diagnostics ↔ .noted diagnostic ∈ found := by
  simp only [RuleSet.ofVerdicts, List.mem_filterMap]
  constructor
  · rintro ⟨_ | d, hd, h⟩ <;> cases h
    exact hd
  · intro h
    exact ⟨_, h, rfl⟩

@[simp] theorem ofVerdicts_nil (policy : Policy) :
    RuleSet.ofVerdicts policy [] = ⟨[], policy, []⟩ := rfl

@[simp] theorem ofVerdicts_runs (policy : Policy) (placed : PlacedRule) (rest : List Verdict) :
    RuleSet.ofVerdicts policy (.runs placed :: rest) =
      { RuleSet.ofVerdicts policy rest with
        rules := placed :: (RuleSet.ofVerdicts policy rest).rules } := rfl

@[simp] theorem ofVerdicts_noted (policy : Policy) (diagnostic : Diagnostic) (rest : List Verdict) :
    RuleSet.ofVerdicts policy (.noted diagnostic :: rest) =
      { RuleSet.ofVerdicts policy rest with
        diagnostics := diagnostic :: (RuleSet.ofVerdicts policy rest).diagnostics } := rfl

/-- The lines of the rules and the lines of the diagnostics together are the lines of the
verdicts. -/
theorem lines_ofVerdicts_perm (policy : Policy) (found : List Verdict) :
    ((RuleSet.ofVerdicts policy found).rules.map PlacedRule.line ++
      (RuleSet.ofVerdicts policy found).diagnostics.map Diagnostic.line).Perm
      (found.map Verdict.line) := by
  induction found with
  | nil => simp
  | cons v rest ih =>
    cases v with
    | runs placed => simpa [Verdict.line] using ih
    | noted d => simpa [Verdict.line] using List.perm_middle.trans (ih.cons d.line)

theorem rules_lines_sublist (policy : Policy) (found : List Verdict) :
    ((RuleSet.ofVerdicts policy found).rules.map PlacedRule.line).Sublist
      (found.map Verdict.line) := by
  induction found with
  | nil => simp
  | cons v rest ih =>
    cases v with
    | runs placed => exact ih.cons_cons _
    | noted d => exact ih.cons _

theorem diagnostics_lines_sublist (policy : Policy) (found : List Verdict) :
    ((RuleSet.ofVerdicts policy found).diagnostics.map Diagnostic.line).Sublist
      (found.map Verdict.line) := by
  induction found with
  | nil => simp
  | cons v rest ih =>
    cases v with
    | runs placed => exact ih.cons _
    | noted d => exact ih.cons_cons _

/-- Where every label is known and nothing stands below a fallback, every rule runs and only the
lines that are no rules leave diagnostics. -/
theorem ofEntries_of_pairwise {policy : Policy} {entries : List Entry}
    (hknown : ∀ placed, .rule placed ∈ entries → policy.knows placed.label)
    (h : entries.Pairwise fun above _ => above.returnLine? policy = none) :
    RuleSet.ofEntries policy entries =
      ⟨entries.filterMap Entry.rule?, policy, entries.filterMap Entry.diagnostic?⟩ := by
  unfold RuleSet.ofEntries
  induction entries with
  | nil => rfl
  | cons entry rest ih =>
    rw [List.pairwise_cons] at h
    have hrest := ih (fun placed hplaced => hknown placed (List.mem_cons_of_mem entry hplaced)) h.2
    have hbelow : verdicts policy (none.or (entry.returnLine? policy)) rest =
        verdicts policy none rest := by
      cases rest with
      | nil => rfl
      | cons next rest => rw [h.1 next List.mem_cons_self, Option.none_or]
    rw [verdicts_cons, hbelow]
    cases entry with
    | malformed bad => rw [verdict, ofVerdicts_noted, hrest]; rfl
    | rule placed =>
      rw [verdict, if_pos (hknown placed List.mem_cons_self), ofVerdicts_runs, hrest]
      rfl

/-! ## Through the first fallback -/

/-- The rules through the first fallback among them. -/
def throughFallback : List PlacedRule → List PlacedRule
  | [] => []
  | placed :: rest => if placed.isFallback then [placed] else placed :: throughFallback rest

theorem throughFallback_append {before : List PlacedRule}
    (h : ∀ placed ∈ before, placed.isFallback = false) (after : List PlacedRule) :
    throughFallback (before ++ after) = before ++ throughFallback after := by
  induction before with
  | nil => rfl
  | cons placed rest ih =>
    rw [List.forall_mem_cons] at h
    rw [List.cons_append, throughFallback, h.1, ih h.2]
    rfl

theorem throughFallback_eq_take (rules : List PlacedRule) :
    throughFallback rules = rules.take (rules.findIdx PlacedRule.isFallback + 1) := by
  induction rules with
  | nil => rfl
  | cons placed rest ih =>
    rw [throughFallback, List.findIdx_cons, ih]
    cases placed.isFallback <;> rfl

theorem throughFallback_sublist (rules : List PlacedRule) :
    (throughFallback rules).Sublist rules := by
  rw [throughFallback_eq_take]
  exact List.take_sublist _ _

theorem throughFallback_pairwise (rules : List PlacedRule) :
    (throughFallback rules).Pairwise fun above _ => above.isFallback = false := by
  induction rules with
  | nil => exact List.Pairwise.nil
  | cons placed rest ih =>
    unfold throughFallback
    split
    · exact List.pairwise_singleton _ _
    · rename_i hf
      rw [List.pairwise_cons]
      exact ⟨fun _ _ => Bool.eq_false_iff.2 hf, ih⟩

/-- A fallback among them is the last one. -/
theorem eq_nil_of_throughFallback {rules before after : List PlacedRule} {placed : PlacedRule}
    (h : throughFallback rules = before ++ placed :: after) (hp : placed.isFallback) :
    after = [] := by
  have hpairwise := throughFallback_pairwise rules
  rw [h, List.pairwise_append, List.pairwise_cons] at hpairwise
  cases after with
  | nil => rfl
  | cons next after =>
    have hnot := hpairwise.2.1.1 next List.mem_cons_self
    rw [hp] at hnot
    cases hnot

/-- The rules of some entries whose labels a policy knows. -/
def knownRules (policy : Policy) (entries : List Entry) : List PlacedRule :=
  (entries.filterMap Entry.rule?).filter fun placed => policy.knows placed.label

theorem rules_verdicts_of_some (policy : Policy) (line : Nat) (entries : List Entry) :
    (RuleSet.ofVerdicts policy (verdicts policy (some line) entries)).rules = [] := by
  induction entries with
  | nil => rfl
  | cons entry rest ih =>
    rw [verdicts_cons, Option.some_or]
    cases entry with
    | malformed bad => simpa [verdict] using ih
    | rule placed => by_cases hk : policy.knows placed.label <;> simpa [verdict, hk] using ih

theorem knownRules_malformed (policy : Policy) (bad : MalformedLine) (rest : List Entry) :
    knownRules policy (.malformed bad :: rest) = knownRules policy rest := rfl

theorem knownRules_rule (policy : Policy) (placed : PlacedRule) (rest : List Entry) :
    knownRules policy (.rule placed :: rest) =
      if policy.knows placed.label then placed :: knownRules policy rest
      else knownRules policy rest := by
  simp only [knownRules, Entry.rule?, List.filterMap_cons, List.filter_cons]

theorem rules_ofEntries (policy : Policy) (entries : List Entry) :
    (RuleSet.ofEntries policy entries).rules = throughFallback (knownRules policy entries) := by
  unfold RuleSet.ofEntries
  induction entries with
  | nil => rfl
  | cons entry rest ih =>
    rw [verdicts_cons, Option.none_or]
    cases entry with
    | malformed bad => rw [knownRules_malformed, ← ih]; rfl
    | rule placed =>
      rw [knownRules_rule]
      by_cases hk : policy.knows placed.label
      · by_cases hf : placed.isFallback
        · simp [verdict, hk, Entry.returnLine?, hf, throughFallback, rules_verdicts_of_some]
        · simp [verdict, hk, Entry.returnLine?, hf, throughFallback, ih]
      · simp [verdict, hk, Entry.returnLine?, ih]

/-- A first fallback is the last rule that runs. -/
theorem getLast?_rules_of_return {policy : Policy} {entries : List Entry} {line : Nat}
    (h : entries.findSome? (Entry.returnLine? policy) = some line) :
    ∃ placed, (RuleSet.ofEntries policy entries).rules.getLast? = some placed ∧
      placed.isFallback ∧ placed.line = line := by
  rw [List.findSome?_eq_some_iff] at h
  obtain ⟨before, entry, after, rfl, hentry, hbefore⟩ := h
  rcases entry with placed | bad
  · simp only [Entry.returnLine?, Option.ite_none_right_eq_some, Option.some.injEq] at hentry
    obtain ⟨⟨hk, hf⟩, rfl⟩ := hentry
    refine ⟨placed, ?_, hf, rfl⟩
    have hnone : ∀ x ∈ knownRules policy before, x.isFallback = false := by
      intro x hx
      simp only [knownRules, List.mem_filter, List.mem_filterMap] at hx
      obtain ⟨⟨e, he, hex⟩, hkx⟩ := hx
      have hline := hbefore e he
      cases e with
      | malformed _ => simp [Entry.rule?] at hex
      | rule y =>
        simp only [Entry.rule?, Option.some.injEq] at hex
        subst hex
        simpa [Entry.returnLine?, hkx] using hline
    have hsplit : knownRules policy (before ++ Entry.rule placed :: after) =
        knownRules policy before ++ placed :: knownRules policy after := by
      simp [knownRules, Entry.rule?, hk]
    rw [rules_ofEntries, hsplit, throughFallback_append hnone, throughFallback, if_pos hf]
    simp
  · simp [Entry.returnLine?] at hentry

end Retention
