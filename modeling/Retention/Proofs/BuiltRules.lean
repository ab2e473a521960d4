import Retention.Proofs.DraftedRules
import Retention.Proofs.Grammar.Writable
import Retention.Proofs.Policy.Draft

/-!
# Rule text and built rules

Rules written one on a line compile to the rule set that is built from them in code.
-/

namespace Retention

/-! ## Rules on lines -/

/-- Some rules, one on a line. The last line may lack its end. -/
inductive WritesRules : List Rule → List Char → Prop
  | nil : WritesRules [] []
  | last {rule : Rule} {line : List Char} : WritesRule rule line → WritesRules [rule] line
  | cons {rule : Rule} {rules : List Rule} {line ending text : List Char} : WritesRule rule line →
    ending = ['\n'] ∨ ending = ['\r', '\n'] → WritesRules rules text →
    WritesRules (rule :: rules) (line ++ ending ++ text)

theorem splitLines_append_ending {rule : Rule} {line ending : List Char} (h : WritesRule rule line)
    (hending : ending = ['\n'] ∨ ending = ['\r', '\n']) (text : List Char) :
    splitLines (line ++ ending ++ text) = line :: splitLines text := by
  have hnewline := newline_notMem_of_writesRule h
  rw [List.append_assoc]
  rcases hending with rfl | rfl
  · exact splitLines_append_newline hnewline (getLast?_ne_return_of_writesRule h) text
  · exact splitLines_append_return hnewline text

theorem parse_of_writesRule {rule : Rule} {line : List Char} (h : WritesRule rule line)
    (number : Nat) : (Line.mk number (String.ofList line)).parse = .ok rule := by
  refine Rule.parse_eq_ok_iff.2 ?_
  rw [String.toList_ofList, Line.trimmed, Line.chars, String.toList_ofList]
  exact spellsRule_of_writesRule h

theorem readRuleLines_cons_of_parse {line : Line} {rule : Rule} (h : line.parse = .ok rule)
    (rest : List Line) :
    readRuleLines (line :: rest) = .rule ⟨rule, line.number⟩ :: readRuleLines rest := by
  rw [readRuleLines_eq, readRuleLines_eq, List.filter_cons_of_pos (Line.holdsRule_of_parse h),
    List.map_cons, Line.entry_of_ok h]

theorem readRuleLines_of_writesRules {rules : List Rule} {text : List Char}
    (h : WritesRules rules text) (start : Nat) :
    readRuleLines (Line.numbered start (splitLines text)) =
      (PlacedRule.numbered start rules).map Entry.rule := by
  induction h generalizing start with
  | nil => rfl
  | @last rule line h =>
    rw [splitLines_of_newline_notMem (ne_nil_of_writesRule h) (newline_notMem_of_writesRule h),
      Line.numbered, readRuleLines_cons_of_parse (parse_of_writesRule h start)]
    rfl
  | @cons rule rules line ending text h hending _ ih =>
    rw [splitLines_append_ending h hending, Line.numbered,
      readRuleLines_cons_of_parse (parse_of_writesRule h start), ih]
    rfl

theorem exists_rule_of_mem_splitLines {rules : List Rule} {text : List Char}
    (h : WritesRules rules text) {line : List Char} (hline : line ∈ splitLines text) :
    ∃ rule, WritesRule rule line := by
  induction h with
  | nil => cases hline
  | @last rule line' h =>
    rw [splitLines_of_newline_notMem (ne_nil_of_writesRule h) (newline_notMem_of_writesRule h),
      List.mem_singleton] at hline
    exact ⟨rule, hline ▸ h⟩
  | @cons rule rules line' ending text h hending _ ih =>
    rw [splitLines_append_ending h hending, List.mem_cons] at hline
    rcases hline with rfl | hline
    · exact ⟨rule, h⟩
    · exact ih hline

/-! ## The document of such lines -/

theorem document_of_writesRules {rules : List Rule} {text : String}
    (h : WritesRules rules text.toList) : Document.parse text = ⟨Line.ofText text, []⟩ := by
  refine Document.ofLines_of_no_headers fun line hline => ?_
  have hchars := (Line.getElem?_splitLines_of_mem hline).2
  obtain ⟨rule, hrule⟩ := exists_rule_of_mem_splitLines h (List.mem_of_getElem? hchars)
  exact headerName?_of_writesRule hrule

theorem compile_of_writesRules {rules : List Rule} {text : String}
    (h : WritesRules rules text.toList) : RuleSet.compile text =
      .ofEntries .standard ((PlacedRule.numbered 1 rules).map Entry.rule) := by
  unfold RuleSet.compile RuleSet.ofDocument
  rw [document_of_writesRules h, ← readRuleLines_of_writesRules h 1, ← policy_ofLines_nil]
  rfl

/-! ## Rules built in code -/

/-- Conditional rules, with a fallback after them if there is one. -/
def ruleList (whens : List (Condition × Label)) (otherwise : Option Label) : List Rule :=
  whens.map (fun (c, l) => .conditional c l) ++ (otherwise.map .fallback).toList

theorem ofSteps_rules (rules : List Rule) :
    RuleSetDraft.ofSteps (rules.map .rule) = ⟨.standard, rules⟩ := by
  have hpolicy : (rules.map RuleSetDraft.Step.rule).filterMap RuleSetDraft.Step.policy? = [] := by
    rw [List.filterMap_map, List.filterMap_eq_nil_iff]
    exact fun _ _ => rfl
  have hrules : (rules.map RuleSetDraft.Step.rule).filterMap RuleSetDraft.Step.rule? = rules := by
    rw [List.filterMap_map]
    exact List.filterMap_some
  rw [RuleSetDraft.ofSteps_eq, RuleSetDraft.lastPolicy, RuleSetDraft.addedRules, hpolicy, hrules]
  rfl

theorem build_of_known {rules : List Rule}
    (h : ∀ rule ∈ rules, Policy.standard.knows rule.label) :
    (RuleSetDraft.ofSteps (rules.map .rule)).build =
      .ok (.ofEntries .standard ((PlacedRule.numbered 1 rules).map Entry.rule)) := by
  rw [ofSteps_rules, RuleSetDraft.build, RuleSet.ofRules, unknownLabel?_eq_none_iff.2 h]

theorem length_le_fallbackPosition (whens : List (Condition × Label))
    (otherwise : Option Label) :
    (ruleList whens otherwise).length ≤ fallbackPosition (ruleList whens otherwise) := by
  induction whens with
  | nil => cases otherwise <;> simp [ruleList, fallbackPosition]
  | cons w whens ih =>
    have hcons : ruleList (w :: whens) otherwise =
        .conditional w.1 w.2 :: ruleList whens otherwise := rfl
    unfold fallbackPosition at ih ⊢
    rw [hcons, List.length_cons, List.findIdx_cons]
    simpa [Rule.isFallback] using ih

/-- Rules with known labels and nothing below a fallback leave no diagnostic. -/
theorem diagnostics_ofEntries_ruleList {policy : Policy} {whens : List (Condition × Label)}
    {otherwise : Option Label} (h : ∀ rule ∈ ruleList whens otherwise, policy.knows rule.label)
    (start : Nat) :
    (RuleSet.ofEntries policy
      ((PlacedRule.numbered start (ruleList whens otherwise)).map Entry.rule)).diagnostics =
        [] := by
  rw [diagnostics_ofEntries h, List.drop_eq_nil_of_le]
  · rfl
  · rw [length_numbered]
    exact length_le_fallbackPosition whens otherwise

/-! ## Text and code -/

theorem knows_of_isWritable {rule : Rule} (h : rule.isWritable) :
    Policy.standard.knows rule.label := by
  cases rule with
  | conditional c l =>
    simp only [Rule.isWritable, Bool.and_eq_true] at h
    exact h.2
  | fallback l => exact h

theorem exists_writesRules {rules : List Rule} (h : ∀ rule ∈ rules, rule.isWritable) :
    ∃ text, WritesRules rules text := by
  induction rules with
  | nil => exact ⟨[], .nil⟩
  | cons rule rules ih =>
    rw [List.forall_mem_cons] at h
    obtain ⟨line, hline⟩ := exists_writesRule h.1
    obtain ⟨text, htext⟩ := ih h.2
    exact ⟨_, .cons hline (.inl rfl) htext⟩

/-- Rule text and rules in code agree for every layout of the text, and every list of rules that
can be written has a layout. -/
theorem build_eq_compile {whens : List (Condition × Label)} {otherwise : Option Label}
    (h : ∀ rule ∈ ruleList whens otherwise, rule.isWritable) :
    (∃ text : String, WritesRules (ruleList whens otherwise) text.toList) ∧
    ∀ text : String, WritesRules (ruleList whens otherwise) text.toList →
      (RuleSetDraft.ofSteps ((ruleList whens otherwise).map .rule)).build =
        .ok (RuleSet.compile text) ∧ (RuleSet.compile text).diagnostics = [] := by
  have hknown : ∀ rule ∈ ruleList whens otherwise, Policy.standard.knows rule.label :=
    fun rule hrule => knows_of_isWritable (h rule hrule)
  constructor
  · obtain ⟨text, htext⟩ := exists_writesRules h
    exact ⟨String.ofList text, by rwa [String.toList_ofList]⟩
  · intro text htext
    rw [compile_of_writesRules htext]
    exact ⟨build_of_known hknown, diagnostics_ofEntries_ruleList hknown 1⟩

/-- Two rules with both kinds of quotes and of line ends, an escape and a comment. -/
theorem build_eq_compile_of_two_rules :
    let rules := ruleList
      [(.compare ⟨.field "segment", .eq, .literal (.string "it's")⟩, ⟨"BIG"⟩)] (some ⟨"SMALL"⟩)
    let text := "\tIF segment == 'it\\'s'  THEN return \"BIG\" // note\r\nRETURN SMALL\n"
    (∀ rule ∈ rules, rule.isWritable) ∧ WritesRules rules text.toList ∧
      (RuleSetDraft.ofSteps (rules.map .rule)).build = .ok (RuleSet.compile text) ∧
      (RuleSet.compile text).diagnostics = [] := by
  intro rules text
  have hwritable : ∀ rule ∈ rules, rule.isWritable := by decide
  have hquoted : ∀ quote, Reader.isQuote quote → ∀ body content, escape quote content = body →
      QuotedBody quote body content := by
    rintro quote hquote _ content rfl
    exact quotedBody_escape hquote content
  have hterm : TermTokens (.compare ⟨.field "segment", .eq, .literal (.string "it's")⟩)
      [.word "segment".toList, .comparator .eq, .quoted '\'' "it\\'s".toList] :=
    .compare (.field rfl rfl) (.string rfl (hquoted _ rfl _ "it's".toList (by decide)))
  have hbig : LabelToken ⟨"BIG"⟩ (.quoted '"' "BIG".toList) :=
    .quoted rfl (hquoted _ rfl _ "BIG".toList (by decide)) (by decide)
  have hsmall : LabelToken ⟨"SMALL"⟩ (.bareLabel "SMALL".toList) := .bare (by decide) (by decide)
  have hfirst := RuleTokens.conditional (i := "IF".toList) (t := "THEN".toList)
    (r := "return".toList) (by decide) (.term hterm) (by decide) (by decide) hbig
  have hsecond := RuleTokens.fallback (r := "RETURN".toList) (by decide) hsmall
  have hone : [' '] ≠ [] ∧ [' '].all isSpace := by decide
  have htwo : [' ', ' '] ≠ [] ∧ [' ', ' '].all isSpace := by decide
  have hnote : IsTail " // note".toList :=
    ⟨[' '], "// note".toList, rfl, by decide, .inr ⟨" note".toList, by decide, by simp⟩⟩
  have hnothing : IsTail [] := ⟨[], [], rfl, rfl, .inl rfl⟩
  have hline : WritesRule _ ("\tIF segment == 'it\\'s'  THEN return \"BIG\" // note".toList) :=
    ⟨_, ['\t'], _, " // note".toList, hfirst,
      .cons hone.1 hone.2 <| .cons hone.1 hone.2 <| .cons hone.1 hone.2 <| .cons htwo.1 htwo.2 <|
        .cons hone.1 hone.2 <| .cons hone.1 hone.2 <| .last _,
      by decide, rfl, hnote, by decide⟩
  have hline' : WritesRule _ "RETURN SMALL".toList :=
    ⟨_, [], _, [], hsecond, .cons hone.1 hone.2 <| .last _, by decide, rfl, hnothing, by decide⟩
  have hwrites : WritesRules rules text.toList := by
    have htext : text.toList =
        "\tIF segment == 'it\\'s'  THEN return \"BIG\" // note".toList ++ ['\r', '\n'] ++
          ("RETURN SMALL".toList ++ ['\n'] ++ []) := by decide
    rw [htext]
    exact .cons hline (.inr rfl) (.cons hline' (.inl rfl) .nil)
  exact ⟨hwritable, hwrites, (build_eq_compile hwritable).2 text hwrites⟩

end Retention
