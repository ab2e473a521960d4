import Std.Data.ExtTreeSet
import Retention.Diagnostic
import Retention.Document
import Retention.Policy.Text

/-!
# Rule sets

A rule set is a policy and the rules that run under it. Reading rules from text leaves out
what cannot run and says why: lines that are no rules, rules with a label outside the
vocabulary, and rules after the first fallback. Rules that are built in code must have known
labels.
-/

namespace Retention

/-- The policy of an instruction document. -/
def Policy.parse (text : String) : Policy := .ofLines (Document.parse text).policyLines

/-- The entries of the rule block of an instruction document. -/
def Entry.ofDocument (document : Document) : List Entry := readRuleLines document.ruleLines

/-- The entries of a bare rule block, in which headers mean nothing. -/
def Entry.ofRuleText (text : String) : List Entry := readRuleLines (Line.ofText text)

structure RuleSet where
  rules : List PlacedRule
  policy : Policy
  diagnostics : List Diagnostic

/-! ## What becomes of an entry -/

/-- An entry runs, or a diagnostic says why it does not. -/
inductive Verdict
  | runs (placed : PlacedRule)
  | noted (diagnostic : Diagnostic)
deriving DecidableEq

namespace Verdict

def rule? : Verdict → Option PlacedRule
  | .runs placed => some placed
  | .noted _ => none

def diagnostic? : Verdict → Option Diagnostic
  | .runs _ => none
  | .noted diagnostic => some diagnostic

end Verdict

/-- The verdicts on entries that stand below a fallback, or below none. A label outside the
vocabulary is reported before the fallback is. -/
def verdicts (policy : Policy) : Option Nat → List Entry → List Verdict
  | _, [] => []
  | above, .malformed bad :: rest => .noted (.ofMalformed bad) :: verdicts policy above rest
  | above, .rule placed :: rest =>
    if ¬ policy.knows placed.label then
      .noted (.undeclared placed) :: verdicts policy above rest
    else
      match above with
      | some line => .noted (.unreachable placed line) :: verdicts policy above rest
      | none =>
        .runs placed :: verdicts policy (if placed.isFallback then some placed.line else none) rest

namespace RuleSet

def ofVerdicts (policy : Policy) (found : List Verdict) : RuleSet :=
  ⟨found.filterMap Verdict.rule?, policy, found.filterMap Verdict.diagnostic?⟩

def ofEntries (policy : Policy) (entries : List Entry) : RuleSet :=
  ofVerdicts policy (verdicts policy none entries)

/-! ## From text -/

def ofDocument (document : Document) : RuleSet :=
  ofEntries (.ofLines document.policyLines) (Entry.ofDocument document)

/-- The rule set of an instruction document. -/
def compile (text : String) : RuleSet := ofDocument (Document.parse text)

def ofRuleText (text : String) (policy : Policy) : RuleSet :=
  ofEntries policy (Entry.ofRuleText text)

/-! ## From rules -/

/-- The first rule whose label the policy does not know. -/
def unknownLabel? (policy : Policy) (rules : List Rule) : Option ConfigError :=
  (rules.zipIdx.find? fun item => !policy.knows item.1.label).map fun item =>
    .unknownRuleLabel item.2 item.1.label.name

/-- The rule set of rules in the order given, numbered by position. -/
def ofRules (policy : Policy) (rules : List Rule) : Except ConfigError RuleSet :=
  match unknownLabel? policy rules with
  | some error => .error error
  | none => .ok (ofEntries policy ((PlacedRule.numbered 1 rules).map Entry.rule))

/-! ## What a rule set shows -/

def size (set : RuleSet) : Nat := set.rules.length

def isEmpty (set : RuleSet) : Bool := set.rules.isEmpty

/-- Whether the last rule is a fallback. -/
def hasFallback (set : RuleSet) : Bool :=
  match set.rules.getLast? with
  | some placed => placed.isFallback
  | none => false

/-- The fields that any rule reads, each once, in the order of their names. -/
def fieldNames (set : RuleSet) : List String :=
  (Std.ExtTreeSet.ofList (set.rules.flatMap fun placed => placed.rule.fieldNames) compare).toList

def display (set : RuleSet) : String :=
  "RuleSet(" ++ toString set.size ++ " rules, " ++ toString set.policy.labels.length ++
    " labels, " ++ toString set.diagnostics.length ++ " diagnostics)"

/-- The rules as they print, one on a line. -/
def ruleText (set : RuleSet) : String :=
  String.ofList (['\n'].intercalate (set.rules.map fun placed => placed.rule.text.toList))

/-- Whether two rule sets have the same rules on the same lines and the same policy. What was
left out does not count. -/
def same (a b : RuleSet) : Bool :=
  a.rules.isEqv b.rules PlacedRule.same && a.policy.same b.policy

/-- Whether the rules are the same, whatever lines they stand on. -/
def sameRules (a b : RuleSet) : Bool :=
  (a.rules.map PlacedRule.rule).isEqv (b.rules.map PlacedRule.rule) Rule.same

end RuleSet

/-! ## Drafts -/

/-- A policy and rules that are still being put together. -/
structure RuleSetDraft where
  policy : Policy
  rules : List Rule

namespace RuleSetDraft

def standard : RuleSetDraft := ⟨.standard, []⟩

inductive Step
  | policy (policy : Policy)
  | rule (rule : Rule)

def apply (draft : RuleSetDraft) : Step → RuleSetDraft
  | .policy policy => { draft with policy := policy }
  | .rule rule => { draft with rules := draft.rules ++ [rule] }

def ofSteps (steps : List Step) : RuleSetDraft := steps.foldl apply standard

def build (draft : RuleSetDraft) : Except ConfigError RuleSet :=
  RuleSet.ofRules draft.policy draft.rules

end RuleSetDraft

end Retention
