import Retention.Evaluation
import Retention.RuleSet

/-!
# Decisions

A record passes a gate before any rule is asked: its risk must be a number and its segment a
text that is not blank. Then the first rule that matches decides its label. A decision says
what decided, how many rules were asked, and which faults their conditions left.
-/

namespace Retention

inductive Outcome
  | matched (index line : Nat)
  | fallback (index line : Nat)
  | default
  | gate (field : String)
deriving DecidableEq

namespace Outcome

def ruleIndex? : Outcome → Option Nat
  | .matched index _ | .fallback index _ => some index
  | .default | .gate _ => none

def text : Outcome → String
  | .matched index line => "rule " ++ toString index ++ " (line " ++ toString line ++ ") matched"
  | .fallback index line => "fallback rule " ++ toString index ++ " (line " ++ toString line ++ ")"
  | .default => "no rule matched, default applied"
  | .gate field => "data-quality gate failed on '" ++ field ++ "'"

end Outcome

structure Decision where
  label : Label
  outcome : Outcome
  checked : Nat
  faults : List Fault
deriving DecidableEq

namespace Decision

/-- Faults that were met before those of the decision. -/
def afterFaults (faults : List Fault) (decision : Decision) : Decision :=
  { decision with faults := faults ++ decision.faults }

def faultsText (decision : Decision) : String :=
  match decision.faults with
  | [] => ""
  | faults => ", faults: [" ++ "; ".intercalate (faults.map Fault.text) ++ "]"

def display (decision : Decision) : String :=
  decision.label.name ++ " (" ++ decision.outcome.text ++ ", " ++ toString decision.checked ++
    " rules checked" ++ decision.faultsText ++ ")"

end Decision

/-! ## The gate -/

/-- Whether a record holds a text that is not blank. -/
def Record.hasText (record : Record) (name : String) : Bool :=
  match record.string? name with
  | some s => !isBlankText s.toList
  | none => false

/-- The field that keeps a record from the rules. The risk is looked at first. -/
def Policy.gateField? (policy : Policy) (record : Record) : Option String :=
  if (record.number? policy.riskField).isNone then some policy.riskField
  else if ¬ record.hasText policy.segmentField then some policy.segmentField
  else none

/-! ## First match -/

/-- The decision of the rules from a position on. -/
def Policy.firstMatch (policy : Policy) (record : Record) : Nat → List PlacedRule → Decision
  | index, [] => ⟨policy.defaultLabel, .default, index, []⟩
  | index, ⟨.fallback label, line⟩ :: _ => ⟨label, .fallback index line, index + 1, []⟩
  | index, ⟨.conditional condition label, line⟩ :: rest =>
    let evaluation := condition.evaluate record
    if evaluation.value then ⟨label, .matched index line, index + 1, evaluation.faults⟩
    else (policy.firstMatch record (index + 1) rest).afterFaults evaluation.faults

def Policy.decide (policy : Policy) (rules : List PlacedRule) (record : Record) : Decision :=
  match policy.gateField? record with
  | some field => ⟨policy.defaultLabel, .gate field, 0, []⟩
  | none => policy.firstMatch record 0 rules

def RuleSet.decide (set : RuleSet) (record : Record) : Decision :=
  set.policy.decide set.rules record

end Retention
