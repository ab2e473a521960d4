import Retention.Condition
import Retention.Label

/-!
# Rules

A conditional rule hands out its label when its condition holds. A fallback rule always does.
A placed rule knows the line it stands on.
-/

namespace Retention

inductive Rule
  | conditional (condition : Condition) (label : Label)
  | fallback (label : Label)
deriving DecidableEq

namespace Rule

def label : Rule → Label
  | .conditional _ label => label
  | .fallback label => label

def condition? : Rule → Option Condition
  | .conditional condition _ => some condition
  | .fallback _ => none

def isFallback : Rule → Bool
  | .conditional _ _ => false
  | .fallback _ => true

def fieldNames (rule : Rule) : List String :=
  match rule.condition? with
  | some condition => condition.fieldNames
  | none => []

def text : Rule → String
  | .conditional condition label => "IF " ++ condition.text ++ " THEN RETURN " ++ label.name
  | .fallback label => "RETURN " ++ label.name

def same : Rule → Rule → Bool
  | .conditional c l, .conditional d m => c.same d && l == m
  | .fallback l, .fallback m => l == m
  | _, _ => false

end Rule

structure PlacedRule where
  rule : Rule
  line : Nat
deriving DecidableEq

namespace PlacedRule

def label (placed : PlacedRule) : Label := placed.rule.label

def isFallback (placed : PlacedRule) : Bool := placed.rule.isFallback

def same (a b : PlacedRule) : Bool := a.rule.same b.rule && a.line == b.line

/-- Rules numbered by their position, the first one `start`. -/
def numbered : Nat → List Rule → List PlacedRule
  | _, [] => []
  | start, rule :: rest => ⟨rule, start⟩ :: numbered (start + 1) rest

end PlacedRule

end Retention
