import Retention.RuleLines

/-!
# Diagnostics

A diagnostic tells why a line of the rule block is not among the rules that run: it could not
be read, its label is not in the vocabulary, or it stands after a fallback.
-/

namespace Retention

inductive DiagnosticKind
  | skipped (reason : ParseError)
  | unreachable (fallbackLine : Nat)
deriving DecidableEq

structure Diagnostic where
  line : Nat
  text : String
  kind : DiagnosticKind
deriving DecidableEq

namespace Diagnostic

def isUnreachable (diagnostic : Diagnostic) : Bool :=
  match diagnostic.kind with
  | .skipped _ => false
  | .unreachable _ => true

def display (diagnostic : Diagnostic) : String :=
  match diagnostic.kind with
  | .skipped reason =>
    "line " ++ toString diagnostic.line ++ ": skipped `" ++ diagnostic.text ++ "`: " ++ reason.text
  | .unreachable fallbackLine =>
    "line " ++ toString diagnostic.line ++ ": `" ++ diagnostic.text ++
      "` is unreachable after the RETURN on line " ++ toString fallbackLine

def ofMalformed (bad : MalformedLine) : Diagnostic := ⟨bad.line, bad.text, .skipped bad.reason⟩

/-- A rule whose label is not in the vocabulary. The text is the rule as it prints. -/
def undeclared (placed : PlacedRule) : Diagnostic :=
  ⟨placed.line, placed.rule.text,
    .skipped ⟨none, "label '" ++ placed.label.name ++ "' is not in the vocabulary"⟩⟩

/-- A rule after a fallback. The text is the rule as it prints. -/
def unreachable (placed : PlacedRule) (fallbackLine : Nat) : Diagnostic :=
  ⟨placed.line, placed.rule.text, .unreachable fallbackLine⟩

end Diagnostic

/-- The diagnostic of a line that is no rule. -/
def Entry.diagnostic? (entry : Entry) : Option Diagnostic := entry.malformed?.map .ofMalformed

end Retention
