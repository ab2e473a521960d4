import Retention.ParseError
import Retention.Text.Line

/-!
# Reading rule lines

Each line of a rule block is trimmed. Empty lines and lines that start with two slashes are
left out. Every other line gives one entry: a rule at its line, or the reason why it is none.
-/

namespace Retention

structure MalformedLine where
  line : Nat
  text : String
  reason : ParseError
deriving DecidableEq

inductive Entry
  | rule (placed : PlacedRule)
  | malformed (bad : MalformedLine)
deriving DecidableEq

namespace Entry

def line : Entry → Nat
  | .rule placed => placed.line
  | .malformed bad => bad.line

def rule? : Entry → Option PlacedRule
  | .rule placed => some placed
  | .malformed _ => none

def malformed? : Entry → Option MalformedLine
  | .rule _ => none
  | .malformed bad => some bad

end Entry

def isComment (text : List Char) : Bool := ['/', '/'].isPrefixOf text

/-- The entry of a line that holds the given trimmed text. -/
def readRuleText (line : Nat) (text : String) : Entry :=
  match Rule.parse text with
  | .ok rule => .rule ⟨rule, line⟩
  | .error reason => .malformed ⟨line, text, reason⟩

def readRuleLine? (line : Line) : Option Entry :=
  if line.trimmed = [] ∨ isComment line.trimmed then none
  else some (readRuleText line.number (String.ofList line.trimmed))

def readRuleLines (lines : List Line) : List Entry := lines.filterMap readRuleLine?

end Retention
