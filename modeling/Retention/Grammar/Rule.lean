import Retention.Grammar.Condition
import Retention.Rule

/-!
# Reading a rule

A rule is `IF` a condition `THEN RETURN` a label, or `RETURN` a label alone. A label is a
quoted text that is not empty, or a run of letters, digits and underscores. A comment may
stand at the end of the line.
-/

namespace Retention.Reader

def quotedLabel : Reader Label := do
  let name ← quoted
  if name = "" then fail else pure ⟨name⟩

def bareLabel : Reader Label := do
  let name ← many1 isWordChar
  pure ⟨String.ofList name⟩

def label : Reader Label := do
  spaces
  noting (.expected (.part "label")) (either quotedLabel bareLabel)

def conditional : Reader Rule := do
  keyword "IF"
  let c ← noting (.within "condition") (commit condition)
  noting (.expected (.word "THEN")) (commit (keyword "THEN"))
  noting (.expected (.word "RETURN")) (commit (keyword "RETURN"))
  let l ← commit label
  pure (.conditional c l)

def fallback : Reader Rule := do
  keyword "RETURN"
  let l ← commit label
  pure (.fallback l)

def isLineEnd (c : Char) : Bool := c = '\n' ∨ c = '\r'

/-- What is left of a line before its end. A carriage return ends a line only together with a
line feed. -/
def restOfLine : Reader Unit := fun text =>
  match text.dropWhile (!isLineEnd ·) with
  | '\r' :: '\n' :: rest => .ok ((), '\r' :: '\n' :: rest)
  | '\r' :: rest => .error ⟨'\r' :: rest, false, []⟩
  | rest => .ok ((), rest)

def comment : Reader Unit := do
  exactly ['/', '/']
  restOfLine

def ruleLine : Reader Rule := do
  let rule ← noting (.within "rule") (either conditional fallback)
  spaces
  let _ ← optional comment
  pure rule

end Retention.Reader
