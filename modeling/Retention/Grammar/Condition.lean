import Retention.Condition
import Retention.Grammar.Token

/-!
# Reading a condition

Terms are joined by AND and OR with equal rank, from left to right, and there are no
parentheses. A term is a comparison of two operands, or the word TRUE or FALSE. Once a
comparator is read its right operand has to follow, and once AND or OR is read a term has to
follow.
-/

namespace Retention.Reader

/-! ## Operands and comparators -/

/-- A field, unless the word is reserved. NULL is a value. -/
def fieldOrNull : Reader Operand := do
  let w ← word
  if isKeyword "NULL" w then pure (.literal .null)
  else if isReserved w then fail
  else pure (.field (String.ofList w))

def quotedOperand : Reader Operand := do
  let s ← quoted
  pure (.literal (.string s))

def numeralOperand : Reader Operand := do
  let n ← numeral
  pure (.literal (.number n))

def operand : Reader Operand := do
  spaces
  noting (.expected (.part "operand")) (either quotedOperand (either numeralOperand fieldOrNull))

def symbol (op : Comparator) : Reader Comparator := do
  exactly op.text.toList
  pure op

/-- A longer comparator is tried before the one it starts with. -/
def comparator : Reader Comparator := do
  spaces
  noting (.expected (.part "comparator"))
    (either (symbol .ge) (either (symbol .gt) (either (symbol .le) (either (symbol .lt)
      (either (symbol .eq) (symbol .ne))))))

/-! ## Terms -/

def comparison : Reader Condition := do
  let left ← operand
  let op ← comparator
  let right ← commit operand
  pure (.compare ⟨left, op, right⟩)

def constant : Reader Condition := do
  spaces
  let w ← word
  if isKeyword "TRUE" w then pure (.const true)
  else if isKeyword "FALSE" w then pure (.const false)
  else fail

def term : Reader Condition :=
  noting (.expected (.part "comparison")) (either comparison constant)

/-! ## Conditions -/

def andKeyword : Reader (Condition → Condition → Condition) := do
  keyword "AND"
  pure .and

def orKeyword : Reader (Condition → Condition → Condition) := do
  keyword "OR"
  pure .or

/-- One connective and the term after it, joined to what was read before. -/
def extend (condition : Condition) : Reader Condition := do
  let join ← either andKeyword orKeyword
  let right ← commit term
  pure (join condition right)

def condition : Reader Condition := do
  let first ← term
  chain extend first

/-- A condition and the spaces after it. -/
def wholeCondition : Reader Condition := do
  let c ← condition
  spaces
  pure c

end Retention.Reader
