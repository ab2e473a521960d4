import Retention.Number.Reading
import Retention.Number.Writing
import Retention.Text.Blank

/-!
# Values

A field of a record holds a number, a string or an explicit null. Text that spells a finite
number counts as that number, after its blanks are trimmed.
-/

namespace Retention

/-- What a value is, as faults report it. -/
inductive Kind
  | number
  | string
  | null
deriving DecidableEq

def Kind.text : Kind → String
  | .number => "number"
  | .string => "string"
  | .null => "null"

inductive Value
  | number (n : Number)
  | string (s : String)
  | null
deriving DecidableEq

namespace Value

def kind : Value → Kind
  | .number _ => .number
  | .string _ => .string
  | .null => .null

def isNull : Value → Bool
  | .null => true
  | _ => false

def string? : Value → Option String
  | .string s => some s
  | _ => none

/-- The finite number that a value is or spells. -/
def number? : Value → Option Quantity
  | .number n => n.finite?
  | .string s => (Number.read? (trim s.toList)).bind Number.finite?
  | .null => none

@[simp] theorem number?_null : null.number? = none := rfl

@[simp] theorem number?_quantity (x : Quantity) : (number (.finite x)).number? = some x := rfl

/-- Equality of values: numbers by value, strings exactly. -/
def same : Value → Value → Bool
  | .number m, .number n => m.same n
  | .string s, .string t => s == t
  | .null, .null => true
  | _, _ => false

/-- Strings stand in double quotes, with nothing inside escaped. -/
def text : Value → String
  | .number n => n.text
  | .string s => "\"" ++ s ++ "\""
  | .null => "null"

end Value

end Retention
