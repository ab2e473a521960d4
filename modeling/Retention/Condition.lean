import Retention.Value

/-!
# Conditions

A condition is a comparison of two operands, a fixed truth value, or two conditions joined by
AND or OR. An operand is a field of the record or a fixed value.
-/

namespace Retention

inductive Comparator
  | eq
  | ne
  | gt
  | ge
  | lt
  | le
deriving DecidableEq

namespace Comparator

/-- Whether the comparator asks for an order and not only for equality. -/
def isOrdering : Comparator → Bool
  | .eq | .ne => false
  | .gt | .ge | .lt | .le => true

def text : Comparator → String
  | .eq => "=="
  | .ne => "!="
  | .gt => ">"
  | .ge => ">="
  | .lt => "<"
  | .le => "<="

def all : List Comparator := [.eq, .ne, .gt, .ge, .lt, .le]

theorem mem_all (op : Comparator) : op ∈ all := by cases op <;> decide

def holds (op : Comparator) (x y : Quantity) : Bool :=
  match op with
  | .eq => x.value = y.value
  | .ne => x.value ≠ y.value
  | .gt => y < x
  | .ge => y ≤ x
  | .lt => x < y
  | .le => x ≤ y

end Comparator

inductive Operand
  | field (name : String)
  | literal (value : Value)
deriving DecidableEq

namespace Operand

def fieldName? : Operand → Option String
  | .field name => some name
  | .literal _ => none

def text : Operand → String
  | .field name => name
  | .literal value => value.text

def same : Operand → Operand → Bool
  | .field m, .field n => m == n
  | .literal v, .literal w => v.same w
  | _, _ => false

end Operand

structure Comparison where
  left : Operand
  op : Comparator
  right : Operand
deriving DecidableEq

namespace Comparison

def fieldNames (c : Comparison) : List String :=
  c.left.fieldName?.toList ++ c.right.fieldName?.toList

def text (c : Comparison) : String := c.left.text ++ " " ++ c.op.text ++ " " ++ c.right.text

def same (c d : Comparison) : Bool := c.left.same d.left && c.op == d.op && c.right.same d.right

end Comparison

inductive Condition
  | compare (c : Comparison)
  | and (a b : Condition)
  | or (a b : Condition)
  | const (value : Bool)
deriving DecidableEq

namespace Condition

/-- The field on the left compared with a fixed value. -/
def field (name : String) (op : Comparator) (value : Value) : Condition :=
  .compare ⟨.field name, op, .literal value⟩

/-- The fields that a condition reads, in the order they stand, repetitions kept. -/
def fieldNames : Condition → List String
  | .compare c => c.fieldNames
  | .and a b | .or a b => a.fieldNames ++ b.fieldNames
  | .const _ => []

/-- Every AND and OR stands in parentheses of its own. -/
def text : Condition → String
  | .compare c => c.text
  | .and a b => "(" ++ a.text ++ " AND " ++ b.text ++ ")"
  | .or a b => "(" ++ a.text ++ " OR " ++ b.text ++ ")"
  | .const value => if value then "true" else "false"

def same : Condition → Condition → Bool
  | .compare c, .compare d => c.same d
  | .and a b, .and c d => a.same c && b.same d
  | .or a b, .or c d => a.same c && b.same d
  | .const v, .const w => v == w
  | _, _ => false

end Condition

end Retention
