import Retention.Condition
import Retention.Record

/-!
# Evaluating a condition

A comparison that cannot be made counts as false and leaves a fault. AND stops at its first
false side and OR at its first true side, so a side that is not reached leaves no fault.
-/

namespace Retention

/-! ## Faults -/

/-- Why a comparison could not be made. -/
inductive Fault
  | missing (name : String)
  | mismatch (left : Kind) (op : Comparator) (right : Kind)
  | nullOrdering (op : Comparator)
deriving DecidableEq

def Fault.text : Fault → String
  | .missing name => "variable '" ++ name ++ "' is not bound"
  | .mismatch left op right => "cannot compare " ++ left.text ++ " " ++ op.text ++ " " ++ right.text
  | .nullOrdering op => "null only supports == and !=, found " ++ op.text

/-! ## Operands -/

/-- What an operand stands for: a value, or the name of a field that is not bound. -/
inductive Reading
  | bound (value : Value)
  | unbound (name : String)
deriving DecidableEq

namespace Reading

def isNull : Reading → Bool
  | .bound value => value.isNull
  | .unbound _ => false

/-- Beside a null, a field that is not bound counts as null. -/
def countsAsNull : Reading → Bool
  | .bound value => value.isNull
  | .unbound _ => true

end Reading

def Operand.read (record : Record) : Operand → Reading
  | .field name =>
    match record.get? name with
    | some value => .bound value
    | none => .unbound name
  | .literal value => .bound value

/-! ## Comparisons -/

/-- Two values compared as numbers. -/
def Value.testNumbers (op : Comparator) (l r : Value) : Except Fault Bool :=
  match l.number?, r.number? with
  | some x, some y => .ok (op.holds x y)
  | _, _ => .error (.mismatch l.kind op r.kind)

/-- Two strings are equal or not as they stand. All else is compared as numbers. -/
def Value.test (op : Comparator) : Value → Value → Except Fault Bool
  | .string s, .string t =>
    if op.isOrdering then Value.testNumbers op (.string s) (.string t)
    else .ok ((s == t) == (op == .eq))
  | l, r => Value.testNumbers op l r

/-- A null is equal to a null and can only be tested for equality. -/
def Reading.test (op : Comparator) (l r : Reading) : Except Fault Bool :=
  if l.isNull || r.isNull then
    if op.isOrdering then .error (.nullOrdering op)
    else .ok ((l.countsAsNull && r.countsAsNull) == (op == .eq))
  else
    match l, r with
    | .unbound name, _ => .error (.missing name)
    | .bound _, .unbound name => .error (.missing name)
    | .bound v, .bound w => v.test op w

def Comparison.test (c : Comparison) (record : Record) : Except Fault Bool :=
  (c.left.read record).test c.op (c.right.read record)

/-! ## Conditions -/

/-- The truth of a condition, and the faults met on the way. -/
structure Evaluation where
  value : Bool
  faults : List Fault
deriving DecidableEq

namespace Evaluation

def ofTest : Except Fault Bool → Evaluation
  | .ok value => ⟨value, []⟩
  | .error fault => ⟨false, [fault]⟩

/-- One evaluation and then another, which gives the value. -/
def andThen (first second : Evaluation) : Evaluation :=
  ⟨second.value, first.faults ++ second.faults⟩

end Evaluation

namespace Condition

def evaluate (record : Record) : Condition → Evaluation
  | .compare c => .ofTest (c.test record)
  | .and a b =>
    let left := a.evaluate record
    if left.value then left.andThen (b.evaluate record) else left
  | .or a b =>
    let left := a.evaluate record
    if left.value then left else left.andThen (b.evaluate record)
  | .const value => ⟨value, []⟩

theorem evaluate_and_of_true {record : Record} {a : Condition} (h : (a.evaluate record).value)
    (b : Condition) :
    (a.and b).evaluate record = (a.evaluate record).andThen (b.evaluate record) := by
  simp [evaluate, h]

theorem evaluate_and_of_false {record : Record} {a : Condition}
    (h : (a.evaluate record).value = false) (b : Condition) :
    (a.and b).evaluate record = a.evaluate record := by
  simp [evaluate, h]

theorem evaluate_or_of_true {record : Record} {a : Condition} (h : (a.evaluate record).value)
    (b : Condition) : (a.or b).evaluate record = a.evaluate record := by
  simp [evaluate, h]

theorem evaluate_or_of_false {record : Record} {a : Condition}
    (h : (a.evaluate record).value = false) (b : Condition) :
    (a.or b).evaluate record = (a.evaluate record).andThen (b.evaluate record) := by
  simp [evaluate, h]

def holds (record : Record) (condition : Condition) : Bool := (condition.evaluate record).value

end Condition

end Retention
