import Retention.Grammar.Rule

/-!
# Parse errors

An error says at which column of its line reading stopped. Columns count bytes of UTF-8 from
one. The message names the part that was being read and what could have followed.
-/

namespace Retention

structure ParseError where
  column : Option Nat
  message : String
deriving DecidableEq

def ParseError.text (error : ParseError) : String :=
  match error.column with
  | some column => "column " ++ toString column ++ ": " ++ error.message
  | none => error.message

/-! ## Messages -/

def Expectation.text : Expectation → String
  | .word text => "`" ++ text ++ "`"
  | .mark c => "`" ++ String.singleton c ++ "`"
  | .part name => name

def Note.within? : Note → Option String
  | .within part => some part
  | .expected _ => none

def Note.expected? : Note → Option Expectation
  | .within _ => none
  | .expected what => some what

namespace Failure

/-- The innermost part that was being read. -/
def withinText (failure : Failure) : List String :=
  match failure.notes.findSome? Note.within? with
  | some part => ["invalid " ++ part]
  | none => []

def expectedText (failure : Failure) : List String :=
  match failure.notes.filterMap Note.expected? with
  | [] => []
  | whats => ["expected " ++ ", ".intercalate (whats.map Expectation.text)]

def message (failure : Failure) : String :=
  "; ".intercalate (failure.withinText ++ failure.expectedText)

/-- The column of what was left of a text. -/
def column (failure : Failure) (text : List Char) : Nat :=
  (String.ofList text).utf8ByteSize - (String.ofList failure.rest).utf8ByteSize + 1

end Failure

/-! ## Conditions and rules -/

def Condition.parse (text : String) : Except ParseError Condition :=
  match Reader.complete Reader.wholeCondition text.toList with
  | .ok condition => .ok condition
  | .error failure => .error ⟨some (failure.column text.toList), failure.message⟩

/-- A failure that says nothing else is reported as a line that is no rule. -/
def Rule.parse (text : String) : Except ParseError Rule :=
  match Reader.complete Reader.ruleLine text.toList with
  | .ok rule => .ok rule
  | .error failure =>
    let message := if failure.message = "" then "unrecognised rule" else failure.message
    .error ⟨some (failure.column text.toList), message⟩

end Retention
