import Retention.Text.Line
import Retention.Text.Word

/-!
# Documents

A document is lines under headers such as `[RULES]`. The lines above the first header are its
preamble. A header line holds nothing but the header and spaces, belongs to no section, and
opens a new section even if its name was used before.
-/

namespace Retention

/-! ## Headers -/

/-- The identifier in brackets that a header line consists of. -/
def headerName? (text : List Char) : Option String :=
  match text.dropWhile isSpace with
  | '[' :: rest =>
    let name := rest.takeWhile isWordChar
    match rest.dropWhile isWordChar with
    | ']' :: tail =>
      if isIdentifier name ∧ tail.all isSpace then some (String.ofList name) else none
    | _ => none
  | _ => none

def Line.header? (line : Line) : Option String := headerName? line.chars

/-! ## Sections -/

structure Section where
  name : String
  lines : List Line
deriving DecidableEq

/-- The text of some lines without the blanks at its ends. -/
def blockText (lines : List Line) : String := String.ofList (trim (Line.join lines))

structure Document where
  preamble : List Line
  sections : List Section
deriving DecidableEq

/-- Where the rules of a document stand. -/
inductive RuleBlock
  | underHeader (found : Section)
  | preamble (lines : List Line)
deriving DecidableEq

namespace RuleBlock

def name? : RuleBlock → Option String
  | .underHeader found => some found.name
  | .preamble _ => none

def lines : RuleBlock → List Line
  | .underHeader found => found.lines
  | .preamble lines => lines

end RuleBlock

namespace Document

def rulesName : String := "RULES"

def policyName : String := "POLICY"

/-- A line goes to the section that the nearest header above it opens. -/
def ofLines : List Line → Document
  | [] => ⟨[], []⟩
  | line :: rest =>
    let document := ofLines rest
    match line.header? with
    | some name => ⟨[], ⟨name, document.preamble⟩ :: document.sections⟩
    | none => ⟨line :: document.preamble, document.sections⟩

theorem ofLines_cons_of_header {line : Line} {name : String} (h : line.header? = some name)
    (rest : List Line) :
    ofLines (line :: rest) =
      ⟨[], ⟨name, (ofLines rest).preamble⟩ :: (ofLines rest).sections⟩ := by
  simp [ofLines, h]

theorem ofLines_cons_of_no_header {line : Line} (h : line.header? = none) (rest : List Line) :
    ofLines (line :: rest) = ⟨line :: (ofLines rest).preamble, (ofLines rest).sections⟩ := by
  simp [ofLines, h]

def parse (text : String) : Document := ofLines (Line.ofText text)

def hasHeaders (document : Document) : Bool := !document.sections.isEmpty

def sectionNames (document : Document) : List String := document.sections.map Section.name

/-- The first section of a name, in any case. -/
def section? (document : Document) (name : String) : Option Section :=
  document.sections.find? fun found => sameIgnoringCase found.name.toList name.toList

/-- The rules stand in the first section of their name. Without one they stand in the
preamble, unless headers follow a preamble that is blank. -/
def ruleBlock? (document : Document) : Option RuleBlock :=
  match document.section? rulesName with
  | some found => some (.underHeader found)
  | none =>
    if document.hasHeaders ∧ document.preamble.all Line.isBlank then none
    else some (.preamble document.preamble)

def policyBlock? (document : Document) : Option Section := document.section? policyName

def ruleLines (document : Document) : List Line :=
  match document.ruleBlock? with
  | some block => block.lines
  | none => []

def policyLines (document : Document) : List Line :=
  match document.policyBlock? with
  | some found => found.lines
  | none => []

end Document

end Retention
