import Retention.Number.Reading
import Retention.Policy.Draft
import Retention.Text.Line

/-!
# The text of a policy

A policy block holds one `KEY=VALUE` entry on a line. Lines that are empty, are comments or are
no entries are left out, and so are entries that cannot be used, so a block always gives a
policy. Of two entries of one key the later one counts, except that a cost that cannot be used
leaves an earlier one in force.
-/

namespace Retention

/-! ## Entries -/

structure PolicyEntry where
  key : String
  value : String
deriving DecidableEq

namespace PolicyEntry

def isKeyChar (c : Char) : Bool := c.isUpper || c.isDigit || c == '_'

def isNote (text : List Char) : Bool := ['/', '/'].isPrefixOf text || ['#'].isPrefixOf text

/-- The value after an equals sign. It is not empty and stays on its line. -/
def readValue? (text : List Char) : Option String :=
  let value := trimEnd (text.dropWhile isSpace)
  if value = [] ∨ value.any (fun c => c = '\n' ∨ c = '\r') then none else some (String.ofList value)

/-- An entry, from a line without blanks at its ends. -/
def read? (text : List Char) : Option PolicyEntry :=
  let key := text.takeWhile isKeyChar
  match (text.dropWhile isKeyChar).dropWhile isSpace with
  | '=' :: rest => if key = [] then none else (readValue? rest).map (⟨String.ofList key, ·⟩)
  | _ => none

def readLine? (line : Line) : Option PolicyEntry :=
  if line.trimmed = [] ∨ isNote line.trimmed then none else read? line.trimmed

def readLines (lines : List Line) : List PolicyEntry := lines.filterMap readLine?

/-- The value of the last entry of a key. -/
def lookup? (entries : List PolicyEntry) (key : String) : Option String :=
  (entries.reverse.find? (·.key == key)).map value

end PolicyEntry

/-! ## Values -/

def finiteOfText? (text : String) : Option Quantity :=
  (Number.read? text.toList).bind Number.finite?

/-- The parts of a text between commas. -/
def splitCommas : List Char → List (List Char)
  | [] => [[]]
  | c :: rest =>
    if c = ',' then [] :: splitCommas rest
    else
      match splitCommas rest with
      | [] => [[c]]
      | part :: parts => (c :: part) :: parts

/-- The labels between commas, if they are distinct identifiers. -/
def vocabularyOfText? (text : String) : Option (List String) :=
  let parts := ((splitCommas text.toList).map trim).filter (· ≠ [])
  if parts ≠ [] ∧ parts.all isIdentifier ∧ parts.Nodup then some (parts.map String.ofList) else none

/-! ## Settings -/

namespace PolicyEntry

/-- The vocabulary that the entries put in force. -/
def vocabulary (entries : List PolicyEntry) : List String :=
  ((lookup? entries "LABELS").bind vocabularyOfText?).getD standardLabels

def labelSettings (entries : List PolicyEntry) : List Setting :=
  (((lookup? entries "LABELS").bind vocabularyOfText?).map Setting.labels).toList

def defaultSettings (entries : List PolicyEntry) : List Setting :=
  match lookup? entries "DEFAULT_LABEL" with
  | some name => if (vocabulary entries).contains name then [.defaultLabel name] else []
  | none => []

/-- The key that gives the threshold. The second name counts only where the first is absent. -/
def thresholdKey (entries : List PolicyEntry) : String :=
  if (lookup? entries "HIGH_RISK_THRESHOLD").isSome then "HIGH_RISK_THRESHOLD" else "MED_THRESHOLD"

def thresholdSettings (entries : List PolicyEntry) : List Setting :=
  match (lookup? entries (thresholdKey entries)).bind finiteOfText? with
  | some x => [.threshold (.finite x)]
  | none => []

def fieldSettings (entries : List PolicyEntry) (key : String) (setting : String → Setting) :
    List Setting :=
  match lookup? entries key with
  | some name => if isFieldName name.toList then [setting name] else []
  | none => []

/-- The label of a key that sets a cost. -/
def costLabel? (key : String) : Option String :=
  if "COST_".toList.isPrefixOf key.toList then some (String.ofList (key.toList.drop 5)) else none

def costSettings (entries : List PolicyEntry) (name value : String) : List Setting :=
  match finiteOfText? value with
  | some x =>
    if (vocabulary entries).contains name ∧ Quantity.zero ≤ x then [.cost name (.finite x)] else []
  | none => []

def settingKeys : List String :=
  ["LABELS", "DEFAULT_LABEL", "HIGH_RISK_THRESHOLD", "RISK_FIELD", "SEGMENT_FIELD"]

/-- A cost or an extra setting, for an entry whose key has no meaning of its own. -/
def otherSettings (entries : List PolicyEntry) (entry : PolicyEntry) : List Setting :=
  if settingKeys.contains entry.key ∨ entry.key = thresholdKey entries then []
  else
    match costLabel? entry.key with
    | some name => costSettings entries name entry.value
    | none => [.extra entry.key entry.value]

def settings (entries : List PolicyEntry) : List Setting :=
  labelSettings entries ++ defaultSettings entries ++ thresholdSettings entries ++
    fieldSettings entries "RISK_FIELD" .riskField ++
    fieldSettings entries "SEGMENT_FIELD" .segmentField ++
    entries.flatMap (otherSettings entries)

end PolicyEntry

def Policy.ofEntries (entries : List PolicyEntry) : Policy :=
  match Policy.ofSettings (PolicyEntry.settings entries) with
  | .ok policy => policy
  | .error _ => .standard

def Policy.ofLines (lines : List Line) : Policy := ofEntries (PolicyEntry.readLines lines)

end Retention
