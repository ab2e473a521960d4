import Retention.Grammar.Reader
import Retention.Number.Reading
import Retention.Text.Blank
import Retention.Text.Word

/-!
# Tokens

Spaces in front of a token are skipped. A keyword is a whole word in upper or in lower case.
A quoted text ends at its first quote that no backslash escapes. A numeral has digits on both
sides of its point.
-/

namespace Retention.Reader

def spaces : Reader Unit := do
  let _ ← many isSpace

/-! ## Words -/

/-- A letter or underscore, then letters, digits, underscores and points. -/
def word : Reader (List Char) := do
  let c ← satisfy isWordStart
  let rest ← many isNameChar
  pure (c :: rest)

/-- A keyword is written in upper case throughout or in lower case throughout. -/
def isKeyword (keyword : String) (word : List Char) : Bool :=
  word == keyword.toList || word == keyword.toList.map Char.toLower

/-- The words that cannot name a field in a rule. -/
def reservedWords : List String := ["IF", "THEN", "RETURN", "AND", "OR", "NULL", "TRUE", "FALSE"]

def isReserved (word : List Char) : Bool := reservedWords.any (isKeyword · word)

def keyword (name : String) : Reader Unit := do
  spaces
  let w ← word
  if isKeyword name w then pure () else fail

/-! ## Quoted texts -/

def isQuote (c : Char) : Bool := c = '"' ∨ c = '\''

/-- What a backslash and the character after it stand for. Unknown pairs stay as they are. -/
def unescape (c : Char) : List Char :=
  if c = '"' ∨ c = '\'' ∨ c = '\\' then [c]
  else if c = 'n' then ['\n']
  else if c = 't' then ['\t']
  else ['\\', c]

/-- The rest of a quoted text, through the closing quote. -/
def quotedBody (quote : Char) : List Char → Except Failure (List Char × List Char)
  | [] => .error ⟨[], true, [.expected (.mark quote)]⟩
  | ['\\'] => .error ⟨[], true, []⟩
  | '\\' :: c :: rest => do
    let (body, rest) ← quotedBody quote rest
    pure (unescape c ++ body, rest)
  | c :: rest =>
    if c = quote then .ok ([], rest)
    else do
      let (body, rest) ← quotedBody quote rest
      pure (c :: body, rest)

def quoted : Reader String := do
  let quote ← satisfy isQuote
  let body ← quotedBody quote
  pure (String.ofList body)

/-! ## Numerals -/

def fraction : Reader (List Char) := do
  exactly ['.']
  many1 Char.isDigit

def numeral : Reader Number := do
  let sign ← optional (exactly ['-'])
  let whole ← many1 Char.isDigit
  let digits := (← optional fraction).getD []
  pure (.ofDecimal sign.isSome (Nat.ofDigitChars 10 (whole ++ digits) 0) (-(digits.length : Int)))

end Retention.Reader
