import Retention.Number.Basic

/-!
# Reading a number

A sign, then a word for an infinity or for what is not a number, or decimal digits with an
optional point and an optional exponent. At least one digit stands on one side of the point.
The whole text is read, and the value is rounded once.
-/

namespace Retention.Number

/-! ## The value of a decimal -/

/-- The number closest to `digits · 10 ^ exponent`. Exponents that only an infinity or a zero
can have are settled without the power. -/
def ofDecimal (negative : Bool) (digits : Nat) (exponent : Int) : Number :=
  if digits = 0 then ofSteps negative 0 1
  else if 310 < exponent then .infinite negative
  else if exponent + digits.log2 < -331 then ofSteps negative 0 1
  else if 0 ≤ exponent then ofRatio negative (digits * 10 ^ exponent.toNat) 1
  else ofRatio negative digits (10 ^ (-exponent).toNat)

/-! ## The text of a decimal -/

/-- A sign in front of a text, and what follows it. -/
def takeSign : List Char → Bool × List Char
  | '-' :: rest => (true, rest)
  | '+' :: rest => (false, rest)
  | rest => (false, rest)

def readDigits? (text : List Char) : Option Nat :=
  if text ≠ [] ∧ text.all Char.isDigit then some (Nat.ofDigitChars 10 text 0) else none

/-- Nothing, or `e` and a signed whole number. -/
def readExponent? : List Char → Option Int
  | [] => some 0
  | c :: rest =>
    if c = 'e' ∨ c = 'E' then
      let (negative, digits) := takeSign rest
      (readDigits? digits).map fun n => if negative then -(n : Int) else n
    else none

/-- The digits after a point, and what follows them. -/
def takeFraction : List Char → List Char × List Char
  | '.' :: rest => (rest.takeWhile Char.isDigit, rest.dropWhile Char.isDigit)
  | rest => ([], rest)

def readDecimal? (negative : Bool) (text : List Char) : Option Number :=
  let whole := text.takeWhile Char.isDigit
  let (fraction, rest) := takeFraction (text.dropWhile Char.isDigit)
  if whole ++ fraction = [] then none
  else (readExponent? rest).map fun exponent =>
    ofDecimal negative (Nat.ofDigitChars 10 (whole ++ fraction) 0) (exponent - fraction.length)

/-- A number without its sign. The words are read in any case. -/
def readMagnitude? (negative : Bool) (text : List Char) : Option Number :=
  let word := String.ofList (text.map Char.toLower)
  if word = "inf" ∨ word = "infinity" then some (.infinite negative)
  else if word = "nan" then some .nan
  else readDecimal? negative text

def read? (text : List Char) : Option Number :=
  let (negative, rest) := takeSign text
  readMagnitude? negative rest

end Retention.Number
