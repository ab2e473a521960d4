import Retention.Number.Basic

/-!
# Writing a number

A number is written with the fewest digits that read back as it, never with an exponent and
without a point when it is whole. Of two such decimals the closer one is taken, and the
larger one when they are equally close. A second form has a fixed number of places and rounds
the exact value, a half going to the even neighbour.
-/

namespace Retention

/-! ## Decimals in units of 10⁻¹⁰⁷⁴ -/

/-- The units of one step. -/
def unitsPerStep : Nat := 5 ^ stepExponent

/-- The units of one. -/
def unitsPerOne : Nat := 10 ^ stepExponent

def readsBack (steps units : Nat) : Bool := nearestSteps units unitsPerStep == steps

/-- The decimal on a grid that reads back, the closer one if there are two. -/
def gridDecimal? (steps grid : Nat) : Option Nat :=
  let exact := steps * unitsPerStep
  let low := exact / grid * grid
  let high := low + grid
  if readsBack steps low then
    if readsBack steps high ∧ high - exact ≤ exact - low then some high else some low
  else if readsBack steps high then some high else none

/-- The coarsest decimal of at most 17 digits that reads back, the exact one if none does. -/
def shortestDecimal (steps : Nat) : Nat :=
  let exact := steps * unitsPerStep
  let size := (Nat.toDigits 10 exact).length
  ((List.range 17).findSome? fun n => gridDecimal? steps (10 ^ (size - (n + 1)))).getD exact

/-! ## Digits around a point -/

/-- The digits after the point, as many as there are places. -/
def fractionDigits (places part : Nat) : List Char :=
  let digits := Nat.toDigits 10 part
  List.replicate (places - digits.length) '0' ++ digits

def dropTrailingZeros (digits : List Char) : List Char :=
  (digits.reverse.dropWhile (· = '0')).reverse

/-- A decimal with no trailing zeros after the point. -/
def plainText (units : Nat) : List Char :=
  let whole := Nat.toDigits 10 (units / unitsPerOne)
  let part := units % unitsPerOne
  if part = 0 then whole
  else whole ++ '.' :: dropTrailingZeros (fractionDigits stepExponent part)

/-- A count of `10 ^ -places` with exactly that many digits after the point. -/
def placesText (places count : Nat) : List Char :=
  Nat.toDigits 10 (count / 10 ^ places) ++ '.' :: fractionDigits places (count % 10 ^ places)

/-! ## Numbers -/

def signText (negative : Bool) : List Char := if negative then ['-'] else []

namespace Number

def chars : Number → List Char
  | .finite x => signText x.negative ++ plainText (shortestDecimal x.steps)
  | .infinite negative => signText negative ++ ['i', 'n', 'f']
  | .nan => ['N', 'a', 'N']

def text (n : Number) : String := String.ofList n.chars

/-- The text with one or more fixed places. -/
def fixedText (places : Nat) : Number → String
  | .finite x => String.ofList
      (signText x.negative ++ placesText places (roundDiv (x.steps * 10 ^ places) stepsPerOne))
  | n => n.text

end Number

end Retention
