import Retention.Number.Basic

/-!
# The 64-bit form of a number

One sign bit, eleven exponent bits, fifty-two fraction bits. Exponent 0 counts the fraction
in steps; any other exponent adds a leading bit and shifts. The largest exponent is kept for
the infinities and for what is not a number.
-/

namespace Retention.Number

def signBit (negative : Bool) : Nat := if negative then 2 ^ 63 else 0

/-- The exponent and fraction bits of a number of steps. -/
def magnitudeBits (steps : Nat) : Nat :=
  droppedBits steps * 2 ^ 52 + steps / 2 ^ droppedBits steps

def toBits : Number → UInt64
  | .finite x => UInt64.ofNat (signBit x.negative + magnitudeBits x.steps)
  | .infinite negative => UInt64.ofNat (signBit negative + 2047 * 2 ^ 52)
  | .nan => UInt64.ofNat (4095 * 2 ^ 51)

/-- The steps that the exponent and fraction bits stand for. -/
def bitSteps (exponent fraction : Nat) : Nat :=
  if exponent = 0 then fraction else (2 ^ 52 + fraction) * 2 ^ (exponent - 1)

def ofBits (bits : UInt64) : Number :=
  let negative := decide (2 ^ 63 ≤ bits.toNat)
  let exponent := bits.toNat / 2 ^ 52 % 2 ^ 11
  let fraction := bits.toNat % 2 ^ 52
  if exponent = 2047 then
    if fraction = 0 then .infinite negative else .nan
  else ofSteps negative (bitSteps exponent fraction) 1

end Retention.Number
