/-
The parts of a 64-bit float.

A finite float is a sign and a number m * 2^e with natural m.  Decoding and
encoding go through the bit pattern, so what is computed on the parts in exact
arithmetic is exact for the float.
-/

namespace Reckon
namespace Binary64

/-- The first significand with a leading one: fifty-two bits follow it. -/
def hidden : Nat := 0x10000000000000

def fractionBits : Nat := 52

def signBit : Nat := 0x8000000000000000

def topExponent : Nat := 0x7FF

/-- The exponent of the least significant bit of the smallest floats. -/
def leastExponent : Int := -1074

inductive Decoded where
  | nan
  | infinity (negative : Bool)
  /-- The value is `significand * 2 ^ exponent`, with the sign. -/
  | finite (negative : Bool) (significand : Nat) (exponent : Int)
  deriving DecidableEq, Repr

def decode (x : Float) : Decoded :=
  let bits : Nat := x.toBits.toNat
  let negative := decide (signBit ≤ bits)
  let biased : Nat := bits / hidden % (topExponent + 1)
  let fraction := bits % hidden
  if biased = topExponent then
    if fraction = 0 then .infinity negative else .nan
  else if biased = 0 then .finite negative fraction leastExponent
  else .finite negative (hidden + fraction) ((biased : Int) - 1 + leastExponent)

def ofFields (negative : Bool) (biased fraction : Nat) : Float :=
  Float.ofBits (UInt64.ofNat ((if negative then signBit else 0) + biased * hidden + fraction))

def zero (negative : Bool) : Float :=
  ofFields negative 0 0

/-- The float of a number that is one: a significand of at most fifty-three
bits and an exponent not below the least. -/
def encode (negative : Bool) (significand : Nat) (exponent : Int) : Float :=
  if significand = 0 then zero negative
  else
    let room := fractionBits - significand.log2
    let shift := min room (exponent - leastExponent).toNat
    let scaled := significand <<< shift
    let biased := (exponent - shift - leastExponent).toNat
    if scaled < hidden then ofFields negative 0 scaled
    else ofFields negative (biased + 1) (scaled - hidden)

def Decoded.truncate? : Decoded → Option Int
  | nan | infinity _ => none
  | finite negative significand exponent =>
    let whole := (significand <<< exponent.toNat) >>> (-exponent).toNat
    some (if negative then -whole else whole)

def Decoded.isWhole : Decoded → Bool
  | nan | infinity _ => false
  | finite _ significand exponent => significand % (1 <<< (-exponent).toNat) == 0

def truncate? (x : Float) : Option Int :=
  (decode x).truncate?

end Binary64
end Reckon
