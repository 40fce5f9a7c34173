/-
The shortest decimal that reads back as a given float.

A positive float is m * 2^e.  The reals that round to it form an interval
around it, which includes its ends if m is even.  For one digit, two digits and
so on the two neighbours of the float among the decimals of that many digits
are tried.  The first count with a hit wins; of two hits the nearer wins, and of
two equally near ones the even one.  If any decimal of a count lies in the
interval, so does one of the two neighbours.

All comparisons are between natural numbers: an integer `a` stands for the real
`a * 2^(e-2)`, and a decimal `d * 10^k` is compared with it after both sides are
multiplied up to integers.
-/
import Reckon.Binary64.Decoded

namespace Reckon
namespace Binary64

structure Decimal where
  digits : Nat
  exponent : Int
  deriving DecidableEq, Repr

def digitCount (n : Nat) : Nat :=
  (Nat.toDigits 10 n).length

/-- The exponent of the first decimal digit of `m * 2^e`, for positive `m`. -/
def decimalExponent (m : Nat) (e : Int) : Int :=
  let num := m <<< e.toNat
  let den := 1 <<< (-e).toNat
  if den ≤ num then (digitCount (num / den) : Int) - 1
  else -(digitCount ((den + num - 1) / num - 1) : Int)

/-- An interval of reals on the scale of a quarter of the last place, and
whether its ends belong to it. -/
structure Interval where
  low : Nat
  high : Nat
  closed : Bool

/-- The reals that round to `m * 2^e`.  Below a power of two the floats lie
twice as close. -/
def roundingInterval (m : Nat) (e : Int) : Interval :=
  { low := if m = hidden ∧ leastExponent < e then 4 * m - 1 else 4 * m - 2
    high := 4 * m + 2
    closed := m % 2 == 0 }

/-- What a decimal with the exponent `k` and a number on the scale of quarters
of `2^e` are multiplied by before they are compared. -/
def scales (e k : Int) : Nat × Nat :=
  (Nat.pow 10 k.toNat <<< (2 - e).toNat, Nat.pow 10 (-k).toNat <<< (e - 2).toNat)

/-- The decimal nearest to `m * 2^e` among its two neighbours with exponent `k`
that lie in the interval. -/
def neighbour? (m : Nat) (e k : Int) : Option Nat :=
  let (a, b) := scales e k
  let i := roundingInterval m e
  let inside (d : Nat) : Bool :=
    if i.closed then i.low * b ≤ d * a && d * a ≤ i.high * b
    else i.low * b < d * a && d * a < i.high * b
  let value := 4 * m * b
  let below := value / a
  let above := below + 1
  let toBelow := value - below * a
  let toAbove := above * a - value
  match inside below, inside above with
  | false, false => none
  | true, false => some below
  | false, true => some above
  | true, true =>
    some (if toBelow < toAbove || (toBelow == toAbove && below % 2 == 0) then below else above)

/-- Seventeen digits are enough for every float. -/
def maxDigits : Nat := 17

def stripZeros : Nat → Decimal → Decimal
  | 0, d => d
  | n + 1, d =>
    if d.digits % 10 = 0 then stripZeros n { digits := d.digits / 10, exponent := d.exponent + 1 }
    else d

/-- The shortest decimal that rounds to `m * 2^e`, for positive `m`. -/
def shortest (m : Nat) (e : Int) : Decimal :=
  let first := decimalExponent m e
  let tries := (List.range maxDigits).findSome? fun (n : Nat) =>
    let k := first - n
    (neighbour? m e k).map fun d => stripZeros maxDigits { digits := d, exponent := k }
  tries.getD { digits := m, exponent := e }

/-! ## The smallest float, two neighbours and a whole number -/

example : shortest 1 leastExponent = ⟨5, -324⟩ := by decide +kernel

example : shortest 0x13333333333333 (-54) = ⟨3, -1⟩ := by decide +kernel

example : shortest 0x13333333333334 (-54) = ⟨30000000000000004, -17⟩ := by decide +kernel

example : shortest 0x1C6BF526340000 0 = ⟨8, 15⟩ := by decide +kernel

end Binary64
end Reckon
