/-
Floats as texts.

The digits are the shortest that read back.  A layout says which numbers are
written positionally; all others are written with one digit before the point
and an exponent.
-/
import Reckon.Binary64.Shortest

namespace Reckon
namespace Binary64

structure Layout where
  /-- The least and the greatest exponent of a first digit that is written
  positionally. -/
  leastPositional : Int
  mostPositional : Int
  exponentWidth : Nat

/-- Positional from 0.0001 up to below 10^16, and at least two digits in an
exponent. -/
def layout : Layout :=
  { leastPositional := -4, mostPositional := 15, exponentWidth := 2 }

/-- The first digit stands for `10 ^ first`.  A whole number keeps a zero after
the point. -/
def positional (digits : List Char) (first : Int) : List Char :=
  if first < 0 then
    ['0', '.'] ++ List.replicate (-first - 1).toNat '0' ++ digits
  else
    let whole := first.toNat + 1
    let fraction := digits.drop whole
    digits.take whole ++ List.replicate (whole - digits.length) '0' ++ '.' ::
      (if fraction.isEmpty then ['0'] else fraction)

def scientific (layout : Layout) (digits : List Char) (first : Int) : List Char :=
  let exponent := Nat.toDigits 10 first.natAbs
  let fraction := digits.drop 1
  digits.take 1 ++ (if fraction.isEmpty then [] else '.' :: fraction) ++
    ['e', if first < 0 then '-' else '+'] ++
    List.replicate (layout.exponentWidth - exponent.length) '0' ++ exponent

def Decimal.text (layout : Layout) (d : Decimal) : List Char :=
  let digits := Nat.toDigits 10 d.digits
  let first := d.exponent + digits.length - 1
  if layout.leastPositional ≤ first ∧ first ≤ layout.mostPositional then positional digits first
  else scientific layout digits first

example : Decimal.text layout ⟨1, 15⟩ = "1000000000000000.0".toList := by decide +kernel

example : Decimal.text layout ⟨1, 16⟩ = "1e+16".toList := by decide +kernel

example : Decimal.text layout ⟨125, -6⟩ = "0.000125".toList := by decide +kernel

example : Decimal.text layout ⟨125, -7⟩ = "1.25e-05".toList := by decide +kernel

def signed (negative : Bool) (text : List Char) : List Char :=
  if negative then '-' :: text else text

def Decoded.text : Decoded → List Char
  | .nan => ['n', 'a', 'n']
  | .infinity negative => signed negative ['i', 'n', 'f']
  | .finite negative 0 _ => signed negative ['0', '.', '0']
  | .finite negative m e => signed negative ((shortest m e).text layout)

def text (x : Float) : List Char :=
  (decode x).text

end Binary64
end Reckon
