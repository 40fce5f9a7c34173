/-
Arithmetic on 64-bit floats.

Every operation has a value: a division by zero and a power out of range are
infinite, and what has no value at all is a NaN.  Only a literal that reads as
an infinite float is refused.
-/
import Reckon.Arithmetic.Basic
import Reckon.Binary64.Remainder
import Reckon.Numeral

namespace Reckon

def Operation.onFloats : Operation → Float → Float → Float
  | add, x, y => x + y
  | subtract, x, y => x - y
  | multiply, x, y => x * y
  | divide, x, y => x / y
  | exponent, x, y => Float.pow x y
  | modulo, x, y => Binary64.remainder x y

def Function.onFloats : Function → Float → Float
  | sin => Float.sin
  | cos => Float.cos
  | tan => Float.tan
  | asin => Float.asin
  | acos => Float.acos
  | atan => Float.atan
  | sinh => Float.sinh
  | cosh => Float.cosh
  | tanh => Float.tanh
  | asinh => Float.asinh
  | acosh => Float.acosh
  | atanh => Float.atanh

namespace Floating

def literal (t : Text) : Except Refusal Float :=
  match Numeral.float? t with
  | none => .error (.unreadable .float t)
  | some x => if x.isInf then .error (.unrepresentable (.literalTooLarge t)) else .ok x

end Floating

def floating (unit : AngleUnit) : Arithmetic Float where
  literal := Floating.literal
  negate x := .ok (-x)
  apply op x y := .ok (op.onFloats x y)
  call f x := .ok (f.onFloats (unit.toRadians x))

end Reckon
