/-
The remainder of the truncated division of floats.

The quotient is cut off toward zero, so the remainder is smaller than the
divisor and has the sign of the dividend.  It always is a float: on the common
scale of the two operands it is a remainder of natural numbers, and one of them
is a significand.
-/
import Reckon.Binary64.Decoded

namespace Reckon
namespace Binary64

/-- The remainder of `m * 2^e` by `n * 2^f`, as a multiple of the smaller of the
two powers of two. -/
def scaledRemainder (m : Nat) (e : Int) (n : Nat) (f : Int) : Nat × Int :=
  let scale := min e f
  ((m <<< (e - scale).toNat) % (n <<< (f - scale).toNat), scale)

/-- An infinite dividend and a zero divisor have no remainder, and an infinite
divisor leaves the dividend as it is.  A zero remainder has the sign of the
dividend as well. -/
def remainder (x y : Float) : Float :=
  match decode x, decode y with
  | .finite negative m e, .finite _ n f =>
    if n = 0 then 0.0 / 0.0
    else
      let r := scaledRemainder m e n f
      encode negative r.1 r.2
  | .finite .., .infinity _ => x
  | _, _ => 0.0 / 0.0

end Binary64
end Reckon
