/-
Numerals from outside.

The numerals of an expression are rows of digits, perhaps with a point.  A tree
put together by hand and a field of a record may hold more: blanks around the
numeral, a sign, digits of any script, single underscores between digits, and
for floats an exponent, an infinity or a NaN.
-/
import Reckon.Binary64.Decoded
import Reckon.Text.Digit

namespace Reckon
namespace Numeral

open Text

/-! ## Plain characters -/

/-- A character in its ASCII form: a blank as a space and a digit as one of the
ten digits.  Other characters beyond ASCII are in no numeral. -/
def plainChar? (c : Char) : Option Char :=
  if c.toNat < 0x80 then some c
  else if isBlank c then some ' '
  else (decimalValue? c).map Nat.digitChar

/-- The spaces that may stand around a numeral.  The information separators are
blanks of the language but not among them. -/
def isSpace (c : Char) : Bool :=
  c == ' ' || ('\t' ≤ c && c ≤ '\r')

def trim (t : Text) : Text :=
  ((t.dropWhile isSpace).reverse.dropWhile isSpace).reverse

/-- Take the underscores out.  Each must stand between two digits. -/
def ungroup? (afterDigit : Bool) : Text → Option Text
  | [] => some []
  | '_' :: c :: t =>
    if afterDigit && isDigit c then (ungroup? true t).map (c :: ·) else none
  | '_' :: [] => none
  | c :: t => (ungroup? (isDigit c) t).map (c :: ·)

/-- A numeral without blanks around it and underscores in it, in ASCII. -/
def plain? (t : Text) : Option Text := do
  ungroup? false (trim (← t.mapM plainChar?))

def splitSign : Text → Bool × Text
  | '-' :: t => (true, t)
  | '+' :: t => (false, t)
  | t => (false, t)

/-! ## Integers -/

def digits? (t : Text) : Option Nat :=
  if t.isEmpty || !t.all isDigit then none else some (digitsValue t)

def signedDigits? (t : Text) : Option Int :=
  let (negative, body) := splitSign t
  (digits? body).map fun n => if negative then -(n : Int) else n

def integer? (t : Text) : Option Int := do
  signedDigits? (← plain? t)

/-! ## Floats -/

/-- The float nearest to `mantissa * 10 ^ exponent`, where the mantissa has at
most `width` digits.  Far from the floats the power is not computed. -/
def ofDecimal (mantissa width : Nat) (exponent : Int) : Float :=
  if mantissa = 0 || width + exponent < -330 then 0.0
  else if 310 < exponent then 1.0 / 0.0
  else Float.ofScientific mantissa (exponent < 0) exponent.natAbs

def unsignedDecimal? (t : Text) : Option Float := do
  let whole := t.takeWhile isDigit
  let (fraction, t) :=
    match t.drop whole.length with
    | '.' :: t => (t.takeWhile isDigit, t.dropWhile isDigit)
    | t => ([], t)
  let digits := whole ++ fraction
  if digits.isEmpty then none
  else
    let exponent ←
      match t with
      | [] => some 0
      | mark :: t => if mark == 'e' || mark == 'E' then signedDigits? t else none
    some (ofDecimal (digitsValue digits) digits.length (exponent - fraction.length))

def unsignedFloat? (t : Text) : Option Float :=
  let word := t.map Char.toLower
  if word == ['i', 'n', 'f'] || word == ['i', 'n', 'f', 'i', 'n', 'i', 't', 'y'] then
    some (1.0 / 0.0)
  else if word == ['n', 'a', 'n'] then some (0.0 / 0.0)
  else unsignedDecimal? t

def signedFloat? (t : Text) : Option Float :=
  let (negative, body) := splitSign t
  (unsignedFloat? body).map fun x => if negative then -x else x

def float? (t : Text) : Option Float := do
  signedFloat? (← plain? t)

end Numeral
end Reckon
