/-
Numbers spelled out in a field.

A field takes a text for a number if the text has the plain form of a number.
What may stand around or inside the plain form is taken off first: blanks, a
plus sign, zeros before the first digit, a fraction of zeros, and underscores
between digits.  The parts are taken off in this order and each of them once, so
what one step leaves behind is not looked at again by an earlier one.
-/
import Reckon.Numeral

namespace Reckon
namespace Spelling

open Text

/-! ## Decorations -/

/-- The blanks that may stand around a number, which leave out the four
information separators. -/
def isMargin (c : Char) : Bool :=
  isBlank c && !(0x1C ≤ c.toNat && c.toNat ≤ 0x1F)

def trim (t : Text) : Text :=
  ((t.dropWhile isMargin).reverse.dropWhile isMargin).reverse

def doubled : Text → Bool
  | '_' :: '_' :: _ => true
  | _ :: t => doubled t
  | [] => false

/-- Take the underscores out.  None of them may stand at an end or beside
another; what else is beside them does not matter. -/
def withoutUnderscores? (t : Text) : Option Text :=
  if t.head? == some '_' || t.getLast? == some '_' || doubled t then none
  else some (t.filter (· != '_'))

/-- Take a plus sign off, which no minus sign may follow. -/
def withoutPlus? : Text → Option Text
  | '+' :: '-' :: _ => none
  | '+' :: t => some t
  | t => some t

def isOpening (c : Char) : Bool :=
  c == '-' || isDigit c

/-- What follows zeros, and underscores among them, of which `last` is the last.
It is kept where a point or the end follows. -/
def afterZeros? (last : Char) : Text → Option Text
  | [] => some [last]
  | '.' :: t => some (last :: '.' :: t)
  | c :: t =>
    if c == '0' || c == '_' then afterZeros? c t
    else if isOpening c then some (c :: t)
    else none

/-- Take the zeros off that stand before other digits, if the text begins like a
number.  Zeros after a minus sign stay. -/
def withoutZeros? : Text → Option Text
  | [] => none
  | '0' :: t => afterZeros? '0' t
  | c :: t => if isOpening c then some (c :: t) else none

/-- Take the first point off with all that follows it, if that is one zero or
more. -/
def withoutZeroFraction (t : Text) : Text :=
  let whole := t.takeWhile (· != '.')
  match t.drop whole.length with
  | '.' :: '0' :: zeros => if zeros.all (· == '0') then whole else t
  | _ => t

def undecorated? (t : Text) : Option Text := do
  let t := withoutZeroFraction (← withoutZeros? (← withoutPlus? (trim t)))
  some ((withoutUnderscores? t).getD t)

/-! ## Integers -/

/-- The greatest number of characters that the sign and the digits of an integer
may have. -/
def maxLength : Nat := 4300

def isOverlong (t : Text) : Bool :=
  let (sign, body) :=
    match t with
    | '-' :: t => (1, t)
    | t => (0, t)
  let digits := body.takeWhile isDigit
  digits.head? != some '0' && maxLength < sign + digits.length

/-- An integer in plain form: perhaps a minus sign, and digits. -/
def plainInteger? : Text → Option Int
  | '-' :: t => (Numeral.digits? t).map fun n => -(n : Int)
  | t => (Numeral.digits? t).map fun n => (n : Int)

def integer? (t : Text) : Option Int := do
  let t ← undecorated? t
  if isOverlong t then none else plainInteger? t

/-! ## Floats -/

/-- The float that a text spells, in digits of the language only.  With
underscores inside there may be no blanks around it. -/
def float? (t : Text) : Option Float :=
  match Numeral.signedFloat? (trim t) with
  | some x => some x
  | none => (withoutUnderscores? t).bind Numeral.signedFloat?

/-! ## Known spellings -/

example : integer? " +007.00 ".toList = some 7 := by decide +kernel

example : integer? "1_000.0".toList = some 1000 := by decide +kernel

example : integer? "0-1".toList = some (-1) := by decide +kernel

example : integer? "0__5".toList = some 5 := by decide +kernel

example : integer? "5__0".toList = none := by decide +kernel

example : integer? "0_".toList = none := by decide +kernel

example : integer? "7.".toList = none := by decide +kernel

example : integer? "-07".toList = some (-7) := by decide +kernel

example : integer? "-0_1".toList = some (-1) := by decide +kernel

end Spelling
end Reckon
