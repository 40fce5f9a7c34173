/-
Arithmetic on 32-bit integers.

Every result is computed exactly and refused if it does not fit.  A quotient is
cut off toward zero, so a remainder has the sign of the dividend.  A function is
computed on floats and its value cut off toward zero.
-/
import Reckon.Arithmetic.Floating

namespace Reckon
namespace Integral

def least : Int := -0x80000000

def greatest : Int := 0x7FFFFFFF

def maxDigits : Nat := 10

/-- No base but 0, 1 and -1 has a power with a greater exponent that fits. -/
def maxExponent : Int := 32

/-- The size from which on an integer is larger than every float: halfway
between the greatest float and the power of two after it. -/
@[irreducible] def beyondFloats : Nat := Nat.pow 2 1024 - Nat.pow 2 970

def InRange (v : Int) : Prop :=
  least ≤ v ∧ v ≤ greatest

instance (v : Int) : Decidable (InRange v) :=
  inferInstanceAs (Decidable (_ ∧ _))

def checked (v : Int) : Except Refusal Int :=
  if InRange v then .ok v else .error (.unrepresentable (.outOfRange v))

/-- The digits of a literal without zeros before them, and one zero if nothing
else is left. -/
def significant (t : Text) : Text :=
  match t.dropWhile (· == '0') with
  | [] => ['0']
  | digits => digits

/-- A literal of too many digits is refused before its value is known. -/
def literal (t : Text) : Except Refusal Int :=
  if t.contains '.' then .error (.unrepresentable (.literalNotInteger t))
  else
    let digits := significant t
    if maxDigits < digits.length then .error (.unrepresentable (.literalTooLong t))
    else
      match Numeral.integer? digits with
      | none => .error (.unreadable .integer digits)
      | some v => checked v

/-- A power, where that of 0, 1 and -1 takes no time however great the exponent
is. -/
def power (base : Int) (exponent : Nat) : Int :=
  if base.natAbs ≤ 1 then
    if exponent = 0 then 1 else if exponent % 2 = 0 then base * base else base
  else Int.pow base exponent

def apply (op : Operation) (x y : Int) : Except Refusal Int :=
  match op with
  | .add => checked (x + y)
  | .subtract => checked (x - y)
  | .multiply => checked (x * y)
  | .divide =>
    if y = 0 then .error (.unrepresentable (.zeroDivisor .divide)) else checked (x.tdiv y)
  | .modulo =>
    if y = 0 then .error (.unrepresentable (.zeroDivisor .modulo)) else checked (x.tmod y)
  | .exponent =>
    if y < 0 then .error (.unrepresentable (.negativeExponent y))
    else if 1 < x.natAbs ∧ maxExponent < y then .error (.unrepresentable (.powerOutOfRange x y))
    else checked (power x y.toNat)

def call (unit : AngleUnit) (f : Function) (x : Int) : Except Refusal Int :=
  if beyondFloats ≤ x.natAbs then .error .beyondFloat
  else
    match Binary64.truncate? (f.onFloats (unit.toRadians (Float.ofInt x))) with
    | none => .error (.unrepresentable (.notFinite f x))
    | some v => checked v

theorem checked_eq_ok {v w : Int} : checked v = .ok w ↔ InRange v ∧ w = v := by
  unfold checked
  split <;> simp_all [eq_comm]

theorem int_pow_zero (base : Int) : Int.pow base 0 = 1 :=
  Int.pow_zero base

theorem int_pow_succ (base : Int) (n : Nat) : Int.pow base (n + 1) = Int.pow base n * base :=
  Int.pow_succ base n

theorem int_zero_pow_succ (n : Nat) : Int.pow 0 (n + 1) = 0 := by
  rw [int_pow_succ, Int.mul_zero]

theorem int_one_pow (n : Nat) : Int.pow 1 n = 1 := by
  induction n with
  | zero => exact int_pow_zero 1
  | succ n ih => rw [int_pow_succ, ih, Int.mul_one]

theorem int_neg_one_pow (n : Nat) : Int.pow (-1) n = if n % 2 = 0 then 1 else -1 := by
  induction n with
  | zero => exact int_pow_zero (-1)
  | succ n ih =>
    rw [int_pow_succ, ih]
    split <;> split <;> omega

theorem power_eq (base : Int) (exponent : Nat) : power base exponent = Int.pow base exponent := by
  unfold power
  split
  · next hbase =>
    have h : base = 0 ∨ base = 1 ∨ base = -1 := by omega
    cases exponent with
    | zero => rw [if_pos rfl, int_pow_zero]
    | succ n =>
      rw [if_neg (Nat.succ_ne_zero n)]
      rcases h with rfl | rfl | rfl
      · rw [int_zero_pow_succ, Int.mul_zero, ite_self]
      · rw [int_one_pow, Int.mul_one, ite_self]
      · exact (int_neg_one_pow (n + 1)).symm
  · rfl

end Integral

def integral (unit : AngleUnit) : Arithmetic Int where
  literal := Integral.literal
  negate x := Integral.checked (-x)
  apply := Integral.apply
  call := Integral.call unit

end Reckon
