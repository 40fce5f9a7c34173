/-
Exact results.

Over 32-bit integers an operation has its exact result or none at all.  What the
exact result is does not depend on how it is computed: a quotient is that of
rational numbers, cut off toward zero, and a power is a power however great it
is.
-/
import Mathlib.Data.Rat.Floor
import Reckon.Proofs.Division
import Reckon.Proofs.Refusals

namespace Reckon

/-! ## Results -/

/-- A rational number cut off toward zero. -/
def towardZero (r : ℚ) : Int :=
  if 0 ≤ r then ⌊r⌋ else ⌈r⌉

/-- The exact result of an operation on integers, where there is one. -/
def Operation.exact? : Operation → Int → Int → Option Int
  | add, x, y => some (x + y)
  | subtract, x, y => some (x - y)
  | multiply, x, y => some (x * y)
  | divide, x, y => if y = 0 then none else some (towardZero (x / y))
  | modulo, x, y => if y = 0 then none else some (x - y * towardZero (x / y))
  | exponent, x, y => if y < 0 then none else some (x ^ y.toNat)

/-! ## Quotients -/

theorem towardZero_neg (r : ℚ) : towardZero (-r) = -towardZero r := by
  unfold towardZero
  by_cases hr : 0 ≤ r
  · by_cases hzero : r = 0
    · simp [hzero]
    · have hneg : ¬0 ≤ -r := by
        rw [neg_nonneg]
        exact fun h => hzero (le_antisymm h hr)
      rw [if_pos hr, if_neg hneg, Int.ceil_neg]
  · have hneg : 0 ≤ -r := neg_nonneg.mpr (le_of_not_ge hr)
    rw [if_neg hr, if_pos hneg, Int.floor_neg]

theorem towardZero_natCast_div (n m : Nat) : towardZero (n / m) = (n / m : Nat) := by
  have hnonneg : (0 : ℚ) ≤ n / m := div_nonneg n.cast_nonneg m.cast_nonneg
  rw [towardZero, if_pos hnonneg]
  exact Rat.floor_intCast_div_natCast n m

theorem towardZero_div (x y : Int) : towardZero (x / y) = Integral.quotient x y := by
  rw [Integral.quotient_eq_tdiv]
  obtain ⟨n, hx⟩ := x.eq_nat_or_neg
  obtain ⟨m, hy⟩ := y.eq_nat_or_neg
  have hsize := towardZero_natCast_div n m
  rcases hx with rfl | rfl <;> rcases hy with rfl | rfl <;>
    simp [neg_div, div_neg, towardZero_neg, hsize, Int.neg_tdiv, Int.tdiv_neg]

namespace Integral

/-! ## Powers -/

theorem InRange.natAbs_le {v : Int} (h : InRange v) : v.natAbs ≤ 2 ^ 31 := by
  unfold InRange least greatest at h
  omega

/-- A power with such an exponent is refused before it is computed, and it would
not have fitted. -/
theorem not_inRange_pow {x : Int} {n : Nat} (hx : 1 < x.natAbs) (hn : 32 < n) :
    ¬InRange (x ^ n) := by
  intro hrange
  have hle := hrange.natAbs_le
  have hlarge : 2 ^ 33 ≤ (x ^ n).natAbs := by
    rw [Int.natAbs_pow]
    calc 2 ^ 33 ≤ x.natAbs ^ 33 := Nat.pow_le_pow_left hx 33
      _ ≤ x.natAbs ^ n := Nat.pow_le_pow_right (by omega) hn
  omega

theorem natAbs_pow_le {x : Int} {n : Nat} (hrange : InRange x) (h : x.natAbs ≤ 1 ∨ n ≤ 32) :
    (x ^ n).natAbs ≤ 2 ^ 992 := by
  have hbits : 992 = 31 * 32 := rfl
  rw [Int.natAbs_pow, hbits, Nat.pow_mul]
  rcases h with hx | hn
  · have hone : x.natAbs ^ n ≤ 1 ^ n := Nat.pow_le_pow_left hx n
    rw [Nat.one_pow] at hone
    omega
  · calc x.natAbs ^ n ≤ (2 ^ 31) ^ n := Nat.pow_le_pow_left hrange.natAbs_le n
      _ ≤ (2 ^ 31) ^ 32 := Nat.pow_le_pow_right (by decide) hn

/-- The power of two integers, with powers taken in the given way. -/
def exponentBy (pow : Int → Nat → Int) (x y : Int) : Except Refusal Int :=
  if y < 0 then .error (.unrepresentable (.negativeExponent y))
  else if 1 < x.natAbs ∧ maxExponent < y then .error (.unrepresentable (.powerOutOfRange x y))
  else checked (pow x y.toNat)

theorem apply_exponent (x y : Int) : apply .exponent x y = exponentBy (· ^ ·) x y := by
  unfold apply exponentBy
  dsimp only
  rw [power_eq]
  rfl

/-- No other power is looked at than one of at most 32 times 31 bits. -/
theorem exponentBy_congr {pow : Int → Nat → Int} {x : Int} (hrange : InRange x) (y : Int)
    (h : ∀ b n, (b ^ n).natAbs ≤ 2 ^ 992 → pow b n = b ^ n) :
    exponentBy pow x y = exponentBy (· ^ ·) x y := by
  unfold exponentBy
  by_cases hneg : y < 0
  · rw [if_pos hneg, if_pos hneg]
  · by_cases hlarge : 1 < x.natAbs ∧ maxExponent < y
    · rw [if_neg hneg, if_neg hneg, if_pos hlarge, if_pos hlarge]
    · have hsmall : x.natAbs ≤ 1 ∨ y.toNat ≤ 32 := by
        unfold maxExponent at hlarge
        omega
      rw [if_neg hneg, if_neg hneg, if_neg hlarge, if_neg hlarge,
        h _ _ (natAbs_pow_le hrange hsmall)]

/-! ## Operations -/

theorem checked_eq_ok_iff {v w : Int} : checked v = .ok w ↔ some v = some w ∧ InRange w := by
  rw [checked_eq_ok, Option.some.injEq]
  constructor
  · rintro ⟨hrange, rfl⟩
    exact ⟨rfl, hrange⟩
  · rintro ⟨rfl, hrange⟩
    exact ⟨hrange, rfl⟩

theorem exponentBy_eq_ok_iff {x y v : Int} :
    exponentBy (· ^ ·) x y = .ok v ↔ Operation.exact? .exponent x y = some v ∧ InRange v := by
  have hexact : Operation.exact? .exponent x y = if y < 0 then none else some (x ^ y.toNat) := rfl
  rw [hexact, exponentBy]
  by_cases hneg : y < 0
  · simp [hneg]
  · rw [if_neg hneg, if_neg hneg]
    by_cases hlarge : 1 < x.natAbs ∧ maxExponent < y
    · rw [if_pos hlarge]
      refine iff_of_false (by simp) ?_
      rintro ⟨hv, hrange⟩
      obtain rfl := Option.some.inj hv
      have hn : 32 < y.toNat := by
        have := hlarge.2
        unfold maxExponent at this
        omega
      exact not_inRange_pow hlarge.1 hn hrange
    · rw [if_neg hlarge]
      exact checked_eq_ok_iff

theorem apply_eq_ok_iff {op : Operation} {x y v : Int} :
    apply op x y = .ok v ↔ op.exact? x y = some v ∧ InRange v := by
  cases op with
  | add | subtract | multiply => exact checked_eq_ok_iff
  | divide =>
    by_cases hy : y = 0
    · simp [apply, Operation.exact?, hy]
    · rw [apply_divide hy, Operation.exact?, if_neg hy, towardZero_div]
      exact checked_eq_ok_iff
  | modulo =>
    by_cases hy : y = 0
    · simp [apply, Operation.exact?, hy]
    · rw [apply_modulo hy, Operation.exact?, if_neg hy, towardZero_div]
      exact checked_eq_ok_iff
  | exponent =>
    rw [apply_exponent]
    exact exponentBy_eq_ok_iff

example : apply .exponent 0 0 = .ok 1 := rfl

/-- An operation has its exact result where there is one that fits in 32 bits,
and is refused otherwise, at the place where it is written.  No power that would
fit is refused for its exponent, and no power of more than 992 bits is asked
for. -/
theorem apply_exact_or_refused (op : Operation) (x y : Int) :
    (∀ v, apply op x y = .ok v ↔ op.exact? x y = some v ∧ InRange v) ∧
    (InRange x → InRange y → (∀ v, op.exact? x y = some v → ¬InRange v) →
      ∀ start expression, ∃ cause,
        Evaluation.place start (apply op x y) = .error (.refused (.unrepresentable cause) start) ∧
        (Fault.refused (.unrepresentable cause) start).failure? expression =
          some (.evaluation cause.message expression (some start))) ∧
    (1 < x.natAbs → maxExponent < y → ¬InRange (x ^ y.toNat)) ∧
    (InRange x → InRange y → ∀ pow : Int → Nat → Int,
      (∀ b n, (b ^ n).natAbs ≤ 2 ^ 992 → pow b n = b ^ n) →
        exponentBy pow x y = apply .exponent x y) := by
  refine ⟨fun v => apply_eq_ok_iff, ?_, ?_, ?_⟩
  · intro _ _ hnone
    have hno : ∀ v, InRange v → apply op x y ≠ .ok v := fun v hrange hv =>
      hnone v (apply_eq_ok_iff.mp hv).1 hrange
    exact (explained_apply op x y).refused hno
  · intro hx hy
    unfold maxExponent at hy
    exact not_inRange_pow hx (by omega)
  · intro hrange _ pow hpow
    rw [apply_exponent]
    exact exponentBy_congr hrange y hpow

/-- The thirty-third power of the least integer is refused without a look at it,
and the thirty-first power of minus two is just the least integer. -/
theorem apply_least_exponent :
    (∃ cause, Evaluation.place 12 (apply .exponent least 33) =
      .error (.refused (.unrepresentable cause) 12)) ∧
    exponentBy (fun b n => if (b ^ n).natAbs ≤ 2 ^ 992 then b ^ n else 0) least 33 =
      apply .exponent least 33 ∧
    apply .exponent (-2) 31 = .ok least := by
  have hleast : InRange least := by decide
  have hexponent : InRange 33 := by decide
  obtain ⟨_, hrefused, hlarge, hpow⟩ := apply_exact_or_refused .exponent least 33
  have hnone : ∀ v, Operation.exact? .exponent least 33 = some v → ¬InRange v := by
    rintro v hv hrange
    obtain rfl := Option.some.inj hv
    exact hlarge (by decide) (by decide) hrange
  obtain ⟨cause, hcause, _⟩ := hrefused hleast hexponent hnone 12 []
  exact ⟨⟨cause, hcause⟩, hpow hleast hexponent _ fun _ _ h => if_pos h,
    ((apply_exact_or_refused .exponent (-2) 31).1 least).mpr ⟨rfl, hleast⟩⟩

end Integral
end Reckon
