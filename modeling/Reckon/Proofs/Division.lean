/-
Quotients and remainders of integers.

The quotient is that of the sizes, negative where the signs of the operands
differ, and the remainder is what it leaves over.  No other pair has a remainder
that is smaller than the divisor and of the sign of the dividend.
-/
import Reckon.Arithmetic.Integral

namespace Reckon
namespace Integral

/-! ## Quotients -/

def quotient (x y : Int) : Int :=
  let size : Int := (x.natAbs / y.natAbs : Nat)
  if x < 0 ↔ y < 0 then size else -size

def remainder (x y : Int) : Int :=
  x - y * quotient x y

/-- The sign rule is also right where the dividend or the divisor is zero. -/
theorem quotient_eq_tdiv (x y : Int) : quotient x y = x.tdiv y := by
  have hsize : ((x.natAbs / y.natAbs : Nat) : Int) = (x.natAbs : Int).tdiv y.natAbs :=
    Int.ofNat_tdiv _ _
  unfold quotient
  rw [hsize]
  by_cases hx : x < 0
  · have hx' : (x.natAbs : Int) = -x := by omega
    by_cases hy : y < 0
    · have hy' : (y.natAbs : Int) = -y := by omega
      simp [hx, hy, hx', hy', Int.neg_tdiv, Int.tdiv_neg]
    · have hy' : (y.natAbs : Int) = y := by omega
      simp [hx, hy, hx', hy', Int.neg_tdiv]
  · have hx' : (x.natAbs : Int) = x := by omega
    by_cases hy : y < 0
    · have hy' : (y.natAbs : Int) = -y := by omega
      simp [hx, hy, hx', hy', Int.tdiv_neg]
    · have hy' : (y.natAbs : Int) = y := by omega
      simp [hx, hy, hx', hy']

theorem remainder_eq_tmod (x y : Int) : remainder x y = x.tmod y := by
  rw [remainder, quotient_eq_tdiv, Int.tmod_def]

theorem apply_divide {x y : Int} (hy : y ≠ 0) : apply .divide x y = checked (quotient x y) := by
  rw [quotient_eq_tdiv]
  exact if_neg hy

theorem apply_modulo {x y : Int} (hy : y ≠ 0) : apply .modulo x y = checked (remainder x y) := by
  rw [remainder_eq_tmod]
  exact if_neg hy

/-! ## Divisions -/

/-- A quotient with what it leaves over, as far as the quotient is cut off toward
zero. -/
structure IsDivision (x y q m : Int) : Prop where
  eq : x = y * q + m
  lt : m.natAbs < y.natAbs
  sign : m = 0 ∨ m.sign = x.sign

theorem isDivision (x : Int) {y : Int} (hy : y ≠ 0) :
    IsDivision x y (quotient x y) (remainder x y) where
  eq := by
    unfold remainder
    omega
  lt := by
    rw [remainder_eq_tmod, Int.natAbs_tmod]
    exact Nat.mod_lt _ (by omega)
  sign := by
    rw [remainder_eq_tmod, Int.sign_tmod]
    by_cases hdvd : y ∣ x
    · exact .inl (Int.tmod_eq_zero_of_dvd hdvd)
    · exact .inr (if_neg hdvd)

theorem IsDivision.nonneg {x y q m : Int} (h : IsDivision x y q m) (hx : 0 ≤ x) : 0 ≤ m := by
  rcases h.sign with hzero | hsign
  · omega
  · rw [← Int.sign_nonneg_iff] at hx ⊢
    omega

theorem IsDivision.nonpos {x y q m : Int} (h : IsDivision x y q m) (hx : x ≤ 0) : m ≤ 0 := by
  rcases h.sign with hzero | hsign
  · omega
  · rw [← Int.sign_nonpos_iff] at hx ⊢
    omega

theorem IsDivision.unique {x y q m q' m' : Int} (h : IsDivision x y q m)
    (h' : IsDivision x y q' m') : q = q' ∧ m = m' := by
  have hlt := h.lt
  have hlt' := h'.lt
  have heq : y * q + m = y * q' + m' := h.eq.symm.trans h'.eq
  have hdvd : y ∣ m - m' := by
    refine ⟨q' - q, ?_⟩
    rw [Int.mul_sub]
    omega
  -- Both remainders lie on one side of zero.
  have hclose : (m - m').natAbs < y.natAbs := by
    by_cases hx : 0 ≤ x
    · have hm := h.nonneg hx
      have hm' := h'.nonneg hx
      omega
    · have hm := h.nonpos (by omega)
      have hm' := h'.nonpos (by omega)
      omega
  have hzero := Int.eq_zero_of_dvd_of_natAbs_lt_natAbs hdvd hclose
  have hy : y ≠ 0 := by omega
  exact ⟨Int.eq_of_mul_eq_mul_left hy (by omega), by omega⟩

/-! ## Divisions of 32-bit integers -/

theorem inRange_remainder {x y : Int} (hy : y ≠ 0) (hrange : InRange y) :
    InRange (remainder x y) := by
  have hlt := (isDivision x hy).lt
  unfold InRange least greatest at hrange ⊢
  omega

/-- Only the opposite of the least integer does not fit. -/
theorem inRange_quotient_iff {x y : Int} (hy : y ≠ 0) (hrange : InRange x) :
    InRange (quotient x y) ↔ ¬(x = least ∧ y = -1) := by
  have hsize : (quotient x y).natAbs = x.natAbs / y.natAbs := by
    rw [quotient_eq_tdiv, Int.natAbs_tdiv]
    rfl
  by_cases hone : y = 1
  · subst hone
    simpa [quotient_eq_tdiv] using hrange
  · by_cases hminus : y = -1
    · subst hminus
      rw [quotient_eq_tdiv, Int.tdiv_neg, Int.tdiv_one]
      unfold InRange least greatest at hrange ⊢
      omega
    · have hhalf : x.natAbs / y.natAbs ≤ x.natAbs / 2 := Nat.div_le_div_left (by omega) (by decide)
      refine iff_of_true ?_ fun h => hminus h.2
      unfold InRange least greatest at hrange ⊢
      omega

theorem divide_eq_of_inRange {x y : Int} (hy : y ≠ 0) (hrange : InRange x) :
    apply .divide x y =
      if x = least ∧ y = -1 then .error (.unrepresentable (.outOfRange 0x80000000))
      else .ok (quotient x y) := by
  rw [apply_divide hy, checked]
  by_cases h : x = least ∧ y = -1
  · rw [if_neg (by rw [inRange_quotient_iff hy hrange]; exact not_not_intro h), if_pos h, h.1, h.2]
    rfl
  · rw [if_pos ((inRange_quotient_iff hy hrange).mpr h), if_neg h]

/-- Quotient and remainder are the only pair that makes a division, and a change
of sign changes them as it changes the operands.  On 32-bit integers the
remainder always fits, and the quotient does but for one pair of operands. -/
theorem division_determined {x y : Int} (hy : y ≠ 0) :
    (∀ q m, IsDivision x y q m ↔ q = quotient x y ∧ m = remainder x y) ∧
    (quotient (-x) y = -quotient x y ∧ quotient x (-y) = -quotient x y) ∧
    (remainder (-x) y = -remainder x y ∧ remainder x (-y) = remainder x y) ∧
    (apply .divide x y = checked (quotient x y) ∧ apply .modulo x y = checked (remainder x y)) ∧
    (InRange x → InRange y →
      apply .modulo x y = .ok (remainder x y) ∧
      apply .divide x y =
        if x = least ∧ y = -1 then .error (.unrepresentable (.outOfRange 0x80000000))
        else .ok (quotient x y)) := by
  refine ⟨fun q m => ⟨fun h => h.unique (isDivision x hy), ?_⟩, ?_, ?_, ?_, fun hx hrange => ?_⟩
  · rintro ⟨rfl, rfl⟩
    exact isDivision x hy
  · simp only [quotient_eq_tdiv]
    exact ⟨Int.neg_tdiv x y, Int.tdiv_neg x y⟩
  · simp only [remainder_eq_tmod]
    exact ⟨Int.neg_tmod x y, Int.tmod_neg x y⟩
  · exact ⟨apply_divide hy, apply_modulo hy⟩
  · rw [apply_modulo hy]
    exact ⟨checked_eq_ok.mpr ⟨inRange_remainder hy hrange, rfl⟩, divide_eq_of_inRange hy hx⟩

/-- The least integer has no opposite, but it has a remainder by minus one. -/
theorem division_least_minus_one :
    InRange least ∧ InRange (-1) ∧ apply .modulo least (-1) = .ok 0 ∧
      apply .divide least (-1) = .error (.unrepresentable (.outOfRange 0x80000000)) := by
  have hleast : InRange least := by decide
  have hone : InRange (-1) := by decide
  obtain ⟨_, _, _, _, hrange⟩ := @division_determined least (-1) (by decide)
  obtain ⟨hmodulo, hdivide⟩ := hrange hleast hone
  exact ⟨hleast, hone, hmodulo, hdivide⟩

end Integral
end Reckon
