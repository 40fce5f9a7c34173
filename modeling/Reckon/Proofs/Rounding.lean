/-
Whole floats.

A whole number of at most fifty-three bits is a float: its significand is the
number with as many zeros behind it as there is room for.  Rounding leaves such
a number as it is, so a sum, a difference or a product of whole floats is exact
as long as it has at most fifty-three bits itself.
-/
import Mathlib

namespace Reckon
namespace Binary64

open Float.Model Float.Model.UnpackedFloat

/-! ## Rounding -/

theorem log2_mul_two_pow {n : Nat} (hn : 0 < n) (k : Nat) : (n * 2 ^ k).log2 = n.log2 + k := by
  induction k with
  | zero => simp
  | succ k ih =>
    have hpos : n * 2 ^ k ≠ 0 := (Nat.mul_pos hn (Nat.two_pow_pos k)).ne'
    rw [pow_succ, ← Nat.mul_assoc, Nat.mul_comm (n * 2 ^ k), Nat.log2_two_mul hpos, ih]
    omega

theorem exists_zeros {n : Nat} (hn : 0 < n) (hfits : n < 2 ^ 53) : ∃ i, n.log2 + i = 52 := by
  have hlog : n.log2 < 53 := (Nat.log2_lt hn.ne').mpr hfits
  exact ⟨52 - n.log2, by omega⟩

/-- Zeros that are shifted out leave no trace. -/
theorem repeat_shiftRightOne (n k : Nat) :
    k.repeat ExtendedMantissa.shiftRightOne ⟨n * 2 ^ k, false, false⟩ = ⟨n, false, false⟩ := by
  induction k generalizing n with
  | zero => simp [Nat.repeat]
  | succ k ih =>
    rw [Nat.repeat, pow_succ', ← Nat.mul_assoc, ih]
    simp [ExtendedMantissa.shiftRightOne]

section

variable {n i : Nat} (hn : 0 < n) (hi : n.log2 + i = 52)
include hn hi

theorem targetExponent_whole (k : Nat) :
    Format.binary64.targetExponent (totalExponent (n * 2 ^ k) (-(k : Int))) = -i := by
  simp only [Format.targetExponent, totalExponent, log2_mul_two_pow hn, Format.mantissaBits,
    Format.minExponent, show ((2 : Int) ^ (11 - 1)) = 1024 from rfl]
  omega

theorem shiftToTargetExponent_whole (j : Nat) :
    shiftToTargetExponent Format.binary64 (n * 2 ^ (i + j)) (-(i + j : Nat)) .exact =
      (⟨n * 2 ^ i, false, false⟩, -(i : Int)) := by
  have hshift : (-(i : Int) - -((i + j : Nat) : Int)).toNat = j := by omega
  have hexponent : -((i + j : Nat) : Int) + (j : Nat) = -i := by omega
  rw [shiftToTargetExponent, targetExponent_whole hn hi, shiftToExponent, hshift]
  simp only [ExtendedMantissa.ofMantissaAndAccuracy, HShiftRight.hShiftRight]
  rw [pow_add, ← Nat.mul_assoc, repeat_shiftRightOne, hexponent]

theorem roundWithAccuracy_whole (s : Sign) (j : Nat) (hpos : 0 < n * 2 ^ i) :
    roundWithAccuracy Format.binary64 s (n * 2 ^ (i + j)) (-(i + j : Nat)) .exact =
      .finite s (n * 2 ^ i) (-i) hpos := by
  have hagain := shiftToTargetExponent_whole hn hi 0
  rw [Nat.add_zero] at hagain
  rw [roundWithAccuracy, shiftToTargetExponent_whole hn hi]
  simp only [ExtendedMantissa.roundedMantissa, ExtendedMantissa.accuracy,
    Accuracy.roundToNearestEven, hagain]
  rw [dif_neg hpos.ne']

theorem round_whole (s : Sign) (k : Nat) (hpos : 0 < n * 2 ^ i) :
    UnpackedFloat.round Format.binary64 s (n * 2 ^ k) (-k) = .finite s (n * 2 ^ i) (-i) hpos := by
  rw [UnpackedFloat.round, targetExponent_whole hn hi]
  rcases Nat.le_total k i with hle | hle
  · obtain ⟨j, rfl⟩ := Nat.exists_eq_add_of_le hle
    have hshift : (-(k : Int) - -((k + j : Nat) : Int)).toNat = j := by omega
    have hexponent : -(k : Int) - (j : Nat) = -((k + j : Nat) : Int) := by omega
    have hround := roundWithAccuracy_whole hn hi s 0 hpos
    simp only [decreaseExponent, hshift, hexponent, Nat.shiftLeft_eq, Nat.mul_assoc, ← pow_add]
    exact hround
  · obtain ⟨j, rfl⟩ := Nat.exists_eq_add_of_le hle
    have hshift : (-((i + j : Nat) : Int) - -(i : Int)).toNat = 0 := by omega
    have hround := roundWithAccuracy_whole hn hi s j hpos
    simp only [decreaseExponent, hshift, Nat.shiftLeft_zero]
    simpa using hround

end

/-! ## Signs and scales -/

theorem apply_neg (s : Sign) (n : Int) : (-s).apply n = -s.apply n := by
  cases s with
  | negative => exact (Int.neg_neg n).symm
  | positive => rfl

theorem apply_mul (s t : Sign) (m n : Int) : (s * t).apply (m * n) = s.apply m * t.apply n := by
  cases s <;> cases t
  · exact (Int.neg_mul_neg m n).symm
  · exact (Int.neg_mul m n).symm
  · exact (Int.mul_neg m n).symm
  · rfl

theorem apply_scale (s : Sign) (m : Nat) (k : Nat) :
    s.apply (m * 2 ^ k : Nat) = s.apply m * 2 ^ k := by
  cases s
  · simp [Sign.apply]
  · simp [Sign.apply]

theorem natAbs_apply (s : Sign) (n : Nat) : (s.apply n).natAbs = n := by
  cases s
  · exact Int.natAbs_neg n
  · rfl

/-- A product has at least as many bits as its factors, less one. -/
theorem log2_add_le {n m : Nat} (hn : 0 < n) (hm : 0 < m) : n.log2 + m.log2 ≤ (n * m).log2 := by
  rw [Nat.le_log2 (Nat.mul_pos hn hm).ne', pow_add]
  exact Nat.mul_le_mul (Nat.log2_self_le hn.ne') (Nat.log2_self_le hm.ne')

/-- Two numbers on the scale of the one with more zeros behind it. -/
theorem decreaseExponent_whole (n : Nat) {i k : Nat} (hik : i ≤ k) :
    (decreaseExponent (n * 2 ^ i) (-i) (-k)).1 = n * 2 ^ k := by
  obtain ⟨j, rfl⟩ := Nat.exists_eq_add_of_le hik
  have hshift : (-(i : Int) - -((i + j : Nat) : Int)).toNat = j := by omega
  simp only [decreaseExponent, hshift, Nat.shiftLeft_eq, Nat.mul_assoc, pow_add]

theorem min_neg_natCast (i j : Nat) : min (-(i : Int)) (-(j : Int)) = -((max i j : Nat) : Int) := by
  omega

/-! ## Whole floats -/

/-- The float is the whole number, written with all fifty-three bits.  Zero has
either sign. -/
inductive Whole : UnpackedFloat → Int → Prop
  | zero (s : Sign) : Whole (.zero s) 0
  | finite (s : Sign) {n i : Nat} (hn : 0 < n) (hi : n.log2 + i = 52) (hpos : 0 < n * 2 ^ i) :
      Whole (.finite s (n * 2 ^ i) (-i) hpos) (s.apply n)

/-- A whole number has at most fifty-three bits. -/
def FitsSignificand (n : Int) : Prop :=
  n.natAbs < 2 ^ 53

namespace Whole

variable {x y : UnpackedFloat} {a b n : Int}

theorem of_round (s : Sign) {n : Nat} (hn : 0 < n) (hfits : n < 2 ^ 53) (k : Nat) :
    Whole (UnpackedFloat.round Format.binary64 s (n * 2 ^ k) (-k)) (s.apply n) := by
  obtain ⟨i, hi⟩ := exists_zeros hn hfits
  have hpos : 0 < n * 2 ^ i := Nat.mul_pos hn (Nat.two_pow_pos i)
  rw [round_whole hn hi s k hpos]
  exact .finite s hn hi hpos

theorem normalize (hn : FitsSignificand n) (k : Nat) (zeroSign : Sign) :
    Whole (UnpackedFloat.normalize Format.binary64 (n * 2 ^ k) (-k) zeroSign) n := by
  unfold FitsSignificand at hn
  have hpow : (0 : Int) < 2 ^ k := Int.pow_pos (by decide)
  rcases Int.lt_trichotomy n 0 with hneg | rfl | hpos
  · have hlt : n * 2 ^ k < 0 := Int.mul_neg_of_neg_of_pos hneg hpow
    obtain ⟨m, rfl⟩ : ∃ m : Nat, n = -m := ⟨n.natAbs, by omega⟩
    have hmantissa : (-(-(m : Int) * 2 ^ k)).toNat = m * 2 ^ k := by
      rw [Int.neg_mul, Int.neg_neg]
      exact_mod_cast Int.toNat_natCast (m * 2 ^ k)
    rw [UnpackedFloat.normalize, compare_lt_iff_lt.mpr hlt]
    simp only [hmantissa]
    exact of_round .negative (by omega) (by omega) k
  · rw [Int.zero_mul]
    exact .zero zeroSign
  · have hgt : 0 < n * 2 ^ k := Int.mul_pos hpos hpow
    obtain ⟨m, rfl⟩ : ∃ m : Nat, n = m := ⟨n.natAbs, by omega⟩
    have hmantissa : ((m : Int) * 2 ^ k).toNat = m * 2 ^ k := by
      exact_mod_cast Int.toNat_natCast (m * 2 ^ k)
    rw [UnpackedFloat.normalize, compare_gt_iff_gt.mpr hgt]
    simp only [hmantissa]
    exact of_round .positive (by omega) (by omega) k

theorem neg (hx : Whole x a) : Whole x.neg (-a) := by
  cases hx with
  | zero s => exact .zero (-s)
  | finite s hn hi hpos => exact apply_neg s _ ▸ .finite (-s) hn hi hpos

theorem add (hx : Whole x a) (hy : Whole y b) (hfits : FitsSignificand (a + b)) :
    Whole (UnpackedFloat.add Format.binary64 x y) (a + b) := by
  cases hx with
  | zero s =>
    cases hy with
    | zero t =>
      unfold UnpackedFloat.add
      dsimp only
      split <;> exact .zero _
    | finite t hn hi hpos =>
      rw [Int.zero_add]
      exact .finite t hn hi hpos
  | @finite s n i hn hi hpos =>
    cases hy with
    | zero t =>
      rw [Int.add_zero]
      exact .finite s hn hi hpos
    | @finite t m j hm hj hpos' =>
      simp only [UnpackedFloat.add, min_neg_natCast, decreaseExponent_whole n (Nat.le_max_left i j),
        decreaseExponent_whole m (Nat.le_max_right i j), apply_scale, ← Int.add_mul]
      exact normalize hfits _ _

theorem sub (hx : Whole x a) (hy : Whole y b) (hfits : FitsSignificand (a - b)) :
    Whole (UnpackedFloat.sub Format.binary64 x y) (a - b) := by
  cases hx with
  | zero s =>
    cases hy with
    | zero t =>
      unfold UnpackedFloat.sub
      dsimp only
      split <;> exact .zero _
    | finite t hn hi hpos =>
      rw [Int.zero_sub]
      exact (Whole.finite t hn hi hpos).neg
  | @finite s n i hn hi hpos =>
    cases hy with
    | zero t =>
      rw [Int.sub_zero]
      exact .finite s hn hi hpos
    | @finite t m j hm hj hpos' =>
      simp only [UnpackedFloat.sub, min_neg_natCast, decreaseExponent_whole n (Nat.le_max_left i j),
        decreaseExponent_whole m (Nat.le_max_right i j), apply_scale, ← Int.sub_mul]
      exact normalize hfits _ _

theorem mul (hx : Whole x a) (hy : Whole y b) (hfits : FitsSignificand (a * b)) :
    Whole (UnpackedFloat.mul Format.binary64 x y) (a * b) := by
  cases hx with
  | zero s =>
    cases hy with
    | zero t => exact .zero _
    | finite t hn hi hpos =>
      rw [Int.zero_mul]
      exact .zero _
  | @finite s n i hn hi hpos =>
    cases hy with
    | zero t =>
      rw [Int.mul_zero]
      exact .zero _
    | @finite t m j hm hj hpos' =>
      rw [← apply_mul, ← Int.natCast_mul] at hfits ⊢
      rw [FitsSignificand, natAbs_apply] at hfits
      have hnm : 0 < n * m := Nat.mul_pos hn hm
      obtain ⟨l, hl⟩ := exists_zeros hnm hfits
      -- The product has more zeros behind it than there is room for.
      have hle := log2_add_le hn hm
      obtain ⟨k, hk⟩ := Nat.exists_eq_add_of_le (show l ≤ i + j by omega)
      have hmantissa : n * 2 ^ i * (m * 2 ^ j) = n * m * 2 ^ (l + k) := by
        rw [← hk, pow_add]
        exact Nat.mul_mul_mul_comm n (2 ^ i) m (2 ^ j)
      have hexponent : -(i : Int) + -(j : Int) = -((l + k : Nat) : Int) := by omega
      have hpos := Nat.mul_pos hnm (Nat.two_pow_pos l)
      simp only [UnpackedFloat.mul, hmantissa, hexponent]
      rw [roundWithAccuracy_whole hnm hl (s * t) k hpos]
      exact .finite (s * t) hnm hl hpos

end Whole

end Binary64
end Reckon
