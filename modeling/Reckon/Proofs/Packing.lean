/-
The fields of a float.

A bit pattern is three fields behind one another: the sign, the exponent and
the fraction.  `decode` takes them off the number that the pattern is and
`ofFields` puts them together to one, so both agree with packing and unpacking.
-/
import Reckon.Binary64.Remainder
import Reckon.Proofs.Rounding

namespace Reckon
namespace Binary64

open Float.Model Float.Model.UnpackedFloat

/-! ## Taking a pattern apart -/

theorem unpackMantissa_toNat (b : BitVec Format.binary64.numBits) :
    (unpackMantissa b).toNat = b.toNat % hidden := by
  simp [unpackMantissa, hidden]

theorem unpackExponent_toNat (b : BitVec Format.binary64.numBits) :
    (unpackExponent b).toNat = b.toNat / hidden % (topExponent + 1) := by
  simp [unpackExponent, hidden, topExponent, Nat.shiftRight_eq_div_pow]

def isNegative : Sign → Bool
  | .negative => true
  | .positive => false

theorem isNegative_unpackSign (b : BitVec Format.binary64.numBits) :
    isNegative (Sign.ofBitVec (unpackSign b)) = decide (signBit ≤ b.toNat) := by
  have hlt : b.toNat < 2 ^ 64 := b.isLt
  have hsign : (unpackSign b).toNat = b.toNat / 2 ^ 63 := by
    simp only [unpackSign, BitVec.toNat_cast, BitVec.extractLsb_toNat, Nat.shiftRight_eq_div_pow]
    exact Nat.mod_eq_of_lt (by omega)
  unfold Sign.ofBitVec
  split
  · next hzero =>
    rw [hzero] at hsign
    exact (decide_eq_false (by unfold signBit; change 0 = _ at hsign; omega)).symm
  · next hone =>
    have hne : (unpackSign b).toNat ≠ 0 := fun h => hone (BitVec.eq_of_toNat_eq h)
    exact (decide_eq_true (by unfold signBit; omega)).symm

/-- An unpacked float in the form in which the parts of a float are decoded. -/
def Decoded.ofUnpacked : UnpackedFloat → Decoded
  | .notANumber => .nan
  | .infinity s => .infinity (isNegative s)
  | .zero s => .finite (isNegative s) 0 leastExponent
  | .finite s m e _ => .finite (isNegative s) m e

theorem eq_allOnes_iff (e : BitVec 11) : e = -1#11 ↔ e.toNat = topExponent := by
  rw [← BitVec.toNat_inj]
  rfl

theorem eq_zero_iff {w : Nat} (v : BitVec w) : v = 0#_ ↔ v.toNat = 0 := by
  rw [← BitVec.toNat_inj]
  rfl

/-- The leading one stands in front of the fraction. -/
theorem one_append_toNat (f : BitVec 52) :
    (1#1 ++ f).toNat = hidden + f.toNat := by
  rw [BitVec.toNat_append, ← Nat.shiftLeft_add_eq_or_of_lt f.isLt]
  rfl

theorem decode_eq (x : Float) : decode x = .ofUnpacked x.toModel.unpack := by
  unfold decode Float.Model.unpack UnpackedFloat.unpack
  obtain ⟨b, hb⟩ : ∃ b : BitVec Format.binary64.numBits, x.toModel.toBits.toBitVec = b := ⟨_, rfl⟩
  have hbits : x.toBits.toNat = b.toNat := hb ▸ rfl
  simp only [hb, hbits, ← isNegative_unpackSign, ← unpackMantissa_toNat, ← unpackExponent_toNat,
    eq_allOnes_iff, eq_zero_iff]
  by_cases htop : (unpackExponent b).toNat = topExponent
  · simp only [htop, if_true]
    split <;> rfl
  · simp only [htop, if_false]
    by_cases hsubnormal : (unpackExponent b).toNat = 0
    · simp only [hsubnormal, if_true]
      by_cases hzero : (unpackMantissa b).toNat = 0
      · simp only [hzero, dite_true]
        rfl
      · simp only [hzero, dite_false]
        rfl
    · simp only [hsubnormal, if_false, Decoded.ofUnpacked]
      rw [one_append_toNat, show Format.binary64.exponentBias = 1023 from rfl, leastExponent]
      congr 1
      omega

/-! ## Putting a pattern together -/

theorem packComponents_toNat (s : Sign) (e : BitVec 11) (f : BitVec 52) :
    (packComponents Format.binary64 s e f).toNat =
      (if isNegative s then signBit else 0) + e.toNat * hidden + f.toNat := by
  have he : (s.toBitVec ++ e).toNat = (if isNegative s then 2 ^ 11 else 0) + e.toNat := by
    rw [BitVec.toNat_append, ← Nat.shiftLeft_add_eq_or_of_lt e.isLt]
    cases s <;> rfl
  rw [packComponents, BitVec.toNat_append, ← Nat.shiftLeft_add_eq_or_of_lt f.isLt, he,
    Nat.shiftLeft_eq]
  cases s
  · simp [isNegative, signBit, hidden]
    omega
  · simp [isNegative, hidden]

theorem unpack_packComponents (s : Sign) {biased fraction : Nat} (hleast : 0 < biased)
    (htop : biased < topExponent) (hfraction : fraction < hidden) (hpos : 0 < hidden + fraction) :
    UnpackedFloat.unpack Format.binary64 (packComponents Format.binary64 s (BitVec.ofNat 11 biased)
      (BitVec.ofNat 52 fraction)) =
      .finite s (hidden + fraction) (biased - 1075) hpos := by
  have he : (BitVec.ofNat 11 biased).toNat = biased := by
    unfold topExponent at htop
    exact Nat.mod_eq_of_lt (by omega)
  have hf : (BitVec.ofNat 52 fraction).toNat = fraction := Nat.mod_eq_of_lt hfraction
  unfold UnpackedFloat.unpack
  simp only [unpackMantissa_packComponents, unpackExponent_packComponents,
    unpackSign_packComponents, Sign.ofBitVec_toBitVec, eq_allOnes_iff, eq_zero_iff,
    one_append_toNat, he, hf, htop.ne, hleast.ne', if_false]
  rfl

/-! ## Whole floats -/

theorem hidden_le_of_log2 {m : Nat} (h : m.log2 = fractionBits) : hidden ≤ m ∧ m < 2 * hidden := by
  have hm : m ≠ 0 := by
    rintro rfl
    cases h
  exact (Nat.log2_eq_iff hm).mp h

theorem log2_whole {n i : Nat} (hn : 0 < n) (hi : n.log2 + i = 52) :
    (n * 2 ^ i).log2 = fractionBits :=
  (log2_mul_two_pow hn i).trans hi

theorem pack_whole (s : Sign) {n i : Nat} (hn : 0 < n) (hi : n.log2 + i = 52)
    (hpos : 0 < n * 2 ^ i) :
    UnpackedFloat.pack Format.binary64 (.finite s (n * 2 ^ i) (-i) hpos) =
      packComponents Format.binary64 s (BitVec.ofNat 11 (1075 - i))
        (BitVec.ofNat 52 (n * 2 ^ i - hidden)) := by
  have hlog := log2_whole hn hi
  obtain ⟨hle, hlt⟩ := hidden_le_of_log2 hlog
  have hbiased : (-(i : Int) + (1023 : Nat) + (52 : Nat)).toNat = 1075 - i := by omega
  have hfraction : BitVec.ofNat 52 (n * 2 ^ i) = BitVec.ofNat 52 (n * 2 ^ i - hidden) := by
    apply BitVec.eq_of_toNat_eq
    rw [BitVec.toNat_ofNat, BitVec.toNat_ofNat]
    unfold hidden at hle ⊢
    omega
  have hroom : ¬2 ^ 11 ≤ 1075 - i + 1 := by omega
  simp only [UnpackedFloat.pack, show Format.binary64.exponentBias = 1023 from rfl, hbiased,
    hroom, if_false, hlog, hfraction]
  rfl

theorem unpack_whole (s : Sign) {n i : Nat} (hn : 0 < n) (hi : n.log2 + i = 52)
    (hpos : 0 < n * 2 ^ i) :
    UnpackedFloat.unpack Format.binary64
      (packComponents Format.binary64 s (BitVec.ofNat 11 (1075 - i))
        (BitVec.ofNat 52 (n * 2 ^ i - hidden))) =
      .finite s (n * 2 ^ i) (-i) hpos := by
  obtain ⟨hle, hlt⟩ := hidden_le_of_log2 (log2_whole hn hi)
  have hsignificand : hidden + (n * 2 ^ i - hidden) = n * 2 ^ i := by omega
  have hexponent : ((1075 - i : Nat) : Int) - 1075 = -i := by omega
  rw [unpack_packComponents s (by omega) (by unfold topExponent; omega) (by omega) (by omega)]
  simp only [hsignificand, hexponent]

/-- Nothing of a whole float is lost in a pattern. -/
theorem Whole.unpack_pack {u : UnpackedFloat} {n : Int} (h : Whole u n) :
    (Float.Model.pack u).unpack = u := by
  cases h with
  | zero s => exact unpack_packedZero
  | finite s hn hi hpos =>
    show UnpackedFloat.unpack _ (UnpackedFloat.pack _ _) = _
    rw [pack_whole s hn hi, unpack_whole s hn hi hpos]

/-- The float is the whole number. -/
def IsWhole (x : Float) (n : Int) : Prop :=
  Whole x.toModel.unpack n

theorem isWhole_of_pack {x : Float} {u : UnpackedFloat} {n : Int}
    (hx : x.toModel = Float.Model.pack u) (h : Whole u n) : IsWhole x n := by
  rw [IsWhole, hx, h.unpack_pack]
  exact h

namespace IsWhole

variable {x y : Float} {a b : Int}

theorem neg (hx : IsWhole x a) : IsWhole (-x) (-a) :=
  isWhole_of_pack rfl (Whole.neg hx)

theorem add (hx : IsWhole x a) (hy : IsWhole y b) (hfits : FitsSignificand (a + b)) :
    IsWhole (x + y) (a + b) :=
  isWhole_of_pack rfl (Whole.add hx hy hfits)

theorem sub (hx : IsWhole x a) (hy : IsWhole y b) (hfits : FitsSignificand (a - b)) :
    IsWhole (x - y) (a - b) :=
  isWhole_of_pack rfl (Whole.sub hx hy hfits)

theorem mul (hx : IsWhole x a) (hy : IsWhole y b) (hfits : FitsSignificand (a * b)) :
    IsWhole (x * y) (a * b) :=
  isWhole_of_pack rfl (Whole.mul hx hy hfits)

theorem isInf_eq_false (hx : IsWhole x a) : x.isInf = false := by
  unfold IsWhole at hx
  show x.toModel.unpack.isInf = false
  generalize x.toModel.unpack = u at hx ⊢
  cases hx <;> rfl

end IsWhole

/-! ## Encoding -/

def signOf (negative : Bool) : Sign :=
  if negative then .negative else .positive

theorem signOf_isNegative (s : Sign) : signOf (isNegative s) = s := by
  cases s <;> rfl

theorem isNegative_signOf (negative : Bool) : isNegative (signOf negative) = negative := by
  cases negative <;> rfl

theorem toBitVec_ofFields (negative : Bool) {biased fraction : Nat} (hbiased : biased ≤ topExponent)
    (hfraction : fraction < hidden) :
    (UInt64.ofNat ((if negative then signBit else 0) + biased * hidden + fraction)).toBitVec =
      packComponents Format.binary64 (signOf negative) (BitVec.ofNat 11 biased)
        (BitVec.ofNat 52 fraction) := by
  have hsign : (if negative then signBit else 0) ≤ signBit := by
    split
    · exact Nat.le_refl _
    · exact Nat.zero_le _
  have hpattern := Nat.mul_le_mul_right hidden hbiased
  unfold topExponent signBit hidden at *
  apply BitVec.eq_of_toNat_eq
  rw [packComponents_toNat, isNegative_signOf, UInt64.toNat_toBitVec, UInt64.toNat_ofNat',
    BitVec.toNat_ofNat, BitVec.toNat_ofNat, Nat.mod_eq_of_lt, Nat.mod_eq_of_lt, Nat.mod_eq_of_lt]
  · rfl
  · exact hfraction
  · omega
  · omega

theorem isWhole_of_ofFields (negative : Bool) {biased fraction : Nat} {u : UnpackedFloat} {n : Int}
    (hbiased : biased ≤ topExponent) (hfraction : fraction < hidden)
    (hunpack : UnpackedFloat.unpack Format.binary64
      (packComponents Format.binary64 (signOf negative) (BitVec.ofNat 11 biased)
        (BitVec.ofNat 52 fraction)) = u) (h : Whole u n) :
    IsWhole (ofFields negative biased fraction) n := by
  refine isWhole_of_pack ?_ h
  show Float.Model.pack (UnpackedFloat.unpack Format.binary64 (UInt64.ofNat _).toBitVec) = _
  rw [toBitVec_ofFields negative hbiased hfraction, hunpack]

theorem isWhole_zero (negative : Bool) : IsWhole (zero negative) 0 :=
  isWhole_of_ofFields negative (Nat.zero_le _) (by decide) unpack_packedZero (.zero _)

theorem isWhole_encode (negative : Bool) {n k : Nat} (hfits : n * 2 ^ k < 2 ^ 53) (hk : k ≤ 52) :
    IsWhole (encode negative (n * 2 ^ k) (-k)) ((signOf negative).apply n) := by
  rcases Nat.eq_zero_or_pos n with rfl | hn
  · rw [Nat.zero_mul, encode, if_pos rfl]
    cases negative
    · exact isWhole_zero false
    · exact isWhole_zero true
  · have hpos : 0 < n * 2 ^ k := Nat.mul_pos hn (Nat.two_pow_pos k)
    obtain ⟨j, hj⟩ := exists_zeros hpos hfits
    rw [log2_mul_two_pow hn, Nat.add_assoc] at hj
    obtain ⟨hle, hlt⟩ := hidden_le_of_log2 (log2_whole hn hj)
    have hshift : min (52 - (n.log2 + k)) (-(k : Int) - -1074).toNat = j := by omega
    have hbiased : (-(k : Int) - (j : Nat) - -1074).toNat + 1 = 1075 - (k + j) := by omega
    have hscaled : n * 2 ^ k * 2 ^ j = n * 2 ^ (k + j) := by rw [Nat.mul_assoc, ← pow_add]
    rw [encode, if_neg hpos.ne']
    simp only [fractionBits, leastExponent, log2_mul_two_pow hn, hshift, hbiased,
      Nat.shiftLeft_eq, hscaled]
    rw [if_neg (Nat.not_lt.mpr hle)]
    exact isWhole_of_ofFields negative (by unfold topExponent; omega) (by omega)
      (unpack_whole _ hn hj (by omega)) (.finite _ hn hj _)

/-! ## Natural numbers -/

theorem isWhole_one : IsWhole (Float.ofBits 0x3FF0000000000000) 1 := by
  have hlog : Nat.log2 1 + 52 = 52 := by decide
  have hpos : 0 < 1 * 2 ^ 52 := by decide
  have hbits : Float.ofBits 0x3FF0000000000000 = ofFields false (1075 - 52) (1 * 2 ^ 52 - hidden) :=
    congrArg Float.ofBits (by decide)
  rw [hbits]
  exact isWhole_of_ofFields false (by decide) (by decide)
    (unpack_whole .positive Nat.one_pos hlog hpos) (.finite .positive Nat.one_pos hlog hpos)

theorem isWhole_toFloat {n : Nat} (hfits : n < 2 ^ 53) : IsWhole n.toUInt64.toFloat n := by
  have hn : n.toUInt64.toNat = n := Nat.mod_eq_of_lt (by omega)
  have hwhole := Whole.normalize (n := n) hfits 0 .positive
  refine isWhole_of_pack (u := UnpackedFloat.ofUInt64 Format.binary64 n.toUInt64) rfl ?_
  unfold UnpackedFloat.ofUInt64 UnpackedFloat.ofNat UnpackedFloat.ofInt
  rw [hn]
  simpa using hwhole

theorem isWhole_ofScientific {n : Nat} (hfits : n < 2 ^ 53) :
    IsWhole (Float.ofScientific n false 0) n := by
  rw [Float.ofScientific, dif_pos ⟨hfits, Nat.zero_le _⟩]
  have hproduct := (isWhole_toFloat hfits).mul isWhole_one (by simpa [FitsSignificand] using hfits)
  rw [Int.mul_one] at hproduct
  exact hproduct

theorem isWhole_decimal_zero : IsWhole 0.0 0 :=
  isWhole_of_pack (u := .zero .positive) (by decide +kernel) (.zero .positive)

/-! ## Remainders -/

theorem scaledRemainder_whole (n i m j : Nat) :
    scaledRemainder (n * 2 ^ i) (-i) (m * 2 ^ j) (-j) =
      (n % m * 2 ^ max i j, -((max i j : Nat) : Int)) := by
  have hleft : n * 2 ^ i * 2 ^ (-(i : Int) - -((max i j : Nat) : Int)).toNat =
      n * 2 ^ max i j := by
    rw [Nat.mul_assoc, ← pow_add]
    congr 2
    omega
  have hright : m * 2 ^ j * 2 ^ (-(j : Int) - -((max i j : Nat) : Int)).toNat =
      m * 2 ^ max i j := by
    rw [Nat.mul_assoc, ← pow_add]
    congr 2
    omega
  simp only [scaledRemainder, min_neg_natCast, Nat.shiftLeft_eq, hleft, hright,
    Nat.mul_mod_mul_right]

/-- On the common scale a remainder is below the significand of one of the two
operands. -/
theorem scaledRemainder_lt {n i m j : Nat} (hn : 0 < n) (hi : n.log2 + i = 52) (hm : 0 < m)
    (hj : m.log2 + j = 52) : n % m * 2 ^ max i j < 2 ^ 53 := by
  have hleft := (hidden_le_of_log2 (log2_whole hn hi)).2
  have hright := (hidden_le_of_log2 (log2_whole hm hj)).2
  unfold hidden at hleft hright
  rcases Nat.le_total i j with hle | hle
  · rw [Nat.max_eq_right hle]
    have hmod := Nat.mul_le_mul_right (2 ^ j) (Nat.mod_lt n hm).le
    omega
  · rw [Nat.max_eq_left hle]
    have hmod := Nat.mul_le_mul_right (2 ^ i) (Nat.mod_le n m)
    omega

theorem apply_tmod (s t : Sign) (n m : Nat) :
    s.apply (n % m : Nat) = (s.apply n).tmod (t.apply m) := by
  rw [Int.ofNat_tmod]
  cases s <;> cases t <;> simp only [Sign.apply, Int.neg_tmod, Int.tmod_neg]

theorem IsWhole.remainder {x y : Float} {a b : Int} (hx : IsWhole x a) (hy : IsWhole y b)
    (hb : b ≠ 0) : IsWhole (remainder x y) (a.tmod b) := by
  unfold IsWhole at hx hy
  unfold Binary64.remainder
  rw [decode_eq, decode_eq]
  generalize x.toModel.unpack = u at hx
  generalize y.toModel.unpack = v at hy
  cases hy with
  | zero t => exact absurd rfl hb
  | @finite t m j hm hj hmpos =>
    cases hx with
    | zero s =>
      simp only [Decoded.ofUnpacked, hmpos.ne', if_false, scaledRemainder, Nat.zero_shiftLeft,
        Nat.zero_mod, Int.zero_tmod]
      exact isWhole_zero _
    | @finite s n i hn hi hnpos =>
      have hk : max i j ≤ 52 := by omega
      have hencode := isWhole_encode (isNegative s) (scaledRemainder_lt hn hi hm hj) hk
      rw [signOf_isNegative] at hencode
      simp only [Decoded.ofUnpacked, hmpos.ne', if_false, scaledRemainder_whole]
      rw [← apply_tmod s t]
      exact hencode

/-! ## Values -/

/-- The number that is decoded, if it is one. -/
def Decoded.value? : Decoded → Option ℚ
  | nan | infinity _ => none
  | finite negative significand exponent =>
    some ((if negative then -1 else 1) * significand * 2 ^ exponent)

/-- The number that a float is.  Both zeros are 0. -/
def value? (x : Float) : Option ℚ :=
  (decode x).value?

theorem IsWhole.value?_eq {x : Float} {n : Int} (h : IsWhole x n) : value? x = some (n : ℚ) := by
  unfold IsWhole at h
  rw [value?, decode_eq]
  generalize x.toModel.unpack = u at h
  cases h with
  | zero s => simp [Decoded.ofUnpacked, Decoded.value?]
  | @finite s n i hn hi hpos =>
    have hscale : (2 : ℚ) ^ i * (2 ^ i)⁻¹ = 1 := mul_inv_cancel₀ (by simp)
    have hvalue : ((n * 2 ^ i : Nat) : ℚ) * 2 ^ (-(i : Int)) = n := by
      rw [zpow_neg, zpow_natCast, Nat.cast_mul, Nat.cast_pow, Nat.cast_ofNat, mul_assoc, hscale,
        mul_one]
    simp only [Decoded.ofUnpacked, Decoded.value?, mul_assoc, hvalue]
    cases s <;> simp [isNegative, Sign.apply]

end Binary64
end Reckon
