import BoostedTrees.Proofs.Binary64.ReadBack
import Mathlib

namespace BoostedTrees.Binary64

open Float.Model UnpackedFloat

section Parts

variable (b : UInt64)

theorem toNat_mantissa :
    (@unpackMantissa Format.binary64 b.toBitVec).toNat = b.toNat % 4503599627370496 := by
  rw [unpackMantissa, BitVec.toNat_cast, BitVec.extractLsb_toNat, Nat.shiftRight_eq_div_pow]
  simp

theorem toNat_exponent :
    (@unpackExponent Format.binary64 b.toBitVec).toNat = b.toNat / 4503599627370496 % 2048 := by
  rw [unpackExponent, BitVec.toNat_cast, BitVec.extractLsb_toNat, Nat.shiftRight_eq_div_pow]
  simp

theorem toNat_sign :
    (@unpackSign Format.binary64 b.toBitVec).toNat = b.toNat / 9223372036854775808 % 2 := by
  rw [unpackSign, BitVec.toNat_cast, BitVec.extractLsb_toNat, Nat.shiftRight_eq_div_pow]
  simp

end Parts

variable {m : Nat}

theorem toNat_ofMagnitude (hm : m < signBit) (negative : Bool) :
    (ofMagnitude negative m).toNat = (if negative then signBit + m else m) := by
  have hsign : signBit = 9223372036854775808 := rfl
  rw [ofMagnitude, UInt64.toNat_ofNat', Nat.mod_eq_of_lt]
  split <;> omega

theorem not_isNaNBits (hm : m ≤ infinityMagnitude) (negative : Bool) :
    @isNaNBits Format.binary64 (ofMagnitude negative m).toBitVec = false := by
  have hinf : infinityMagnitude = 9218868437227405312 := rfl
  have hsign : signBit = 9223372036854775808 := rfl
  have hbits := toNat_ofMagnitude (by omega : m < signBit) negative
  refine decide_eq_false fun h => ?_
  obtain ⟨hexponent, hmantissa⟩ := h
  have hexponent : (ofMagnitude negative m).toNat / 4503599627370496 % 2048 = 2047 := by
    rw [← toNat_exponent, hexponent]
    rfl
  have hmantissa : (ofMagnitude negative m).toNat % 4503599627370496 ≠ 0 := by
    intro hzero
    exact hmantissa (BitVec.eq_of_toNat_eq ((toNat_mantissa _).trans hzero))
  cases negative with
  | false =>
      rw [if_neg (by simp)] at hbits
      omega
  | true =>
      rw [if_pos rfl] at hbits
      omega

theorem neg_unpack {a b : BitVec Format.binary64.numBits}
    (hexponent : unpackExponent a = unpackExponent b)
    (hmantissa : unpackMantissa a = unpackMantissa b)
    (ha : Sign.ofBitVec (unpackSign a) = .positive)
    (hb : Sign.ofBitVec (unpackSign b) = .negative) :
    (unpack Format.binary64 a).neg = unpack Format.binary64 b := by
  unfold UnpackedFloat.unpack
  simp only [hexponent, hmantissa, ha, hb]
  split
  · split <;> rfl
  · split
    · split <;> rfl
    · rfl

theorem neg_ofMagnitude (hm : m ≤ infinityMagnitude) :
    -Float.ofBits (ofMagnitude false m) = Float.ofBits (ofMagnitude true m) := by
  have hinf : infinityMagnitude = 9218868437227405312 := rfl
  have hsign : signBit = 9223372036854775808 := rfl
  have hpositive := toNat_ofMagnitude (by omega : m < signBit) false
  have hnegative := toNat_ofMagnitude (by omega : m < signBit) true
  rw [if_neg (by simp)] at hpositive
  rw [if_pos rfl] at hnegative
  have hpacked : (unpack Format.binary64 (ofMagnitude false m).toBitVec).pack Format.binary64 =
      (ofMagnitude false m).toBitVec := by
    rw [pack_unpack _ (by decide), not_isNaNBits hm, if_neg (by simp)]
  have hneg : (unpack Format.binary64 (ofMagnitude false m).toBitVec).neg =
      unpack Format.binary64 (ofMagnitude true m).toBitVec := by
    apply neg_unpack
    · apply BitVec.eq_of_toNat_eq
      rw [toNat_exponent, toNat_exponent]
      omega
    · apply BitVec.eq_of_toNat_eq
      rw [toNat_mantissa, toNat_mantissa]
      omega
    · have hzero : @unpackSign Format.binary64 (ofMagnitude false m).toBitVec = 0 := by
        apply BitVec.eq_of_toNat_eq
        rw [toNat_sign, hpositive]
        change m / 9223372036854775808 % 2 = 0
        omega
      rw [hzero]
      rfl
    · have hone : @unpackSign Format.binary64 (ofMagnitude true m).toBitVec = 1 := by
        apply BitVec.eq_of_toNat_eq
        rw [toNat_sign, hnegative]
        change (signBit + m) / 9223372036854775808 % 2 = 1
        omega
      rw [hone]
      rfl
  change Float.ofModel (Float.Model.pack (unpack Format.binary64
    ((unpack Format.binary64 (ofMagnitude false m).toBitVec).pack Format.binary64)).neg) = _
  rw [hpacked, hneg]
  rfl

theorem neg_infinity : -infinity = Float.ofBits (ofMagnitude true infinityMagnitude) :=
  neg_ofMagnitude (Nat.le_refl _)

section Kinds

variable {x : Float}

theorem eq_nan_of_isNaN (h : x.isNaN = true) : x = nan := by
  rw [Float.isNaN_eq_decide_eq_nan, decide_eq_true_eq] at h
  exact h

theorem eq_of_beq {y : Float} (hzero : y ≠ 0) (hneg : y ≠ -0) (h : (x == y) = true) : x = y := by
  obtain ⟨-, -, heq | ⟨-, hy⟩ | ⟨-, hy⟩⟩ := Float.beq_iff_ne_nan_and_eq.mp h
  · exact heq
  · exact absurd hy hneg
  · exact absurd hy hzero

theorem eq_infinity_of_beq (h : (x == infinity) = true) : x = infinity :=
  eq_of_beq (by decide) (by decide) h

theorem eq_neg_infinity_of_beq (h : (x == -infinity) = true) : x = -infinity :=
  eq_of_beq (by decide) (by decide) h

theorem magnitude_lt (hnan : x.isNaN = false) (hinf : (x == infinity) = false)
    (hneg : (x == -infinity) = false) : magnitude x.toBits < infinityMagnitude := by
  rcases Nat.lt_trichotomy (magnitude x.toBits) infinityMagnitude with h | h | h
  · exact h
  · have hx := ofMagnitude_magnitude x.toBits
    rw [h] at hx
    have hx : Float.ofBits (ofMagnitude (isNegative x.toBits) infinityMagnitude) = x := by
      rw [hx, Float.ofBits_toBits]
    cases hsign : isNegative x.toBits with
    | false =>
        rw [hsign] at hx
        rw [← hx] at hinf
        exact absurd hinf (by decide)
    | true =>
        rw [hsign, ← neg_infinity] at hx
        rw [← hx] at hneg
        exact absurd hneg (by decide)
  · rw [eq_nan_of_magnitude h] at hnan
    exact absurd hnan (by decide)

end Kinds

end BoostedTrees.Binary64
