import BoostedTrees.Proofs.Binary64.Signs
import Mathlib

namespace BoostedTrees.Binary64

open Float.Model UnpackedFloat

def Dyadic.magnitude (x : Dyadic) : Nat :=
  (x.exponent - leastExponent).toNat * 2 ^ 52 + x.significand

def signOf (negative : Bool) : Sign := if negative then .negative else .positive

inductive Unpacks : UnpackedFloat → Bool → Nat → Prop
  | infinity (negative : Bool) : Unpacks (.infinity (signOf negative)) negative infinityMagnitude
  | zero (negative : Bool) : Unpacks (.zero (signOf negative)) negative 0
  | finite (negative : Bool) {m : Nat} {e : ℤ} (hpos : 0 < m)
      (hnormal : (⟨m, e⟩ : Dyadic).Normal)
      (hbelow : (⟨m, e⟩ : Dyadic).magnitude < infinityMagnitude) :
      Unpacks (.finite (signOf negative) m e hpos) negative (⟨m, e⟩ : Dyadic).magnitude

theorem ofBitVec_sign (bits : UInt64) :
    Sign.ofBitVec (@unpackSign Format.binary64 bits.toBitVec) = signOf (isNegative bits) := by
  have hsign := toNat_sign bits
  have hlt := bits.toNat_lt
  unfold Sign.ofBitVec signOf isNegative signBit
  by_cases hnegative : 9223372036854775808 ≤ bits.toNat
  · rw [if_neg, if_pos (by simpa using hnegative)]
    intro hzero
    rw [hzero] at hsign
    simp at hsign
    omega
  · rw [if_pos, if_neg (by simpa using hnegative)]
    apply BitVec.eq_of_toNat_eq
    rw [hsign]
    simp
    omega

theorem toNat_leading (v : BitVec 52) : (1#1 ++ v).toNat = 2 ^ 52 + v.toNat := by
  rw [BitVec.toNat_append, Nat.shiftLeft_eq, Nat.mul_comm, ← Nat.two_pow_add_eq_or_of_lt v.isLt]
  rfl

theorem magnitude_fields (bits : UInt64) :
    magnitude bits = (@unpackExponent Format.binary64 bits.toBitVec).toNat * 2 ^ 52 +
      (@unpackMantissa Format.binary64 bits.toBitVec).toNat := by
  have hmagnitude : magnitude bits = bits.toNat % 9223372036854775808 := rfl
  rw [toNat_mantissa, toNat_exponent, hmagnitude]
  omega

theorem unpacks_subnormal (negative : Bool) {m : BitVec 52} (hpos : 0 < m.toNat) :
    Unpacks (.finite (signOf negative) m.toNat leastExponent hpos) negative m.toNat := by
  have hm := m.isLt
  have hinf : infinityMagnitude = 9218868437227405312 := rfl
  have hnormal : (⟨m.toNat, leastExponent⟩ : Dyadic).Normal :=
    ⟨by dsimp only; omega, le_refl _, fun h => absurd h (lt_irrefl _)⟩
  have hmagnitude : (⟨m.toNat, leastExponent⟩ : Dyadic).magnitude = m.toNat := by
    rw [Dyadic.magnitude]
    dsimp only
    omega
  have hunpacks := Unpacks.finite negative hpos hnormal (by omega)
  rwa [hmagnitude] at hunpacks

theorem unpacks_normal (negative : Bool) {e : BitVec 11} {m : BitVec 52} (hpos : e.toNat ≠ 0)
    (hbelow : e.toNat ≠ 2047) (hleading : 0 < (1#1 ++ m).toNat) :
    Unpacks (.finite (signOf negative) (1#1 ++ m).toNat ((e.toNat : ℤ) - 1075) hleading) negative
      (e.toNat * 2 ^ 52 + m.toNat) := by
  have he := e.isLt
  have hm := m.isLt
  have hinf : infinityMagnitude = 9218868437227405312 := rfl
  have hleast : leastExponent = -1074 := rfl
  have hsignificand := toNat_leading m
  have hmagnitude : (⟨(1#1 ++ m).toNat, (e.toNat : ℤ) - 1075⟩ : Dyadic).magnitude =
      e.toNat * 2 ^ 52 + m.toNat := by
    rw [Dyadic.magnitude]
    dsimp only
    omega
  have hnormal : (⟨(1#1 ++ m).toNat, (e.toNat : ℤ) - 1075⟩ : Dyadic).Normal :=
    ⟨by dsimp only; omega, by dsimp only; omega, fun _ => by dsimp only; omega⟩
  have hunpacks := Unpacks.finite negative hleading hnormal (by omega)
  rwa [hmagnitude] at hunpacks

theorem unpacks_bits (bits : UInt64) (h : magnitude bits ≤ infinityMagnitude) :
    Unpacks (unpack Format.binary64 bits.toBitVec) (isNegative bits) (magnitude bits) := by
  have hinf : infinityMagnitude = 9218868437227405312 := rfl
  have hbias : (Format.binary64.exponentBias : ℤ) +
    Format.binary64.mantissaBitsWithoutImplicit = 1075 := rfl
  have hfields := magnitude_fields bits
  unfold UnpackedFloat.unpack
  dsimp only
  rw [hbias, ofBitVec_sign]
  rw [hfields] at h ⊢
  generalize isNegative bits = negative
  have hm := (@unpackMantissa Format.binary64 bits.toBitVec).isLt
  split
  · next hall =>
    rw [show (@unpackExponent Format.binary64 bits.toBitVec).toNat = 2047 by rw [hall]; rfl] at h ⊢
    have hmantissa : @unpackMantissa Format.binary64 bits.toBitVec = 0#52 := by
      apply BitVec.eq_of_toNat_eq
      simp
      omega
    rw [if_pos hmantissa, hmantissa]
    exact .infinity negative
  · next hall =>
    split
    · next hzero =>
      rw [show (@unpackExponent Format.binary64 bits.toBitVec).toNat = 0 by rw [hzero]; rfl,
        Nat.zero_mul, Nat.zero_add]
      split
      · next hnone =>
        rw [hnone]
        exact .zero negative
      · exact unpacks_subnormal negative _
    · next hzero =>
      exact unpacks_normal negative (fun he => hzero (BitVec.eq_of_toNat_eq he))
        (fun he => hall (BitVec.eq_of_toNat_eq he)) _

theorem magnitude_le_of_isNaN {x : Float} (h : x.isNaN = false) :
    magnitude x.toBits ≤ infinityMagnitude := by
  by_contra hlt
  rw [eq_nan_of_magnitude (Nat.lt_of_not_le hlt)] at h
  exact absurd h (by decide)

theorem unpacks {x : Float} (h : x.isNaN = false) :
    Unpacks x.toModel.unpack (isNegative x.toBits) (magnitude x.toBits) :=
  unpacks_bits x.toBits (magnitude_le_of_isNaN h)

def packed (u : UnpackedFloat) : Float := .ofModel (.pack u)

theorem toNat_packComponents (negative : Bool) (e : BitVec 11) (m : BitVec 52) :
    (UInt64.ofBitVec (packComponents Format.binary64 (signOf negative) e m)).toNat =
      (if negative then signBit else 0) + e.toNat * 2 ^ 52 + m.toNat := by
  have hsignBit : signBit = 9223372036854775808 := rfl
  generalize hbits : UInt64.ofBitVec (packComponents Format.binary64 (signOf negative) e m) = bits
  have hlt := bits.toNat_lt
  have hpacked : bits.toBitVec = packComponents Format.binary64 (signOf negative) e m := by
    rw [← hbits]
  have hmantissa := toNat_mantissa bits
  have hexponent := toNat_exponent bits
  have hsign := toNat_sign bits
  rw [hpacked, unpackMantissa_packComponents] at hmantissa
  rw [hpacked, unpackExponent_packComponents] at hexponent
  rw [hpacked, unpackSign_packComponents] at hsign
  have hsignOf : (signOf negative).toBitVec.toNat = if negative then 1 else 0 := by
    cases negative <;> rfl
  rw [hsignOf] at hsign
  cases negative with
  | false =>
    simp only [Bool.false_eq_true, if_false] at hsign ⊢
    omega
  | true =>
    simp only [if_true] at hsign ⊢
    omega

def signed (negative : Bool) (k : Nat) : Float := Float.ofBits (ofMagnitude negative k)

theorem toBits_signed {k : Nat} (hk : k ≤ infinityMagnitude) (negative : Bool) :
    (signed negative k).toBits = ofMagnitude negative k := by
  have hpacked : (unpack Format.binary64 (ofMagnitude negative k).toBitVec).pack Format.binary64 =
      (ofMagnitude negative k).toBitVec := by
    rw [pack_unpack _ (by decide), not_isNaNBits hk, if_neg (by simp)]
  exact congrArg UInt64.ofBitVec hpacked

theorem packed_eq {u : UnpackedFloat} {negative : Bool} {k : Nat} (hk : k ≤ infinityMagnitude)
    (h : (UInt64.ofBitVec (u.pack Format.binary64)).toNat = (if negative then signBit else 0) + k) :
    packed u = signed negative k := by
  have hinf : infinityMagnitude = 9218868437227405312 := rfl
  have hsign : signBit = 9223372036854775808 := rfl
  rw [← Float.toBits_inj, toBits_signed hk]
  apply UInt64.toNat_inj.mp
  rw [toNat_ofMagnitude (by omega)]
  refine Eq.trans h ?_
  cases negative <;> simp

theorem packed_infinity (negative : Bool) :
    packed (.infinity (signOf negative)) = signed negative infinityMagnitude := by
  cases negative <;> decide

theorem packed_zero (negative : Bool) :
    packed (.zero (signOf negative)) = signed negative 0 := by
  cases negative <;> decide

theorem magnitude_leading {m : Nat} {e : ℤ} (hsmall : m < 9007199254740992)
    (hlarge : 4503599627370496 ≤ m) (hleast : -1074 ≤ e) :
    (e - -1074).toNat * 2 ^ 52 + m =
      (e + 1075).toNat * 2 ^ 52 + m % 4503599627370496 := by
  omega

theorem packed_finite (negative : Bool) {m : Nat} {e : ℤ} (hpos : 0 < m)
    (h : (⟨m, e⟩ : Dyadic).Normal) :
    packed (.finite (signOf negative) m e hpos) =
      signed negative (min infinityMagnitude (⟨m, e⟩ : Dyadic).magnitude) := by
  have hinf : infinityMagnitude = 9218868437227405312 := rfl
  have hleast : leastExponent = -1074 := rfl
  obtain ⟨hsmall, hbound, hfull⟩ := h
  dsimp only at hsmall hbound hfull
  rw [hleast] at hbound hfull
  refine packed_eq (Nat.min_le_left _ _) ?_
  have hbias : e + (Format.binary64.exponentBias : ℤ) +
      (Format.binary64.mantissaBitsWithoutImplicit : ℤ) = e + 1075 := by
    rw [Int.add_assoc]
    rfl
  have hoverflow : 2 ^ Format.binary64.exponentBits = 2048 := by decide
  have hlog : m.log2 + 1 = Format.binary64.mantissaBits ↔ 4503599627370496 ≤ m := by
    have hdigits : Format.binary64.mantissaBits = 53 := rfl
    have hlow : 52 ≤ m.log2 ↔ 2 ^ 52 ≤ m := Nat.le_log2 (by omega)
    have hhigh : m.log2 < 53 ↔ m < 2 ^ 53 := Nat.log2_lt (by omega)
    omega
  have hmantissa : (BitVec.ofNat 52 m).toNat = m % 4503599627370496 := BitVec.toNat_ofNat _ _
  unfold UnpackedFloat.pack
  dsimp only
  rw [hbias, Dyadic.magnitude, hoverflow, hinf, hleast]
  simp only [hlog]
  clear hlog hoverflow hbias hinf hleast
  by_cases hleading : 4503599627370496 ≤ m
  · have hmagnitude := magnitude_leading hsmall hleading hbound
    rw [hmagnitude]
    by_cases hlarge : 2048 ≤ (e + 1075).toNat + 1
    · rw [if_pos hlarge, packedInfinity, toNat_packComponents, min_eq_left]
      · rfl
      · clear hmantissa hmagnitude
        omega
    · have hexponent : (BitVec.ofNat 11 (e + 1075).toNat).toNat = (e + 1075).toNat := by
        rw [BitVec.toNat_ofNat, Nat.mod_eq_of_lt (by omega)]
      have hfinite : (e + 1075).toNat * 2 ^ 52 + m % 4503599627370496 ≤ 9218868437227405312 := by
        clear hmantissa hmagnitude hexponent
        omega
      rw [if_neg hlarge, if_pos hleading, toNat_packComponents, hexponent, hmantissa,
        min_eq_right hfinite, Nat.add_assoc]
  · have hexponent : e = -1074 := by omega
    subst hexponent
    have hfinite : (-1074 - -1074 : ℤ).toNat * 2 ^ 52 + m ≤ 9218868437227405312 := by
      clear hmantissa
      omega
    rw [if_neg (by decide), if_neg hleading, toNat_packComponents, hmantissa, min_eq_right hfinite,
      Nat.mod_eq_of_lt (Nat.lt_of_not_le hleading)]
    simp

theorem packed_unpacked {u : UnpackedFloat} {negative : Bool} {k : Nat}
    (h : Unpacks u negative k) : packed u = signed negative k := by
  cases h with
  | infinity => exact packed_infinity negative
  | zero => exact packed_zero negative
  | finite _ hpos hnormal hbelow =>
    rw [packed_finite negative hpos hnormal, Nat.min_eq_right hbelow.le]

end BoostedTrees.Binary64
