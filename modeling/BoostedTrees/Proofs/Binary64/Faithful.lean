import BoostedTrees.Proofs.Binary64.Rounding
import BoostedTrees.Proofs.Binary64.Unpacked
import Mathlib

namespace BoostedTrees.Binary64

open Float.Model UnpackedFloat ExtendedMantissa

def valueOf (k : Nat) : ℚ := (Dyadic.ofMagnitude k).value

theorem magnitude_ofMagnitude (k : Nat) : (Dyadic.ofMagnitude k).magnitude = k :=
  (magnitude_eq k).symm

structure Rounds (t : ℚ) (k : Nat) : Prop where
  low : ∀ j, valueOf j ≤ t → j ≤ k
  high : ∀ j, t ≤ valueOf j → k ≤ j

structure LastPlace (t : ℚ) (e : ℤ) : Prop where
  least : leastExponent ≤ e
  below : t < 2 ^ (53 + e)
  full : leastExponent < e → 2 ^ (52 + e) ≤ t

namespace LastPlace

variable {t : ℚ} {e : ℤ} {s : Nat}

theorem significand_le (h : LastPlace t e) (hhigh : (s : ℚ) < t / 2 ^ e + 1) : s ≤ 2 ^ 53 := by
  have hbelow := h.below
  rw [two_zpow_ofNat_add, ← div_lt_iff₀ (two_zpow_pos e)] at hbelow
  have hlt : (s : ℚ) < 2 ^ 53 + 1 := by linarith
  exact Nat.lt_succ_iff.mp (by exact_mod_cast hlt)

theorem le_significand (h : LastPlace t e) (hleast : leastExponent < e)
    (hlow : t / 2 ^ e < s + 1) : 2 ^ 52 ≤ s := by
  have hfull := h.full hleast
  rw [two_zpow_ofNat_add, ← le_div_iff₀ (two_zpow_pos e)] at hfull
  have hlt : (2 : ℚ) ^ 52 < s + 1 := by linarith
  exact Nat.lt_succ_iff.mp (by exact_mod_cast hlt)

theorem magnitude_le {x : Dyadic} (h : LastPlace t e) (hx : x.Normal) (hle : x.value ≤ t)
    (hlow : t / 2 ^ e < s + 1) : x.magnitude ≤ (⟨s, e⟩ : Dyadic).magnitude := by
  obtain ⟨m, f⟩ := x
  obtain ⟨hm, hf, hfull⟩ := hx
  have hleast := h.least
  dsimp only [Dyadic.value, Dyadic.magnitude] at hm hf hfull hle ⊢
  rcases lt_trichotomy f e with hlt | rfl | hgt
  · have := h.le_significand (by omega) hlow
    omega
  · have hms : (m : ℚ) < s + 1 := lt_of_le_of_lt ((le_div_iff₀ (two_zpow_pos f)).mpr hle) hlow
    have hms : m ≤ s := Nat.lt_succ_iff.mp (by exact_mod_cast hms)
    omega
  · exfalso
    have hm' : (2 : ℚ) ^ 52 ≤ m := by exact_mod_cast hfull (by omega)
    have hpow : (2 : ℚ) ^ (53 + e) ≤ 2 ^ (52 + f) := two_zpow_le (by omega)
    rw [two_zpow_ofNat_add 52] at hpow
    have := mul_le_mul_of_nonneg_right hm' (two_zpow_pos f).le
    linarith [h.below]

theorem le_magnitude {x : Dyadic} (h : LastPlace t e) (hx : x.Normal) (hle : t ≤ x.value)
    (hhigh : (s : ℚ) < t / 2 ^ e + 1) : (⟨s, e⟩ : Dyadic).magnitude ≤ x.magnitude := by
  obtain ⟨m, f⟩ := x
  obtain ⟨hm, hf, hfull⟩ := hx
  have hleast := h.least
  have hsmall := h.significand_le hhigh
  dsimp only [Dyadic.value, Dyadic.magnitude] at hm hf hfull hle ⊢
  rcases lt_trichotomy f e with hlt | rfl | hgt
  · exfalso
    have hm' : (m : ℚ) < 2 ^ 53 := by exact_mod_cast hm
    have hpow : (2 : ℚ) ^ (53 + f) ≤ 2 ^ (52 + e) := two_zpow_le (by omega)
    rw [two_zpow_ofNat_add 53] at hpow
    have := mul_lt_mul_of_pos_right hm' (two_zpow_pos f)
    linarith [h.full (by omega)]
  · have hle : t / 2 ^ f ≤ m := (div_le_iff₀ (two_zpow_pos f)).mpr hle
    have hsm : (s : ℚ) < m + 1 := by linarith
    have hsm : s ≤ m := Nat.lt_succ_iff.mp (by exact_mod_cast hsm)
    omega
  · have := hfull (by omega)
    omega

theorem rounds (h : LastPlace t e) (hlow : t / 2 ^ e < s + 1) (hhigh : (s : ℚ) < t / 2 ^ e + 1) :
    Rounds t (⟨s, e⟩ : Dyadic).magnitude := by
  constructor
  · intro j hj
    have hle := h.magnitude_le (normal_ofMagnitude j) hj hlow
    rwa [magnitude_ofMagnitude] at hle
  · intro j hj
    have hle := h.le_magnitude (normal_ofMagnitude j) hj hhigh
    rwa [magnitude_ofMagnitude] at hle

end LastPlace

theorem lastPlace_value {x : Dyadic} (h : x.Normal) : LastPlace x.value x.exponent := by
  have hplace := two_zpow_pos x.exponent
  refine ⟨h.least, ?_, fun hleast => ?_⟩
  · rw [two_zpow_ofNat_add]
    exact mul_lt_mul_of_pos_right (by exact_mod_cast h.small) hplace
  · rw [two_zpow_ofNat_add]
    exact mul_le_mul_of_nonneg_right (by exact_mod_cast h.full hleast) hplace.le

theorem rounds_value {x : Dyadic} (h : x.Normal) : Rounds x.value x.magnitude := by
  have hunits : x.value / 2 ^ x.exponent = x.significand := by
    rw [Dyadic.value, mul_div_assoc, div_self (two_zpow_pos _).ne', mul_one]
  exact (lastPlace_value h).rounds (by linarith) (by linarith)

theorem rounds_valueOf (k : Nat) : Rounds (valueOf k) k := by
  have h := rounds_value (normal_ofMagnitude k)
  rwa [magnitude_ofMagnitude] at h

theorem valueOf_le_iff {j k : Nat} : valueOf j ≤ valueOf k ↔ j ≤ k := by
  refine ⟨(rounds_valueOf k).low j, fun h => ?_⟩
  by_contra hlt
  have hle := (rounds_valueOf j).low k (le_of_not_ge hlt)
  obtain rfl : j = k := le_antisymm h hle
  exact hlt (le_refl _)

theorem Dyadic.Normal.ofMagnitude_magnitude {x : Dyadic} (h : x.Normal) :
    Dyadic.ofMagnitude x.magnitude = x := by
  have hleast : leastExponent = -1074 := rfl
  obtain ⟨m, e⟩ := x
  obtain ⟨hm, he, hfull⟩ := h
  dsimp only at hm he hfull
  rw [Dyadic.ofMagnitude, Dyadic.magnitude, Nat.pow_eq]
  dsimp only
  split
  · rename_i hlt
    have : e = leastExponent := by omega
    rw [Dyadic.mk.injEq]
    omega
  · rename_i hle
    rw [Dyadic.mk.injEq]
    omega

theorem Dyadic.Normal.value_eq {x : Dyadic} (h : x.Normal) : valueOf x.magnitude = x.value := by
  rw [valueOf, h.ofMagnitude_magnitude]

section Quotient

theorem roundToEven_bounds (n : Nat) {d : Nat} (hd : 0 < d) :
    (n : ℚ) / d < roundToEven n d + 1 ∧ (roundToEven n d : ℚ) < n / d + 1 := by
  have hd' : (0 : ℚ) < d := by exact_mod_cast hd
  have hn := Nat.div_add_mod n d
  have hr := Nat.mod_lt n hd
  rw [div_lt_iff₀ hd', ← sub_lt_iff_lt_add, lt_div_iff₀ hd']
  unfold roundToEven
  dsimp only
  generalize n / d = q at *
  generalize n % d = r at *
  subst hn
  have hr' : (r : ℚ) < d := by exact_mod_cast hr
  split
  · have hpos : (0 : ℚ) < r := by
      have : 0 < r := by omega
      exact_mod_cast this
    push_cast
    constructor <;> nlinarith
  · push_cast
    constructor <;> nlinarith

theorem rounds_zero : Rounds 0 0 := by
  have h := rounds_valueOf 0
  rwa [show valueOf 0 = 0 from zero_mul _] at h

theorem rounds_roundQuotient (num : Nat) {den : Nat} (hden : 0 < den) :
    ∃ k, Rounds (num / den) k ∧ roundQuotient num den = min infinityMagnitude k := by
  rcases Nat.eq_zero_or_pos num with rfl | hnum
  · refine ⟨0, ?_, by rw [roundQuotient, if_pos rfl, Nat.min_zero]⟩
    rw [Nat.cast_zero, zero_div]
    exact rounds_zero
  · obtain ⟨hleast, hbelow, hfull⟩ := lastPlace_bounds hnum hden
    obtain ⟨hd, hunits⟩ := inUnits_eq num hden (lastPlace num den)
    obtain ⟨hlow, hhigh⟩ := roundToEven_bounds (inUnits num den (lastPlace num den)).1 hd
    rw [hunits] at hlow hhigh
    refine ⟨_, LastPlace.rounds ⟨hleast, hbelow, hfull⟩ hlow hhigh, ?_⟩
    rw [roundQuotient, if_neg (by omega)]
    rfl

end Quotient

section Shifts

variable {em : ExtendedMantissa} {e : ℤ} {t : ℚ}

structure Encloses (em : ExtendedMantissa) (e : ℤ) (t : ℚ) : Prop where
  low : em.mantissa * 2 ^ e ≤ t
  high : t < (em.mantissa + 1) * 2 ^ e
  exact_iff : t = em.mantissa * 2 ^ e ↔ em.roundBit = false ∧ em.stickyBit = false

theorem Encloses.shiftRightOne (h : Encloses em e t) : Encloses em.shiftRightOne (e + 1) t := by
  have hplace := two_zpow_pos e
  have hpow : (2 : ℚ) ^ (e + 1) = 2 * 2 ^ e := by
    rw [zpow_add₀ (by norm_num), zpow_one, mul_comm]
  obtain ⟨hlow, hhigh, hexact⟩ := h
  have hmod : (em.mantissa : ℚ) = 2 * (em.mantissa / 2 : Nat) + (em.mantissa % 2 : Nat) := by
    exact_mod_cast (Nat.div_add_mod em.mantissa 2).symm
  have hlt : ((em.mantissa % 2 : Nat) : ℚ) + 1 ≤ 2 := by
    exact_mod_cast Nat.mod_lt em.mantissa (by decide : 2 > 0)
  have hnonneg : (0 : ℚ) ≤ (em.mantissa % 2 : Nat) := Nat.cast_nonneg _
  have hodd : 0 ≤ ((em.mantissa % 2 : Nat) : ℚ) * 2 ^ e := mul_nonneg hnonneg hplace.le
  refine ⟨?_, ?_, ?_⟩
  · change ((em.mantissa / 2 : Nat) : ℚ) * 2 ^ (e + 1) ≤ t
    rw [hmod] at hlow
    rw [hpow]
    linarith
  · change t < (((em.mantissa / 2 : Nat) : ℚ) + 1) * 2 ^ (e + 1)
    rw [hmod] at hhigh
    rw [hpow]
    nlinarith
  · change t = ((em.mantissa / 2 : Nat) : ℚ) * 2 ^ (e + 1) ↔
      (em.mantissa % 2 != 0) = false ∧ (em.roundBit || em.stickyBit) = false
    rw [Bool.or_eq_false_iff, ← hexact, bne_eq_false_iff_eq, hpow, hmod]
    constructor
    · intro ht
      have hzero : ((em.mantissa % 2 : Nat) : ℚ) = 0 := by
        rw [hmod] at hlow
        nlinarith
      exact ⟨by exact_mod_cast hzero, by rw [ht, hzero]; ring⟩
    · rintro ⟨heven, ht⟩
      rw [ht, heven]
      push_cast
      ring

theorem Encloses.shiftRight (h : Encloses em e t) (n : Nat) : Encloses (em >>> n) (e + n) t := by
  induction n with
  | zero =>
    rw [Nat.cast_zero, add_zero]
    exact h
  | succ n ih =>
    rw [Nat.cast_succ, ← add_assoc]
    exact ih.shiftRightOne

theorem Encloses.rounded_bounds (h : Encloses em e t) :
    t / 2 ^ e < em.roundedMantissa + 1 ∧ (em.roundedMantissa : ℚ) < t / 2 ^ e + 1 := by
  have hplace := two_zpow_pos e
  obtain ⟨hlow, hhigh, hexact⟩ := h
  rw [← le_div_iff₀ hplace] at hlow
  rw [← div_lt_iff₀ hplace] at hhigh
  rw [← div_eq_iff hplace.ne'] at hexact
  obtain ⟨m, roundBit, stickyBit⟩ := em
  dsimp only at hlow hhigh hexact
  have hkept : t / 2 ^ e < m + 1 ∧ (m : ℚ) < t / 2 ^ e + 1 := ⟨hhigh, by linarith⟩
  have hraised : t / 2 ^ e ≠ m →
      t / 2 ^ e < ((m + 1 : Nat) : ℚ) + 1 ∧ ((m + 1 : Nat) : ℚ) < t / 2 ^ e + 1 := by
    intro hne
    have hlt := lt_of_le_of_ne hlow hne.symm
    push_cast
    constructor <;> linarith
  cases roundBit with
  | false => cases stickyBit <;> exact hkept
  | true =>
    have hne : t / 2 ^ e ≠ m := fun h => absurd (hexact.mp h).1 (by decide)
    cases stickyBit with
    | true => exact hraised hne
    | false =>
      change t / 2 ^ e < ((m + m % 2 : Nat) : ℚ) + 1 ∧ ((m + m % 2 : Nat) : ℚ) < t / 2 ^ e + 1
      rcases Nat.mod_two_eq_zero_or_one m with heven | hodd
      · rw [heven]
        exact hkept
      · rw [hodd]
        exact hraised hne

end Shifts

section Results

variable {m : Nat} {e : ℤ} {accuracy : Accuracy} {t : ℚ}

theorem targetExponent_eq (m : Nat) (e : ℤ) :
    Format.binary64.targetExponent (totalExponent m e) =
      max ((m.log2 : ℤ) + 1 + e - 53) leastExponent := rfl

theorem mantissa_ofMantissaAndAccuracy (m : Nat) (accuracy : Accuracy) :
    (ofMantissaAndAccuracy m accuracy).mantissa = m := by
  cases accuracy with
  | exact => rfl
  | inexact o => cases o <;> rfl

theorem residual_clear_iff (m : Nat) (accuracy : Accuracy) :
    (ofMantissaAndAccuracy m accuracy).roundBit = false ∧
      (ofMantissaAndAccuracy m accuracy).stickyBit = false ↔ accuracy = .exact := by
  cases accuracy with
  | exact => exact iff_of_true ⟨rfl, rfl⟩ rfl
  | inexact o => cases o <;> simp [ofMantissaAndAccuracy]

theorem Encloses.lastPlace (h : Encloses (ofMantissaAndAccuracy m accuracy) e t)
    (hplace : leastExponent < e → 2 ^ 52 ≤ m) :
    LastPlace t (Format.binary64.targetExponent (totalExponent m e)) := by
  obtain ⟨hlow, hhigh, -⟩ := h
  have hplace := two_zpow_pos e
  rw [mantissa_ofMantissaAndAccuracy] at hlow hhigh
  rw [targetExponent_eq]
  refine ⟨le_max_right _ _, ?_, fun hleast => ?_⟩
  · have hm : (m : ℚ) + 1 ≤ 2 ^ (m.log2 + 1) := by exact_mod_cast Nat.lt_log2_self
    calc t < (m + 1) * 2 ^ e := hhigh
      _ ≤ 2 ^ (m.log2 + 1) * 2 ^ e := mul_le_mul_of_nonneg_right hm hplace.le
      _ = 2 ^ (((m.log2 + 1 : Nat) : ℤ) + e) := by rw [zpow_add₀ (by norm_num), zpow_natCast]
      _ ≤ _ := two_zpow_le (by omega)
  · have hpos : m ≠ 0 := by
      intro hm
      subst hm
      rw [Nat.log2_zero] at hleast
      omega
    have hm : (2 : ℚ) ^ m.log2 ≤ m := by exact_mod_cast Nat.log2_self_le hpos
    calc (2 : ℚ) ^ (52 + max ((m.log2 : ℤ) + 1 + e - 53) leastExponent)
        = 2 ^ ((m.log2 : ℤ) + e) := by congr 1; omega
      _ = 2 ^ m.log2 * 2 ^ e := by rw [zpow_add₀ (by norm_num), zpow_natCast]
      _ ≤ m * 2 ^ e := mul_le_mul_of_nonneg_right hm hplace.le
      _ ≤ t := hlow

theorem shiftToTargetExponent_small (hsmall : m < 2 ^ 53) (hleast : leastExponent ≤ e)
    (hfull : leastExponent < e → 2 ^ 52 ≤ m) :
    shiftToTargetExponent Format.binary64 m e .exact = (⟨m, false, false⟩, e) := by
  have htarget : Format.binary64.targetExponent (totalExponent m e) ≤ e := by
    rw [targetExponent_eq]
    rcases Nat.eq_zero_or_pos m with rfl | hpos
    · rw [Nat.log2_zero]
      omega
    · have := (Nat.log2_lt hpos.ne').mpr hsmall
      omega
  rw [shiftToTargetExponent, shiftToExponent, Int.toNat_of_nonpos (by omega)]
  rw [Nat.cast_zero, add_zero]
  rfl

theorem shiftToTargetExponent_carry (hleast : leastExponent ≤ e) :
    shiftToTargetExponent Format.binary64 (2 ^ 53) e .exact = (⟨2 ^ 52, false, false⟩, e + 1) := by
  have htarget : Format.binary64.targetExponent (totalExponent (2 ^ 53) e) = e + 1 := by
    rw [targetExponent_eq, Nat.log2_two_pow]
    omega
  rw [shiftToTargetExponent, htarget, shiftToExponent, show (e + 1 - e).toNat = 1 by omega]
  rfl

theorem magnitude_carry (hleast : leastExponent ≤ e) :
    (⟨2 ^ 52, e + 1⟩ : Dyadic).magnitude = (⟨2 ^ 53, e⟩ : Dyadic).magnitude := by
  rw [Dyadic.magnitude, Dyadic.magnitude]
  dsimp only
  omega

theorem packed_roundWithAccuracy (negative : Bool)
    (h : Encloses (ofMantissaAndAccuracy m accuracy) e t)
    (hplace : leastExponent < e → 2 ^ 52 ≤ m) :
    ∃ k, Rounds t k ∧
      packed (roundWithAccuracy Format.binary64 (signOf negative) m e accuracy) =
        signed negative (min infinityMagnitude k) := by
  have hlast := h.lastPlace hplace
  have htarget : e ≤ Format.binary64.targetExponent (totalExponent m e) := by
    rw [targetExponent_eq]
    by_cases hleast : leastExponent < e
    · have hm := hplace hleast
      have hdigits : 52 ≤ m.log2 := (Nat.le_log2 (by omega)).mpr hm
      omega
    · omega
  have hshift := h.shiftRight (Format.binary64.targetExponent (totalExponent m e) - e).toNat
  have hexponent : e + ((Format.binary64.targetExponent (totalExponent m e) - e).toNat : ℤ) =
      Format.binary64.targetExponent (totalExponent m e) := by omega
  unfold roundWithAccuracy
  rw [shiftToTargetExponent.eq_1 _ m, shiftToExponent]
  dsimp only
  rw [hexponent] at hshift ⊢
  obtain ⟨hlow, hhigh⟩ := hshift.rounded_bounds
  generalize Format.binary64.targetExponent (totalExponent m e) = f at *
  generalize (ofMantissaAndAccuracy m accuracy >>> (f - e).toNat).roundedMantissa = r at *
  have hsmall := hlast.significand_le hhigh
  have hfull := fun hleast => hlast.le_significand hleast hlow
  refine ⟨_, hlast.rounds hlow hhigh, ?_⟩
  rcases Nat.lt_or_eq_of_le hsmall with hlt | rfl
  · rw [shiftToTargetExponent_small hlt hlast.least hfull]
    dsimp only
    split
    · rename_i hnone
      have hleast := hlast.least
      have hf : f = leastExponent := by
        by_contra hne
        have := hfull (by omega)
        omega
      subst hnone hf
      exact packed_zero negative
    · exact packed_finite negative _ ⟨hlt, hlast.least, hfull⟩
  · rw [shiftToTargetExponent_carry hlast.least, ← magnitude_carry hlast.least]
    have hleast := hlast.least
    have hnormal : (⟨2 ^ 52, f + 1⟩ : Dyadic).Normal :=
      ⟨by norm_num, by dsimp only; omega, fun _ => le_refl _⟩
    exact packed_finite negative (by norm_num) hnormal

theorem shiftLeft_value (m : Nat) (e : ℤ) (n : Nat) :
    ((m <<< n : Nat) : ℚ) * 2 ^ (e - n) = m * 2 ^ e := by
  rw [Nat.shiftLeft_eq, zpow_sub₀ (by norm_num), zpow_natCast]
  push_cast
  field_simp

theorem packed_round (negative : Bool) (hpos : 0 < m) (e : ℤ) :
    ∃ k, Rounds (m * 2 ^ e) k ∧
      packed (round Format.binary64 (signOf negative) m e) =
        signed negative (min infinityMagnitude k) := by
  unfold UnpackedFloat.round decreaseExponent
  dsimp only
  have hamount := Int.toNat_eq_max (e - Format.binary64.targetExponent (totalExponent m e))
  rw [targetExponent_eq] at hamount ⊢
  generalize (e - max ((m.log2 : ℤ) + 1 + e - 53) leastExponent).toNat = n at *
  refine packed_roundWithAccuracy negative ⟨?_, ?_, ?_⟩ fun hleast => ?_
  · exact (shiftLeft_value m e n).le
  · rw [← shiftLeft_value m e n]
    exact mul_lt_mul_of_pos_right (lt_add_one _) (two_zpow_pos _)
  · exact iff_of_true (shiftLeft_value m e n).symm ⟨rfl, rfl⟩
  · have hdigits : 52 ≤ m.log2 + n := by omega
    calc 2 ^ 52 ≤ 2 ^ (m.log2 + n) := Nat.pow_le_pow_right (by decide) hdigits
      _ = 2 ^ m.log2 * 2 ^ n := Nat.pow_add _ _ _
      _ ≤ m * 2 ^ n := Nat.mul_le_mul_right _ (Nat.log2_self_le hpos.ne')
      _ = m <<< n := (Nat.shiftLeft_eq _ _).symm

end Results

end BoostedTrees.Binary64
