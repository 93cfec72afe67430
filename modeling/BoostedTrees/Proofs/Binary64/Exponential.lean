import BoostedTrees.Binary64.Exp
import BoostedTrees.Proofs.Binary64.Arithmetic
import Mathlib

namespace BoostedTrees.Binary64

theorem roundQuotient_le_infinity (num den : Nat) : roundQuotient num den ≤ infinityMagnitude := by
  unfold roundQuotient
  split
  · exact Nat.zero_le _
  · exact min_le_left _ _

theorem roundQuotient_le_one {num den : Nat} (hden : 0 < den) (h : num ≤ den) :
    roundQuotient num den ≤ oneMagnitude := by
  obtain ⟨k, hk, hround⟩ := rounds_roundQuotient num hden
  rw [hround]
  refine (min_le_right _ _).trans (hk.high _ ?_)
  rw [valueOf_oneMagnitude]
  exact div_le_one_of_le₀ (by exact_mod_cast h) (Nat.cast_nonneg _)

namespace Exp

theorem series_mono {r r' : Nat} (h : r ≤ r') (i more : Nat) :
    series r i more ≤ series r' i more := by
  induction more generalizing i with
  | zero => exact le_refl _
  | succ more ih =>
    exact Nat.add_le_add_left (Nat.div_le_div_right (Nat.mul_le_mul h (ih (i + 1)))) unit

theorem series_logTwo : series logTwo 1 terms ≤ 2 * unit := by decide +kernel

theorem magnitudeOf_zero : magnitudeOf 0 = oneMagnitude := by decide +kernel

theorem magnitudeOf_le_infinity (x : ℤ) : magnitudeOf x ≤ infinityMagnitude := by
  unfold magnitudeOf
  dsimp only
  split
  · exact roundQuotient_le_infinity _ _
  · exact roundQuotient_le_infinity _ _

theorem magnitudeOf_le_one {x : ℤ} (h : x ≤ 0) : magnitudeOf x ≤ oneMagnitude := by
  have hlogTwo : (0 : ℤ) < logTwo := by decide
  have hunit : 0 < unit := by decide
  rcases h.lt_or_eq with hneg | rfl
  · have hquotient : x / logTwo < 0 := Int.ediv_neg_of_neg_of_pos hneg hlogTwo
    have hremainder : (x % logTwo).toNat ≤ logTwo := by
      have := Int.emod_lt_of_pos x hlogTwo
      omega
    have hseries := (series_mono hremainder 1 terms).trans series_logTwo
    have hdouble : 2 ≤ 2 ^ (-(x / logTwo)).toNat :=
      Nat.le_self_pow (by omega) 2
    unfold magnitudeOf
    dsimp only
    rw [if_neg (by omega)]
    refine roundQuotient_le_one (Nat.mul_pos hunit (Nat.pow_pos (by decide))) (hseries.trans ?_)
    rw [Nat.mul_comm]
    exact Nat.mul_le_mul_left unit hdouble
  · exact magnitudeOf_zero.le

theorem ofDatum_le_infinity {d : Datum} (h : d ≠ .nan) : ofDatum d ≤ infinityMagnitude := by
  cases d with
  | nan => exact absurd rfl h
  | infinite negative => cases negative <;> decide
  | finite negative x =>
    unfold ofDatum
    dsimp only
    split
    · exact le_refl _
    · split
      · exact Nat.zero_le _
      · exact magnitudeOf_le_infinity _

theorem ofDatum_le_one {negative : Bool} {x : Dyadic} (h : scaled negative x ≤ 0) :
    ofDatum (.finite negative x) ≤ oneMagnitude := by
  have hlimit : (0 : ℤ) < limit := by decide
  unfold ofDatum
  dsimp only
  rw [if_neg (by omega)]
  split
  · exact Nat.zero_le _
  · exact magnitudeOf_le_one h

theorem scaled_true_nonpos (x : Dyadic) : scaled true x ≤ 0 := by
  unfold scaled
  dsimp only
  rw [if_pos rfl]
  omega

theorem scaled_of_significand_zero (negative : Bool) {x : Dyadic} (h : x.significand = 0) :
    scaled negative x = 0 := by
  unfold scaled
  dsimp only
  rw [h, Nat.zero_mul, Nat.zero_div]
  cases negative <;> simp

end Exp

section Float

variable {x : Float}

theorem exp_eq_signed (x : Float) :
    exp x = signed false (Exp.ofDatum (Datum.ofBits x.toBits)) :=
  rfl

theorem isNaN_exp (h : x.isNaN = true) : (exp x).isNaN = true := by
  rw [eq_nan_of_isNaN h]
  decide

theorem exp_zero : exp zero = one := by decide +kernel

theorem ofBits_ne_nan (h : x.isNaN = false) : Datum.ofBits x.toBits ≠ .nan := by
  have hmagnitude := magnitude_le_of_isNaN h
  unfold Datum.ofBits
  dsimp only
  split
  · exact nofun
  · rw [if_pos (by omega)]
    exact nofun

theorem zero_le_exp (h : x.isNaN = false) : zero ≤ exp x := by
  have hle := Exp.ofDatum_le_infinity (ofBits_ne_nan h)
  rw [zero_le_iff, exp_eq_signed, isNaN_signed hle, rank_signed hle, rankOf_false]
  exact ⟨rfl, Int.natCast_nonneg _⟩

theorem exp_le_one (h : x ≤ zero) : exp x ≤ one := by
  obtain ⟨hnan, -, hrank⟩ := le_iff.mp h
  have hle := Exp.ofDatum_le_infinity (ofBits_ne_nan hnan)
  have hone : Exp.ofDatum (Datum.ofBits x.toBits) ≤ oneMagnitude := by
    rw [rank_zero, rank] at hrank
    unfold Datum.ofBits
    dsimp only
    cases hneg : isNegative x.toBits with
    | false =>
      rw [hneg, rankOf_false] at hrank
      rw [show magnitude x.toBits = 0 by omega, if_pos (by decide)]
      exact Exp.ofDatum_le_one (Exp.scaled_of_significand_zero false rfl).le
    | true =>
      split
      · exact Exp.ofDatum_le_one (Exp.scaled_true_nonpos _)
      · rw [if_pos (by have := magnitude_le_of_isNaN hnan; omega)]
        decide
  rw [le_iff, exp_eq_signed, isNaN_signed hle, rank_signed hle, rankOf_false, rank_one]
  exact ⟨rfl, isNaN_one, by exact_mod_cast hone⟩

end Float

end BoostedTrees.Binary64
