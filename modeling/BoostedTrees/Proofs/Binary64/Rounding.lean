import BoostedTrees.Binary64.Rounding
import BoostedTrees.Binary64.Shortest
import Mathlib.Algebra.Order.Field.Power
import Mathlib.Algebra.Order.Ring.Rat
import Mathlib.Data.Nat.Log
import Mathlib.Tactic.FieldSimp
import Mathlib.Tactic.Linarith
import Mathlib.Tactic.Positivity
import Mathlib.Tactic.Ring

namespace BoostedTrees.Binary64

section Powers

variable {b : ℚ} {e : ℤ}

theorem zpow_of_nonneg (h : 0 ≤ e) : b ^ e = b ^ e.toNat := by
  rw [← zpow_natCast, Int.toNat_of_nonneg h]

theorem zpow_of_neg (h : ¬ 0 ≤ e) : b ^ e = (b ^ (-e).toNat)⁻¹ := by
  rw [← zpow_natCast, Int.toNat_of_nonneg (by omega), zpow_neg, inv_inv]

theorem two_zpow_pos (e : ℤ) : (0 : ℚ) < 2 ^ e := zpow_pos (by norm_num) e

theorem two_zpow_le {e e' : ℤ} (h : e ≤ e') : (2 : ℚ) ^ e ≤ 2 ^ e' :=
  zpow_le_zpow_right₀ (by norm_num) h

theorem two_zpow_ofNat_add (n : Nat) [n.AtLeastTwo] (e : ℤ) :
    (2 : ℚ) ^ ((OfNat.ofNat n : ℤ) + e) = 2 ^ (OfNat.ofNat n : Nat) * 2 ^ e := by
  rw [zpow_add₀ (by norm_num), zpow_ofNat]

end Powers

theorem inUnits_eq (num : Nat) {den : Nat} (hden : 0 < den) (e : ℤ) :
    0 < (inUnits num den e).2 ∧
      ((inUnits num den e).1 : ℚ) / (inUnits num den e).2 = num / den / 2 ^ e := by
  have hden' : (den : ℚ) ≠ 0 := by positivity
  unfold inUnits
  split
  · rename_i h
    refine ⟨Nat.mul_pos hden (Nat.pow_pos (by decide)), ?_⟩
    rw [zpow_of_nonneg h, div_div, Nat.pow_eq]
    push_cast
    rfl
  · rename_i h
    refine ⟨hden, ?_⟩
    rw [zpow_of_neg h, div_inv_eq_mul, div_mul_eq_mul_div, Nat.pow_eq]
    push_cast
    rfl

theorem roundToEven_eq {n d s : Nat} (hlow : 2 * s * d ≤ 2 * n + d)
    (hhigh : 2 * n ≤ (2 * s + 1) * d) (hd : 0 < d)
    (hodd : s % 2 = 1 → 2 * s * d < 2 * n + d ∧ 2 * n < (2 * s + 1) * d) :
    roundToEven n d = s := by
  have hn := Nat.div_add_mod n d
  have hr := Nat.mod_lt n hd
  unfold roundToEven
  dsimp only
  generalize n / d = q at *
  generalize n % d = r at *
  subst hn
  have hq : q = s ∨ q + 1 = s := by
    have h1 : q < s + 1 := by
      by_contra h
      have : d * (s + 1) ≤ d * q := Nat.mul_le_mul_left d (by omega)
      nlinarith
    have h2 : s < q + 2 := by
      by_contra h
      have : d * (q + 2) ≤ d * s := Nat.mul_le_mul_left d (by omega)
      nlinarith
    omega
  rcases hq with rfl | rfl
  · rw [if_neg]
    rintro (h | ⟨h, hq⟩)
    · nlinarith
    · have := (hodd hq).2
      nlinarith
  · rw [if_pos]
    by_cases h : d < 2 * r
    · exact .inl h
    · refine .inr ⟨by nlinarith, ?_⟩
      by_contra hq
      have := (hodd (by omega)).1
      nlinarith

theorem log2_bounds {n : Nat} (hn : 0 < n) :
    (2 : ℚ) ^ (Nat.log2 n : ℤ) ≤ n ∧ (n : ℚ) < 2 ^ ((Nat.log2 n : ℤ) + 1) := by
  have hlow : 2 ^ Nat.log2 n ≤ n := Nat.log2_self_le hn.ne'
  have hhigh : n < 2 ^ (Nat.log2 n + 1) := Nat.lt_log2_self
  constructor
  · rw [zpow_natCast]
    exact_mod_cast hlow
  · rw [show (Nat.log2 n : ℤ) + 1 = ((Nat.log2 n + 1 : Nat) : ℤ) by push_cast; rfl, zpow_natCast]
    exact_mod_cast hhigh

theorem quotient_bounds {num den : Nat} (hnum : 0 < num) (hden : 0 < den) :
    (2 : ℚ) ^ ((Nat.log2 num : ℤ) - Nat.log2 den - 1) < num / den ∧
      (num : ℚ) / den < 2 ^ ((Nat.log2 num : ℤ) - Nat.log2 den + 1) := by
  obtain ⟨hnlow, hnhigh⟩ := log2_bounds hnum
  obtain ⟨hdlow, hdhigh⟩ := log2_bounds hden
  have hden' : (0 : ℚ) < den := by positivity
  constructor
  · rw [lt_div_iff₀ hden']
    calc (2 : ℚ) ^ ((Nat.log2 num : ℤ) - Nat.log2 den - 1) * den
        < 2 ^ ((Nat.log2 num : ℤ) - Nat.log2 den - 1) * 2 ^ ((Nat.log2 den : ℤ) + 1) :=
          mul_lt_mul_of_pos_left hdhigh (two_zpow_pos _)
      _ = 2 ^ (Nat.log2 num : ℤ) := by
          rw [← zpow_add₀ (by norm_num)]
          congr 1
          ring
      _ ≤ num := hnlow
  · rw [div_lt_iff₀ hden']
    calc (num : ℚ) < 2 ^ ((Nat.log2 num : ℤ) + 1) := hnhigh
      _ = 2 ^ ((Nat.log2 num : ℤ) - Nat.log2 den + 1) * 2 ^ (Nat.log2 den : ℤ) := by
          rw [← zpow_add₀ (by norm_num)]
          congr 1
          ring
      _ ≤ 2 ^ ((Nat.log2 num : ℤ) - Nat.log2 den + 1) * den :=
          mul_le_mul_of_nonneg_left hdlow (two_zpow_pos _).le

theorem lastPlace_bounds {num den : Nat} (hnum : 0 < num) (hden : 0 < den) :
    leastExponent ≤ lastPlace num den ∧ (num : ℚ) / den < 2 ^ (53 + lastPlace num den) ∧
      (leastExponent < lastPlace num den → (2 : ℚ) ^ (52 + lastPlace num den) ≤ num / den) := by
  obtain ⟨hlow, hhigh⟩ := quotient_bounds hnum hden
  unfold lastPlace
  generalize he : (Nat.log2 num : ℤ) - Nat.log2 den - 53 = e
  have hlow : (2 : ℚ) ^ (52 + e) < num / den := by
    rwa [show 52 + e = (Nat.log2 num : ℤ) - Nat.log2 den - 1 by omega]
  have hhigh : (num : ℚ) / den < 2 ^ (54 + e) := by
    rwa [show 54 + e = (Nat.log2 num : ℤ) - Nat.log2 den + 1 by omega]
  obtain ⟨hd, hunits⟩ := inUnits_eq num hden e
  dsimp only
  -- whether the quotient has 53 or 54 digits before the place of `e`
  have hcompare : (inUnits num den e).1 / (inUnits num den e).2 < Nat.pow 2 53 ↔
      (num : ℚ) / den < 2 ^ (53 + e) := by
    rw [Nat.div_lt_iff_lt_mul hd, two_zpow_ofNat_add 53 e, ← div_lt_iff₀ (two_zpow_pos e), ← hunits,
      div_lt_iff₀ (by exact_mod_cast hd)]
    exact_mod_cast Iff.rfl
  simp only [hcompare]
  by_cases h : (num : ℚ) / den < 2 ^ (53 + e)
  · rw [if_pos h]
    refine ⟨le_max_left _ _, lt_of_lt_of_le h (two_zpow_le (by omega)), fun hleast => ?_⟩
    have hmax : max leastExponent e = e := by omega
    rw [hmax]
    exact hlow.le
  · rw [if_neg h]
    refine ⟨le_max_left _ _, lt_of_lt_of_le hhigh (two_zpow_le (by omega)), fun hleast => ?_⟩
    have hmax : max leastExponent (e + 1) = e + 1 := by omega
    rw [hmax, show 52 + (e + 1) = 53 + e by omega]
    exact not_lt.mp h

def Dyadic.value (x : Dyadic) : ℚ := x.significand * 2 ^ x.exponent

theorem Dyadic.value_nonneg (x : Dyadic) : 0 ≤ x.value :=
  mul_nonneg (Nat.cast_nonneg _) (two_zpow_pos _).le

def Dyadic.quartersBelow (x : Dyadic) : Nat :=
  if x.significand = 2 ^ 52 ∧ leastExponent < x.exponent then 1 else 2

structure Dyadic.Nearest (x : Dyadic) (r : ℚ) : Prop where
  low : (4 * x.significand - x.quartersBelow) * (2 : ℚ) ^ (x.exponent - 2) ≤ r
  high : r ≤ (4 * x.significand + 2) * (2 : ℚ) ^ (x.exponent - 2)
  odd : x.significand % 2 = 1 →
    (4 * x.significand - x.quartersBelow) * (2 : ℚ) ^ (x.exponent - 2) < r ∧
      r < (4 * x.significand + 2) * (2 : ℚ) ^ (x.exponent - 2)

structure Dyadic.Normal (x : Dyadic) : Prop where
  small : x.significand < 2 ^ 53
  least : leastExponent ≤ x.exponent
  full : leastExponent < x.exponent → 2 ^ 52 ≤ x.significand

theorem normal_ofMagnitude (m : Nat) : (Dyadic.ofMagnitude m).Normal := by
  unfold Dyadic.ofMagnitude
  split
  · exact ⟨by simp_all; omega, le_refl _, fun h => absurd h (lt_irrefl _)⟩
  · rename_i h
    simp only [Nat.pow_eq] at h ⊢
    exact ⟨by dsimp only; omega, by dsimp only; omega, fun _ => by dsimp only; omega⟩

theorem magnitude_eq (m : Nat) :
    m = ((Dyadic.ofMagnitude m).exponent - leastExponent).toNat * 2 ^ 52 +
      (Dyadic.ofMagnitude m).significand := by
  unfold Dyadic.ofMagnitude
  split
  · simp
  · rename_i h
    simp only [Nat.pow_eq] at h ⊢
    have := Nat.div_add_mod m (2 ^ 52)
    omega

namespace Dyadic

variable {x : Dyadic} {r : ℚ}

theorem quartersBelow_le (x : Dyadic) : (x.quartersBelow : ℚ) ≤ 2 := by
  unfold quartersBelow
  split <;> norm_num

theorem Nearest.low_two (h : x.Nearest r) :
    (4 * x.significand - 2) * (2 : ℚ) ^ (x.exponent - 2) ≤ r :=
  le_trans (mul_le_mul_of_nonneg_right (by linarith [x.quartersBelow_le]) (two_zpow_pos _).le) h.low

theorem Nearest.odd_two (h : x.Nearest r) (hodd : x.significand % 2 = 1) :
    (4 * x.significand - 2) * (2 : ℚ) ^ (x.exponent - 2) < r :=
  lt_of_le_of_lt
    (mul_le_mul_of_nonneg_right (by linarith [x.quartersBelow_le]) (two_zpow_pos _).le)
    (h.odd hodd).1

theorem Nearest.units (h : x.Nearest r) {t : ℚ} (ht : t = r / 2 ^ x.exponent) :
    2 * x.significand - 1 ≤ 2 * t ∧ 2 * t ≤ 2 * x.significand + 1 ∧
      (x.significand % 2 = 1 →
        2 * x.significand - 1 < 2 * t ∧ 2 * t < 2 * x.significand + 1) := by
  have hq := two_zpow_pos (x.exponent - 2)
  have hpow : (2 : ℚ) ^ x.exponent = 4 * 2 ^ (x.exponent - 2) := by
    rw [show x.exponent = 2 + (x.exponent - 2) by ring, two_zpow_ofNat_add]
    norm_num
  have hr : r = 4 * t * 2 ^ (x.exponent - 2) := by
    rw [ht, hpow]
    field_simp
  have hlow := h.low_two
  have hhigh := h.high
  have hodd := fun hs => h.odd_two hs
  have hodd' := fun hs => (h.odd hs).2
  subst hr
  refine ⟨?_, ?_, fun hs => ⟨?_, ?_⟩⟩
  · linarith [le_of_mul_le_mul_right hlow hq]
  · linarith [le_of_mul_le_mul_right hhigh hq]
  · linarith [lt_of_mul_lt_mul_right (hodd hs) hq.le]
  · linarith [lt_of_mul_lt_mul_right (hodd' hs) hq.le]

end Dyadic

theorem roundToEven_of_units {n d s : Nat} (hd : 0 < d) (hlow : 2 * (s : ℚ) - 1 ≤ 2 * (n / d))
    (hhigh : 2 * ((n : ℚ) / d) ≤ 2 * s + 1)
    (hodd : s % 2 = 1 → 2 * (s : ℚ) - 1 < 2 * (n / d) ∧ 2 * ((n : ℚ) / d) < 2 * s + 1) :
    roundToEven n d = s := by
  have hd' : (0 : ℚ) < d := by exact_mod_cast hd
  apply roundToEven_eq _ _ hd _
  · rw [← mul_div_assoc, le_div_iff₀ hd'] at hlow
    have : (2 : ℚ) * s * d ≤ 2 * n + d := by linarith
    exact_mod_cast this
  · rw [← mul_div_assoc, div_le_iff₀ hd'] at hhigh
    exact_mod_cast hhigh
  · intro hs
    obtain ⟨hlow, hhigh⟩ := hodd hs
    rw [← mul_div_assoc, lt_div_iff₀ hd'] at hlow
    rw [← mul_div_assoc, div_lt_iff₀ hd'] at hhigh
    have : (2 : ℚ) * s * d < 2 * n + d := by linarith
    exact ⟨by exact_mod_cast this, by exact_mod_cast hhigh⟩

section Quotient

variable {num den : Nat} {x : Dyadic}

theorem lastPlace_cases (hnum : 0 < num) (hden : 0 < den) (hx : x.Normal)
    (hnear : x.Nearest (num / den)) :
    lastPlace num den = x.exponent ∨
      (lastPlace num den = x.exponent - 1 ∧ x.significand = 2 ^ 52 ∧ x.quartersBelow = 1) := by
  obtain ⟨hleast, hbelow, habove⟩ := lastPlace_bounds hnum hden
  have hq := two_zpow_pos (x.exponent - 2)
  generalize lastPlace num den = E at *
  generalize (num : ℚ) / den = r at *
  have hsmall : (x.significand : ℚ) + 1 ≤ 2 ^ 53 := by exact_mod_cast hx.small
  have hnotAbove : ¬ x.exponent < E := by
    intro hlt
    have h1 := habove (lt_of_le_of_lt hx.least hlt)
    have h2 : (2 : ℚ) ^ (55 + (x.exponent - 2)) ≤ 2 ^ (52 + E) := two_zpow_le (by omega)
    rw [two_zpow_ofNat_add] at h2
    nlinarith [hnear.high]
  by_cases heq : E = x.exponent
  · exact .inl heq
  right
  have hfull := hx.full (by omega)
  have hfull' : (2 : ℚ) ^ 52 ≤ x.significand := by exact_mod_cast hfull
  have hnotBelow : ¬ E < x.exponent - 1 := by
    intro hlt
    have h2 : (2 : ℚ) ^ (53 + E) ≤ 2 ^ (53 + (x.exponent - 2)) := two_zpow_le (by omega)
    rw [two_zpow_ofNat_add 53 (x.exponent - 2)] at h2
    nlinarith [hnear.low_two]
  have hE : E = x.exponent - 1 := by omega
  have hfirst : x.significand = 2 ^ 52 := by
    by_contra hne
    have : (2 : ℚ) ^ 52 + 1 ≤ x.significand := by
      exact_mod_cast Nat.lt_of_le_of_ne hfull (Ne.symm hne)
    rw [hE, show 53 + (x.exponent - 1) = 54 + (x.exponent - 2) by ring, two_zpow_ofNat_add]
      at hbelow
    nlinarith [hnear.low_two]
  refine ⟨hE, hfirst, ?_⟩
  rw [Dyadic.quartersBelow, if_pos ⟨hfirst, by omega⟩]

theorem roundQuotient_of_nearest (hnum : 0 < num) (hden : 0 < den) (hx : x.Normal)
    (hnear : x.Nearest (num / den)) :
    roundQuotient num den = min infinityMagnitude
      ((x.exponent - leastExponent).toNat * 2 ^ 52 + x.significand) := by
  obtain ⟨hleast, hbelow, -⟩ := lastPlace_bounds hnum hden
  have hunits := fun e => inUnits_eq num hden e
  have hcases := lastPlace_cases hnum hden hx hnear
  rw [roundQuotient, if_neg (by omega)]
  dsimp only
  refine congrArg (min infinityMagnitude) ?_
  generalize lastPlace num den = E at *
  obtain ⟨hd, hunits⟩ := hunits E
  rcases hcases with rfl | ⟨rfl, hfirst, hbelow1⟩
  · obtain ⟨hlow, hhigh, hodd⟩ := hnear.units hunits
    rw [roundToEven_of_units hd hlow hhigh hodd, Nat.pow_eq]
  · -- the quotient is between the last two whole numbers below the power and rounds up to it
    have hq := two_zpow_pos (x.exponent - 2)
    have hpow : (2 : ℚ) ^ (x.exponent - 1) = 2 * 2 ^ (x.exponent - 2) := by
      rw [show x.exponent - 1 = 1 + (x.exponent - 2) by ring, zpow_add₀ (by norm_num), zpow_one]
    have hround : roundToEven (inUnits num den (x.exponent - 1)).1
        (inUnits num den (x.exponent - 1)).2 = 2 ^ 53 := by
      have hlow := hnear.low
      rw [hfirst, hbelow1] at hlow
      rw [show 53 + (x.exponent - 1) = 54 + (x.exponent - 2) by ring, two_zpow_ofNat_add] at hbelow
      rw [hpow, ← div_div] at hunits
      generalize (num : ℚ) / den = r at *
      generalize (2 : ℚ) ^ (x.exponent - 2) = q at *
      have hr : r = 2 * ((inUnits num den (x.exponent - 1)).1 /
          (inUnits num den (x.exponent - 1)).2) * q := by
        rw [hunits]
        field_simp
      rw [hr] at hlow hbelow
      have h1 := le_of_mul_le_mul_right hlow hq
      have h2 := lt_of_mul_lt_mul_right hbelow hq.le
      apply roundToEven_of_units hd
      · push_cast at h1 ⊢
        linarith
      · push_cast at h2 ⊢
        linarith
      · intro hodd
        exact absurd hodd (by norm_num)
    rw [hround, hfirst, Nat.pow_eq]
    omega

end Quotient

theorem roundQuotient_eq {num den m : Nat} (hnum : 0 < num) (hden : 0 < den)
    (hm : m < infinityMagnitude) (hnear : (Dyadic.ofMagnitude m).Nearest (num / den)) :
    roundQuotient num den = m := by
  rw [roundQuotient_of_nearest hnum hden (normal_ofMagnitude m) hnear, ← magnitude_eq]
  omega

end BoostedTrees.Binary64
