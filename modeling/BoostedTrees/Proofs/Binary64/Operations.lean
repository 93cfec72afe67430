import BoostedTrees.Proofs.Binary64.Faithful
import BoostedTrees.Proofs.Binary64.Order
import Mathlib

namespace BoostedTrees.Binary64

open Float.Model UnpackedFloat

def oneMagnitude : Nat := 0x3FF0000000000000

theorem valueOf_oneMagnitude : valueOf oneMagnitude = 1 := by
  have hparts : Dyadic.ofMagnitude oneMagnitude = ⟨2 ^ 52, -52⟩ := by decide
  rw [valueOf, hparts, Dyadic.value]
  norm_num [zpow_neg]

section Aligned

variable {x y : Dyadic}

def Dyadic.aligned (x : Dyadic) (e : ℤ) : Nat := x.significand <<< (x.exponent - e).toNat

theorem Dyadic.aligned_value {e : ℤ} (h : e ≤ x.exponent) :
    (x.aligned e : ℚ) * 2 ^ e = x.value := by
  have hshift := shiftLeft_value x.significand x.exponent (x.exponent - e).toNat
  rwa [Int.toNat_of_nonneg (by omega), sub_sub_cancel] at hshift

theorem Dyadic.aligned_le {e : ℤ} (hx : x.Normal) (hy : y.Normal) (hex : e ≤ x.exponent)
    (hey : e ≤ y.exponent) (h : x.magnitude ≤ y.magnitude) : x.aligned e ≤ y.aligned e := by
  have hvalue : x.value ≤ y.value := by
    rw [← hx.value_eq, ← hy.value_eq]
    exact valueOf_le_iff.mpr h
  rw [← aligned_value hex, ← aligned_value hey] at hvalue
  have hle := le_of_mul_le_mul_right hvalue (two_zpow_pos e)
  exact_mod_cast hle

end Aligned

section Normalize

variable {i : ℤ} {e : ℤ}

theorem packed_normalize_pos (h : 0 < i) (zeroSign : Sign) :
    ∃ k, Rounds (i * 2 ^ e) k ∧
      packed (normalize Format.binary64 i e zeroSign) = signed false (min infinityMagnitude k) := by
  obtain ⟨k, hk, hpacked⟩ := packed_round false (show 0 < i.toNat by omega) e
  rw [show ((i.toNat : Nat) : ℚ) = i by exact_mod_cast Int.toNat_of_nonneg h.le] at hk
  refine ⟨k, hk, ?_⟩
  rw [UnpackedFloat.normalize, compare_gt_iff_gt.mpr h]
  exact hpacked

theorem packed_normalize_nonpos (h : i ≤ 0) :
    ∃ negative k, k ≤ infinityMagnitude ∧ rankOf negative k ≤ 0 ∧
      packed (normalize Format.binary64 i e .positive) = signed negative k := by
  rcases h.lt_or_eq with hlt | rfl
  · obtain ⟨k, -, hpacked⟩ := packed_round true (show 0 < (-i).toNat by omega) e
    refine ⟨true, _, min_le_left _ k, by rw [rankOf_true]; omega, ?_⟩
    rw [UnpackedFloat.normalize, compare_lt_iff_lt.mpr hlt]
    exact hpacked
  · exact ⟨false, 0, Nat.zero_le _, le_refl _, packed_zero false⟩

theorem packed_add_finite {m n : Nat} {e f : ℤ} (hx : (⟨m, e⟩ : Dyadic).Normal)
    (hy : (⟨n, f⟩ : Dyadic).Normal) (hm : 0 < m) (hn : 0 < n) :
    ∃ k, packed ((UnpackedFloat.finite .positive m e hm).add Format.binary64
        (.finite .positive n f hn)) = signed false (min infinityMagnitude k) ∧
      (⟨m, e⟩ : Dyadic).magnitude ≤ k ∧ (⟨n, f⟩ : Dyadic).magnitude ≤ k := by
  have hleft := Dyadic.aligned_value (x := ⟨m, e⟩) (min_le_left e f)
  have hright := Dyadic.aligned_value (x := ⟨n, f⟩) (min_le_right e f)
  have hpos : 0 < (⟨m, e⟩ : Dyadic).aligned (min e f) := by
    rw [Dyadic.aligned, Nat.shiftLeft_eq]
    exact Nat.mul_pos hm (Nat.pow_pos (by decide))
  obtain ⟨k, hk, hpacked⟩ := packed_normalize_pos (e := min e f)
    (i := (⟨m, e⟩ : Dyadic).aligned (min e f) + (⟨n, f⟩ : Dyadic).aligned (min e f)) (by omega)
    .positive
  push_cast at hk
  rw [add_mul, hleft, hright] at hk
  refine ⟨k, hpacked, hk.low _ ?_, hk.low _ ?_⟩
  · rw [hx.value_eq]
    exact le_add_of_nonneg_right (Dyadic.value_nonneg _)
  · rw [hy.value_eq]
    exact le_add_of_nonneg_left (Dyadic.value_nonneg _)

end Normalize

section Quotient

variable {m n : Nat} {e f : ℤ}

theorem accuracyOfFraction_eq_exact {r d : Nat} : accuracyOfFraction r d = .exact ↔ r = 0 := by
  unfold accuracyOfFraction
  split
  · exact iff_of_true rfl ‹_›
  · exact iff_of_false nofun ‹_›

theorem accuracyOfFraction_encloses {q r d : Nat} (hd : r < d) (g : ℤ) :
    Encloses (.ofMantissaAndAccuracy q (accuracyOfFraction r d)) g ((q + r / d) * 2 ^ g) := by
  have hplace := two_zpow_pos g
  have hd' : (0 : ℚ) < d := by exact_mod_cast Nat.zero_lt_of_lt hd
  have hfraction : (0 : ℚ) ≤ r / d := by positivity
  have hbelow : (r : ℚ) / d < 1 := by
    rw [div_lt_one hd']
    exact_mod_cast hd
  refine ⟨?_, ?_, ?_⟩
  · rw [mantissa_ofMantissaAndAccuracy]
    exact mul_le_mul_of_nonneg_right (by linarith) hplace.le
  · rw [mantissa_ofMantissaAndAccuracy]
    exact mul_lt_mul_of_pos_right (by linarith) hplace
  · rw [residual_clear_iff, accuracyOfFraction_eq_exact, mantissa_ofMantissaAndAccuracy,
      mul_left_inj' hplace.ne', add_eq_left, div_eq_zero_iff, Nat.cast_eq_zero]
    exact or_iff_left hd'.ne'

theorem divCore_digits (hm : 0 < m) (hn : 0 < n) :
    leastExponent < (divCore Format.binary64 m e n f).2.1 →
      2 ^ 52 ≤ (divCore Format.binary64 m e n f).1 := by
  intro hplace
  unfold divCore at hplace ⊢
  dsimp only at hplace ⊢
  have htarget : Format.binary64.targetExponent (totalExponent m e - totalExponent n f) =
    max ((m.log2 : ℤ) + 1 + e - (n.log2 + 1 + f) - 53) leastExponent := rfl
  rw [htarget] at hplace ⊢
  have hamount := Int.toNat_eq_max
    (e - f - min (e - f) (max ((m.log2 : ℤ) + 1 + e - (n.log2 + 1 + f) - 53) leastExponent))
  generalize (e - f - min (e - f)
    (max ((m.log2 : ℤ) + 1 + e - (n.log2 + 1 + f) - 53) leastExponent)).toNat = s at *
  have hdigits : 53 + n.log2 ≤ m.log2 + s := by omega
  rw [Nat.le_div_iff_mul_le hn]
  calc 2 ^ 52 * n ≤ 2 ^ 52 * 2 ^ (n.log2 + 1) := Nat.mul_le_mul_left _ Nat.lt_log2_self.le
    _ = 2 ^ (53 + n.log2) := by rw [← Nat.pow_add]; congr 1; omega
    _ ≤ 2 ^ (m.log2 + s) := Nat.pow_le_pow_right (by decide) hdigits
    _ = 2 ^ m.log2 * 2 ^ s := Nat.pow_add _ _ _
    _ ≤ m * 2 ^ s := Nat.mul_le_mul_right _ (Nat.log2_self_le hm.ne')
    _ = m <<< s := (Nat.shiftLeft_eq _ _).symm

theorem divCore_encloses (hn : 0 < n) :
    Encloses (.ofMantissaAndAccuracy (divCore Format.binary64 m e n f).1
        (divCore Format.binary64 m e n f).2.2) (divCore Format.binary64 m e n f).2.1
      ((⟨m, e⟩ : Dyadic).value / (⟨n, f⟩ : Dyadic).value) := by
  unfold divCore
  dsimp only
  generalize Format.binary64.targetExponent (totalExponent m e - totalExponent n f) = g
  have hn' : (n : ℚ) ≠ 0 := by positivity
  have hamount : ((e - f - min (e - f) g).toNat : ℤ) = e - f - min (e - f) g :=
    Int.toNat_of_nonneg (by omega)
  generalize hs : (e - f - min (e - f) g).toNat = s at *
  have hvalue : (⟨m, e⟩ : Dyadic).value / (⟨n, f⟩ : Dyadic).value =
      (((m <<< s) / n : Nat) + ((m <<< s) % n : Nat) / n) * 2 ^ min (e - f) g := by
    have hdivision :
        (((m <<< s) / n : Nat) : ℚ) + ((m <<< s) % n : Nat) / n = (m <<< s : Nat) / n := by
      have hparts : (n : ℚ) * ((m <<< s) / n : Nat) + ((m <<< s) % n : Nat) = (m <<< s : Nat) := by
        exact_mod_cast Nat.div_add_mod (m <<< s) n
      rw [← hparts]
      field_simp
    have hshift := shiftLeft_value m (e - f) s
    rw [show e - f - (s : ℤ) = min (e - f) g by omega, zpow_sub₀ (by norm_num)] at hshift
    rw [hdivision, div_mul_eq_mul_div, hshift, Dyadic.value, Dyadic.value]
    field_simp
  rw [hvalue]
  exact accuracyOfFraction_encloses (Nat.mod_lt _ hn) _

end Quotient

section Parts

variable {u v : UnpackedFloat} {a b : Bool} {j k : Nat}

theorem eq_false_of_rankOf (hrank : 0 ≤ rankOf a j) (hj : 0 < j) : a = false := by
  cases a with
  | false => rfl
  | true =>
    rw [rankOf_true] at hrank
    omega

theorem Unpacks.le_infinity (hu : Unpacks u a j) : j ≤ infinityMagnitude := by
  cases hu with
  | infinity => exact le_refl _
  | zero => exact Nat.zero_le _
  | finite _ _ _ hbelow => exact hbelow.le

theorem Unpacks.add (hu : Unpacks u a j) (hv : Unpacks v b k) (ha : 0 ≤ rankOf a j)
    (hb : 0 ≤ rankOf b k) :
    ∃ c i, i ≤ infinityMagnitude ∧ packed (u.add Format.binary64 v) = signed c i ∧
      rankOf a j ≤ rankOf c i ∧ rankOf b k ≤ rankOf c i := by
  have hinf : 0 < infinityMagnitude := by decide
  have hupper := rankOf_le
  cases hu with
  | infinity =>
    obtain rfl := eq_false_of_rankOf ha hinf
    have hle : rankOf b k ≤ infinityMagnitude :=
      (hupper b k).trans (by exact_mod_cast hv.le_infinity)
    refine ⟨false, infinityMagnitude, le_refl _, ?_, le_refl _, hle⟩
    cases hv with
    | infinity =>
      obtain rfl := eq_false_of_rankOf hb hinf
      exact packed_infinity false
    | zero => exact packed_infinity false
    | finite => exact packed_infinity false
  | zero =>
    rw [rankOf_zero]
    have hsum : packed ((UnpackedFloat.zero (signOf a)).add Format.binary64 v) = signed b k ∨
        packed ((UnpackedFloat.zero (signOf a)).add Format.binary64 v) = signed false k ∧
          k = 0 := by
      cases hv with
      | infinity => exact .inl (packed_infinity b)
      | zero =>
        cases a <;> cases b
        · exact .inl (packed_zero false)
        · exact .inr ⟨packed_zero false, rfl⟩
        · exact .inl (packed_zero false)
        · exact .inl (packed_zero true)
      | finite _ hpos hnormal hbelow =>
        exact .inl (packed_unpacked (.finite b hpos hnormal hbelow))
    rcases hsum with hsum | ⟨hsum, rfl⟩
    · exact ⟨b, k, hv.le_infinity, hsum, hb, le_refl _⟩
    · exact ⟨false, 0, Nat.zero_le _, hsum, le_refl _, by rw [rankOf_zero, rankOf_zero]⟩
  | finite _ hpos hnormal hbelow =>
    obtain rfl := eq_false_of_rankOf ha (Dyadic.magnitude_pos hpos)
    cases hv with
    | infinity =>
      obtain rfl := eq_false_of_rankOf hb hinf
      exact ⟨false, infinityMagnitude, le_refl _, packed_infinity false,
        by rw [rankOf_false, rankOf_false]; omega, le_refl _⟩
    | zero =>
      have hkept := packed_unpacked (.finite false hpos hnormal hbelow)
      exact ⟨false, _, hbelow.le, hkept, le_refl _, by rw [rankOf_zero]; exact ha⟩
    | finite _ hpos' hnormal' hbelow' =>
      obtain rfl := eq_false_of_rankOf hb (Dyadic.magnitude_pos hpos')
      obtain ⟨i, hsum, hleft, hright⟩ := packed_add_finite hnormal hnormal' hpos hpos'
      refine ⟨false, _, min_le_left _ i, hsum, ?_, ?_⟩
      · rw [rankOf_false, rankOf_false]
        omega
      · rw [rankOf_false, rankOf_false]
        omega

theorem neg_signOf (negative : Bool) : -signOf negative = signOf (!negative) := by
  cases negative <;> rfl

theorem Unpacks.neg (hu : Unpacks u a j) : packed u.neg = signed (!a) j := by
  cases hu with
  | infinity =>
    rw [← packed_infinity, ← neg_signOf]
    rfl
  | zero =>
    rw [← packed_zero, ← neg_signOf]
    rfl
  | @finite _ m e hpos hnormal hbelow =>
    change packed (.finite (-signOf a) m e hpos) = _
    simp only [neg_signOf]
    exact packed_unpacked (.finite (!a) hpos hnormal hbelow)

theorem rankOf_not (negative : Bool) (k : Nat) : rankOf (!negative) k = -rankOf negative k := by
  cases negative
  · rfl
  · exact (neg_neg _).symm

theorem apply_sub_apply_nonpos {x y : Dyadic} {e : ℤ} (hx : x.Normal) (hy : y.Normal)
    (hpos : 0 < x.magnitude) (hex : e ≤ x.exponent) (hey : e ≤ y.exponent)
    (hle : rankOf a x.magnitude ≤ rankOf b y.magnitude) :
    (signOf a).apply (x.aligned e) - (signOf b).apply (y.aligned e) ≤ 0 := by
  cases a with
  | false =>
    cases b with
    | false =>
      rw [rankOf_false, rankOf_false] at hle
      have haligned := Dyadic.aligned_le hx hy hex hey (by omega)
      change (x.aligned e : ℤ) - y.aligned e ≤ 0
      omega
    | true =>
      rw [rankOf_false, rankOf_true] at hle
      omega
  | true =>
    cases b with
    | false =>
      change -(x.aligned e : ℤ) - y.aligned e ≤ 0
      omega
    | true =>
      rw [rankOf_true, rankOf_true] at hle
      have haligned := Dyadic.aligned_le hy hx hey hex (by omega)
      change -(x.aligned e : ℤ) - -(y.aligned e : ℤ) ≤ 0
      omega

theorem Unpacks.sub (hu : Unpacks u a j) (hv : Unpacks v b k) (hle : rankOf a j ≤ rankOf b k)
    (hfinite : k < infinityMagnitude) :
    ∃ c i, i ≤ infinityMagnitude ∧ packed (u.sub Format.binary64 v) = signed c i ∧
      rankOf c i ≤ 0 := by
  have hupper := rankOf_le
  cases hv with
  | infinity => exact absurd hfinite (lt_irrefl _)
  | zero =>
    rw [rankOf_zero] at hle
    cases hu with
    | infinity => exact ⟨a, _, le_refl _, packed_infinity a, hle⟩
    | zero =>
      cases a <;> cases b
      all_goals first
        | exact ⟨false, 0, Nat.zero_le _, packed_zero false, le_refl _⟩
        | exact ⟨true, 0, Nat.zero_le _, packed_zero true, le_refl _⟩
    | finite _ hpos hnormal hbelow =>
      exact ⟨a, _, hbelow.le, packed_unpacked (.finite a hpos hnormal hbelow), hle⟩
  | @finite _ n f hpos' hnormal' hbelow' =>
    cases hu with
    | infinity =>
      have := hupper b (⟨n, f⟩ : Dyadic).magnitude
      cases a with
      | false =>
        rw [rankOf_false] at hle
        omega
      | true => exact ⟨true, _, le_refl _, packed_infinity true, by decide⟩
    | zero =>
      rw [rankOf_zero] at hle
      exact ⟨!b, _, hbelow'.le, (Unpacks.finite b hpos' hnormal' hbelow').neg,
        by rw [rankOf_not]; omega⟩
    | @finite _ m e hpos hnormal hbelow =>
      obtain ⟨c, i, hi, hrank, hpacked⟩ := packed_normalize_nonpos (e := min e f)
        (apply_sub_apply_nonpos hnormal hnormal' (Dyadic.magnitude_pos hpos) (min_le_left e f)
          (min_le_right e f) hle)
      exact ⟨c, i, hi, hpacked, hrank⟩

theorem Unpacks.sub_self (hu : Unpacks u a j) (hfinite : j < infinityMagnitude) :
    packed (u.sub Format.binary64 u) = signed false 0 := by
  cases hu with
  | infinity => exact absurd hfinite (lt_irrefl _)
  | zero => cases a <;> exact packed_zero false
  | @finite _ m e hpos hnormal hbelow =>
    have hnormalize : (UnpackedFloat.finite (signOf a) m e hpos).sub Format.binary64
        (.finite (signOf a) m e hpos) = .zero .positive := by
      unfold UnpackedFloat.sub
      dsimp only
      rw [Int.sub_self]
      rfl
    rw [hnormalize]
    exact packed_zero false

theorem Unpacks.sub_infinity (hu : Unpacks u a infinityMagnitude) :
    (packed (u.sub Format.binary64 u)).isNaN = true := by
  generalize hk : infinityMagnitude = k at hu
  cases hu with
  | infinity => cases a <;> decide
  | zero => exact absurd hk (by decide)
  | finite _ _ _ hbelow => omega

theorem div_signOf (a b : Bool) : signOf a / signOf b = signOf (a != b) := by
  cases a <;> cases b <;> rfl

theorem mul_signOf (a b : Bool) : signOf a * signOf b = signOf (a != b) := by
  cases a <;> cases b <;> rfl

theorem Unpacks.div (hu : Unpacks u a j) (hv : Unpacks v b k) (ha : 0 ≤ rankOf a j)
    (hfinite : j < infinityMagnitude) (hle : rankOf a j ≤ rankOf b k)
    (hone : oneMagnitude ≤ rankOf b k) :
    ∃ c i, i ≤ infinityMagnitude ∧ packed (u.div Format.binary64 v) = signed c i ∧
      0 ≤ rankOf c i ∧ rankOf c i ≤ oneMagnitude := by
  have hzero : ∀ c, 0 ≤ rankOf c 0 ∧ rankOf c 0 ≤ oneMagnitude := fun c => by
    rw [rankOf_zero]
    decide
  have hpositive : 0 < k := by
    have := rankOf_le b k
    have : 0 < oneMagnitude := by decide
    omega
  obtain rfl := eq_false_of_rankOf (ha.trans hle) hpositive
  cases hu with
  | infinity => exact absurd hfinite (lt_irrefl _)
  | zero =>
    refine ⟨a != false, 0, Nat.zero_le _, ?_, hzero _⟩
    rw [← packed_zero, ← div_signOf]
    cases hv with
    | infinity => rfl
    | zero => exact absurd hpositive (lt_irrefl _)
    | finite => rfl
  | @finite _ m e hpos hnormal hbelow =>
    cases hv with
    | infinity =>
      refine ⟨a != false, 0, Nat.zero_le _, ?_, hzero _⟩
      rw [← packed_zero, ← div_signOf]
      rfl
    | zero => exact absurd hpositive (lt_irrefl _)
    | @finite _ n f hpos' hnormal' hbelow' =>
      obtain rfl := eq_false_of_rankOf ha (Dyadic.magnitude_pos hpos)
      rw [rankOf_false, rankOf_false] at hle
      obtain ⟨i, hi, hpacked⟩ :=
        packed_roundWithAccuracy false (divCore_encloses hpos') (divCore_digits hpos hpos')
      have hvalue : (⟨m, e⟩ : Dyadic).value ≤ (⟨n, f⟩ : Dyadic).value := by
        rw [← hnormal.value_eq, ← hnormal'.value_eq]
        exact valueOf_le_iff.mpr (by omega)
      have hquotient : i ≤ oneMagnitude := hi.high _ (by
        rw [valueOf_oneMagnitude]
        exact div_le_one_of_le₀ hvalue (Dyadic.value_nonneg _))
      refine ⟨false, _, min_le_left _ i, hpacked, ?_⟩
      rw [rankOf_false]
      omega

theorem isNaN_packed_notANumber : (packed .notANumber).isNaN = true := by decide

theorem mul_digits {m n : Nat} {e f : ℤ} (hx : (⟨m, e⟩ : Dyadic).Normal)
    (hy : (⟨n, f⟩ : Dyadic).Normal) (hm : 0 < m) (hn : 0 < n) (hplace : leastExponent < e + f) :
    2 ^ 52 ≤ m * n := by
  have hleast : leastExponent = -1074 := rfl
  have hm' := hx.full
  have hn' := hy.full
  dsimp only at hm' hn'
  by_cases he : leastExponent < e
  · exact (hm' he).trans (Nat.le_mul_of_pos_right m hn)
  · exact (hn' (by omega)).trans (Nat.le_mul_of_pos_left n hm)

theorem Unpacks.isNaN_mul (hu : Unpacks u a j) (hv : Unpacks v b k) :
    (packed (u.mul Format.binary64 v)).isNaN = true ↔
      j = infinityMagnitude ∧ k = 0 ∨ j = 0 ∧ k = infinityMagnitude := by
  have hpositive : 0 < infinityMagnitude := by decide
  have hnumber : ∀ {w : UnpackedFloat} {c : Bool} {i : Nat}, i ≤ infinityMagnitude →
      packed w = signed c i → ¬(packed w).isNaN = true := by
    intro w c i hi hpacked
    rw [hpacked, isNaN_signed hi]
    exact Bool.false_ne_true
  have hinfinity : ¬(packed (.infinity (signOf a * signOf b))).isNaN = true := by
    rw [mul_signOf]
    exact hnumber (le_refl _) (packed_infinity _)
  have hzero : ¬(packed (.zero (signOf a * signOf b))).isNaN = true := by
    rw [mul_signOf]
    exact hnumber (Nat.zero_le _) (packed_zero _)
  cases hu with
  | infinity =>
    cases hv with
    | infinity => exact iff_of_false hinfinity (by omega)
    | zero => exact iff_of_true isNaN_packed_notANumber (.inl ⟨rfl, rfl⟩)
    | @finite _ n f hpos' hnormal' hbelow' =>
      have := Dyadic.magnitude_pos (e := f) hpos'
      exact iff_of_false hinfinity (by omega)
  | zero =>
    cases hv with
    | infinity => exact iff_of_true isNaN_packed_notANumber (.inr ⟨rfl, rfl⟩)
    | zero => exact iff_of_false hzero (by omega)
    | @finite _ n f hpos' hnormal' hbelow' =>
      have := Dyadic.magnitude_pos (e := f) hpos'
      exact iff_of_false hzero (by omega)
  | @finite _ m e hpos hnormal hbelow =>
    have := Dyadic.magnitude_pos (e := e) hpos
    refine iff_of_false ?_ (by omega)
    cases hv with
    | infinity => exact hinfinity
    | zero => exact hzero
    | @finite _ n f hpos' hnormal' hbelow' =>
      have hexact : Encloses (.ofMantissaAndAccuracy (m * n) .exact) (e + f)
          ((m * n : Nat) * 2 ^ (e + f)) :=
        ⟨le_refl _, mul_lt_mul_of_pos_right (lt_add_one _) (two_zpow_pos _),
          iff_of_true rfl ⟨rfl, rfl⟩⟩
      obtain ⟨i, -, hpacked⟩ := packed_roundWithAccuracy (a != b) hexact
        (mul_digits hnormal hnormal' hpos hpos')
      rw [← mul_signOf] at hpacked
      exact hnumber (min_le_left _ i) hpacked

end Parts

end BoostedTrees.Binary64
