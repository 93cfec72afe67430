import BoostedTrees.Proofs.Binary64.Unpacked
import Mathlib

namespace BoostedTrees.Binary64

open Float.Model UnpackedFloat

def rankOf (negative : Bool) (k : Nat) : ℤ := if negative then -k else k

theorem rankOf_false (k : Nat) : rankOf false k = k := rfl

theorem rankOf_true (k : Nat) : rankOf true k = -k := rfl

theorem rankOf_zero (negative : Bool) : rankOf negative 0 = 0 := by
  cases negative <;> rfl

theorem rankOf_le (negative : Bool) (k : Nat) : rankOf negative k ≤ k := by
  cases negative
  · exact le_refl _
  · rw [rankOf_true]
    omega

theorem neg_le_rankOf (negative : Bool) (k : Nat) : -(k : ℤ) ≤ rankOf negative k := by
  cases negative
  · rw [rankOf_false]
    omega
  · exact le_refl _

def rank (x : Float) : ℤ := rankOf (isNegative x.toBits) (magnitude x.toBits)

section Signed

variable {k : Nat}

theorem magnitude_signed (hk : k ≤ infinityMagnitude) (negative : Bool) :
    magnitude (signed negative k).toBits = k := by
  have hinf : infinityMagnitude = 9218868437227405312 := rfl
  have hsign : signBit = 9223372036854775808 := rfl
  have hbelow : k < signBit := by omega
  rw [toBits_signed hk, magnitude, toNat_ofMagnitude hbelow]
  cases negative with
  | false => exact Nat.mod_eq_of_lt hbelow
  | true => exact (Nat.add_mod_left _ _).trans (Nat.mod_eq_of_lt hbelow)

theorem isNegative_signed (hk : k ≤ infinityMagnitude) (negative : Bool) :
    isNegative (signed negative k).toBits = negative := by
  have hinf : infinityMagnitude = 9218868437227405312 := rfl
  have hsign : signBit = 9223372036854775808 := rfl
  have hbelow : k < signBit := by omega
  rw [toBits_signed hk, isNegative, toNat_ofMagnitude hbelow]
  cases negative with
  | false => exact decide_eq_false (Nat.not_le.mpr hbelow)
  | true => exact decide_eq_true (Nat.le_add_right signBit k)

theorem rank_signed (hk : k ≤ infinityMagnitude) (negative : Bool) :
    rank (signed negative k) = rankOf negative k := by
  rw [rank, magnitude_signed hk, isNegative_signed hk]

theorem isNaN_signed (hk : k ≤ infinityMagnitude) (negative : Bool) :
    (signed negative k).isNaN = false := by
  rw [Bool.eq_false_iff]
  intro hnan
  have hmagnitude := magnitude_signed hk negative
  rw [eq_nan_of_isNaN hnan, show magnitude nan.toBits = nanMagnitude by decide] at hmagnitude
  exact absurd hk (by rw [← hmagnitude]; decide)

end Signed

section Compare

theorem compare_magnitude {x y : Dyadic} (hx : x.Normal) (hy : y.Normal) :
    compare x.magnitude y.magnitude =
      (compare x.exponent y.exponent).then (compare x.significand y.significand) := by
  obtain ⟨m, e⟩ := x
  obtain ⟨n, f⟩ := y
  obtain ⟨hm, he, hmfull⟩ := hx
  obtain ⟨hn, hf, hnfull⟩ := hy
  rw [Dyadic.magnitude, Dyadic.magnitude]
  dsimp only at hm he hmfull hn hf hnfull ⊢
  rcases lt_trichotomy e f with hlt | rfl | hgt
  · have := hnfull (by omega)
    rw [compare_lt_iff_lt.mpr hlt, compare_lt_iff_lt.mpr (by omega)]
    rfl
  · rw [compare_eq_iff_eq.mpr rfl, Ordering.eq_then]
    rcases lt_trichotomy m n with hlt | rfl | hgt
    · rw [compare_lt_iff_lt.mpr hlt, compare_lt_iff_lt.mpr (by omega)]
    · rw [compare_eq_iff_eq.mpr rfl, compare_eq_iff_eq.mpr rfl]
    · rw [compare_gt_iff_gt.mpr hgt, compare_gt_iff_gt.mpr (by omega)]
  · have := hmfull (by omega)
    rw [compare_gt_iff_gt.mpr hgt, compare_gt_iff_gt.mpr (by omega)]
    rfl

theorem compare_rankOf_false (j k : Nat) :
    compare (rankOf false j) (rankOf false k) = compare j k := by
  change compare (j : ℤ) (k : ℤ) = compare j k
  rcases lt_trichotomy j k with hlt | rfl | hgt
  · rw [compare_lt_iff_lt.mpr hlt, compare_lt_iff_lt.mpr (by omega)]
  · rw [compare_eq_iff_eq.mpr rfl, compare_eq_iff_eq.mpr rfl]
  · rw [compare_gt_iff_gt.mpr hgt, compare_gt_iff_gt.mpr (by omega)]

theorem compare_rankOf_true (j k : Nat) :
    compare (rankOf true j) (rankOf true k) = (compare j k).swap := by
  change compare (-(j : ℤ)) (-(k : ℤ)) = (compare j k).swap
  rcases lt_trichotomy j k with hlt | rfl | hgt
  · rw [compare_lt_iff_lt.mpr hlt, compare_gt_iff_gt.mpr (by omega)]
    rfl
  · rw [compare_eq_iff_eq.mpr rfl, compare_eq_iff_eq.mpr rfl]
    rfl
  · rw [compare_gt_iff_gt.mpr hgt, compare_lt_iff_lt.mpr (by omega)]
    rfl

theorem Dyadic.magnitude_pos {m : Nat} {e : ℤ} (hpos : 0 < m) :
    0 < (⟨m, e⟩ : Dyadic).magnitude :=
  Nat.add_pos_right _ hpos

theorem Unpacks.compare {u v : UnpackedFloat} {a b : Bool} {j k : Nat} (hu : Unpacks u a j)
    (hv : Unpacks v b k) :
    u.compare v = some (Ord.compare (rankOf a j) (rankOf b k)) := by
  have hlt : ∀ {i i' : ℤ}, i < i' → some Ordering.lt = some (Ord.compare i i') :=
    fun h => congrArg some (compare_lt_iff_lt.mpr h).symm
  have hgt : ∀ {i i' : ℤ}, i' < i → some Ordering.gt = some (Ord.compare i i') :=
    fun h => congrArg some (compare_gt_iff_gt.mpr h).symm
  have hupper := rankOf_le
  have hlower := neg_le_rankOf
  cases hu with
  | infinity =>
    cases hv with
    | infinity => cases a <;> cases b <;> decide
    | zero => cases a <;> cases b <;> decide
    | @finite _ m e _ _ hbelow =>
      have := hupper b (⟨m, e⟩ : Dyadic).magnitude
      have := hlower b (⟨m, e⟩ : Dyadic).magnitude
      cases a with
      | false => exact hgt (by rw [rankOf_false]; omega)
      | true => exact hlt (by rw [rankOf_true]; omega)
  | zero =>
    rw [rankOf_zero]
    cases hv with
    | infinity => cases a <;> cases b <;> decide
    | zero => cases a <;> cases b <;> decide
    | @finite _ m e hpos =>
      have := Dyadic.magnitude_pos (e := e) hpos
      cases b with
      | false => exact hlt (by rw [rankOf_false]; omega)
      | true => exact hgt (by rw [rankOf_true]; omega)
  | @finite _ m e hpos hnormal hbelow =>
    have hmagnitude := Dyadic.magnitude_pos (e := e) hpos
    cases hv with
    | infinity =>
      have := hupper a (⟨m, e⟩ : Dyadic).magnitude
      have := hlower a (⟨m, e⟩ : Dyadic).magnitude
      cases b with
      | false => cases a <;> exact hlt (by rw [rankOf_false infinityMagnitude]; omega)
      | true => cases a <;> exact hgt (by rw [rankOf_true infinityMagnitude]; omega)
    | zero =>
      rw [rankOf_zero]
      cases a with
      | false => exact hgt (by rw [rankOf_false]; omega)
      | true => exact hlt (by rw [rankOf_true]; omega)
    | @finite _ n f hpos' hnormal' =>
      have := Dyadic.magnitude_pos (e := f) hpos'
      cases a with
      | false =>
        cases b with
        | false =>
          rw [compare_rankOf_false, compare_magnitude hnormal hnormal']
          rfl
        | true => exact hgt (by rw [rankOf_false, rankOf_true]; omega)
      | true =>
        cases b with
        | false => exact hlt (by rw [rankOf_false, rankOf_true]; omega)
        | true =>
          rw [compare_rankOf_true, compare_magnitude hnormal hnormal']
          rfl

end Compare

section Float

variable {x y : Float}

theorem unpack_of_isNaN (h : x.isNaN = true) : x.toModel.unpack = .notANumber :=
  isNaN_iff.mp h

theorem compare_of_isNaN_left (h : x.isNaN = true) (v : UnpackedFloat) :
    x.toModel.unpack.compare v = none := by
  rw [unpack_of_isNaN h]
  rfl

theorem compare_of_isNaN_right (h : y.isNaN = true) (u : UnpackedFloat) :
    u.compare y.toModel.unpack = none := by
  rw [unpack_of_isNaN h]
  cases u <;> rfl

theorem compare_unpack (hx : x.isNaN = false) (hy : y.isNaN = false) :
    x.toModel.unpack.compare y.toModel.unpack = some (Ord.compare (rank x) (rank y)) :=
  (unpacks hx).compare (unpacks hy)

theorem lt_iff_compare :
    x < y ↔ (x.toModel.unpack.compare y.toModel.unpack == some .lt) = true :=
  decide_eq_true_iff

theorem le_iff_compare :
    x ≤ y ↔ (x.toModel.unpack.compare y.toModel.unpack).any (·.isLE) = true :=
  decide_eq_true_iff

theorem lt_iff : x < y ↔ x.isNaN = false ∧ y.isNaN = false ∧ rank x < rank y := by
  rw [lt_iff_compare]
  cases hx : x.isNaN with
  | true => simp [compare_of_isNaN_left hx]
  | false =>
    cases hy : y.isNaN with
    | true => simp [compare_of_isNaN_right hy]
    | false =>
      rw [compare_unpack hx hy]
      simp [compare_lt_iff_lt]

theorem le_iff : x ≤ y ↔ x.isNaN = false ∧ y.isNaN = false ∧ rank x ≤ rank y := by
  rw [le_iff_compare]
  cases hx : x.isNaN with
  | true => simp [compare_of_isNaN_left hx]
  | false =>
    cases hy : y.isNaN with
    | true => simp [compare_of_isNaN_right hy]
    | false =>
      rw [compare_unpack hx hy]
      simp [← Ordering.ne_gt_iff_isLE, compare_le_iff_le]

theorem beq_iff : (x == y) = true ↔ x.isNaN = false ∧ y.isNaN = false ∧ rank x = rank y := by
  change (x.toModel.unpack.compare y.toModel.unpack == some .eq) = true ↔ _
  cases hx : x.isNaN with
  | true => simp [compare_of_isNaN_left hx]
  | false =>
    cases hy : y.isNaN with
    | true => simp [compare_of_isNaN_right hy]
    | false =>
      rw [compare_unpack hx hy]
      simp

end Float

end BoostedTrees.Binary64
