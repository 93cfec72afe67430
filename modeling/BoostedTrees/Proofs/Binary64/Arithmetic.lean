import BoostedTrees.Proofs.Binary64.Operations
import BoostedTrees.Proofs.Binary64.Truncation
import Mathlib

namespace BoostedTrees.Binary64

open Float.Model UnpackedFloat

section Kinds

variable {x y : Float}

theorem isNaN_zero : zero.isNaN = false := by decide

theorem isNaN_one : one.isNaN = false := by decide

theorem rank_zero : rank zero = 0 := by decide

theorem rank_one : rank one = oneMagnitude := by decide

theorem isInf_iff : x.isInf = true ↔ x.isNaN = false ∧ magnitude x.toBits = infinityMagnitude := by
  change x.toModel.unpack.isInf = true ↔ _
  cases hx : x.isNaN with
  | true =>
    rw [unpack_of_isNaN hx]
    exact iff_of_false Bool.false_ne_true fun h => Bool.false_ne_true h.1.symm
  | false =>
    have hparts := unpacks hx
    generalize x.toModel.unpack = u at *
    generalize magnitude x.toBits = k at *
    cases hparts with
    | infinity => exact iff_of_true rfl ⟨rfl, rfl⟩
    | zero => exact iff_of_false Bool.false_ne_true fun h => absurd h.2 (by decide)
    | finite _ _ _ hbelow => exact iff_of_false Bool.false_ne_true fun h => hbelow.ne h.2

theorem isFinite_iff : x.isFinite = true ↔ x.isNaN = false ∧ x.isInf = false := by
  change x.toModel.unpack.isFinite = true ↔
    x.toModel.unpack.isNaN = false ∧ x.toModel.unpack.isInf = false
  cases x.toModel.unpack <;>
    simp [UnpackedFloat.isFinite, UnpackedFloat.isNaN, UnpackedFloat.isInf]

theorem magnitude_lt_of_isFinite (h : x.isFinite = true) :
    magnitude x.toBits < infinityMagnitude := by
  obtain ⟨hnan, hinf⟩ := isFinite_iff.mp h
  refine lt_of_le_of_ne (magnitude_le_of_isNaN hnan) fun heq => ?_
  rw [isInf_iff.mpr ⟨hnan, heq⟩] at hinf
  exact Bool.false_ne_true hinf.symm

theorem natAbs_rank (x : Float) : (rank x).natAbs = magnitude x.toBits := by
  rw [rank]
  cases isNegative x.toBits
  · exact Int.natAbs_natCast _
  · exact (Int.natAbs_neg _).trans (Int.natAbs_natCast _)

theorem beq_zero_iff : (x == zero) = true ↔ x.isNaN = false ∧ magnitude x.toBits = 0 := by
  rw [beq_iff, rank_zero, ← natAbs_rank, Int.natAbs_eq_zero]
  exact and_congr_right fun _ => and_iff_right isNaN_zero

theorem isInf_of_le_of_le (hxy : x ≤ y) (hyx : y ≤ x) (h : x.isInf = true) : y.isInf = true := by
  obtain ⟨-, hy, hle⟩ := le_iff.mp hxy
  have hge := (le_iff.mp hyx).2.2
  rw [isInf_iff, ← natAbs_rank] at h ⊢
  exact ⟨hy, by rw [← h.2, le_antisymm hle hge]⟩

theorem trans_le {z : Float} (hxy : x ≤ y) (hyz : y ≤ z) : x ≤ z := by
  rw [le_iff] at hxy hyz ⊢
  exact ⟨hxy.1, hyz.2.1, hxy.2.2.trans hyz.2.2⟩

theorem isFinite_of_le_of_le {z : Float} (hxy : x ≤ y) (hyz : y ≤ z) (hx : x.isFinite = true)
    (hz : z.isFinite = true) : y.isFinite = true := by
  obtain ⟨-, hnan, hlow⟩ := le_iff.mp hxy
  have hhigh := (le_iff.mp hyz).2.2
  have hbelow := magnitude_lt_of_isFinite hx
  have habove := magnitude_lt_of_isFinite hz
  rw [← natAbs_rank] at hbelow habove
  refine isFinite_iff.mpr ⟨hnan, ?_⟩
  rw [Bool.eq_false_iff]
  intro hinf
  have hrank := (isInf_iff.mp hinf).2
  rw [← natAbs_rank] at hrank
  omega

theorem zero_le_iff : zero ≤ x ↔ x.isNaN = false ∧ 0 ≤ rank x := by
  rw [le_iff, rank_zero]
  exact and_iff_right isNaN_zero

end Kinds

section Propagation

variable {x y : Float}

theorem isNaN_packed {op : UnpackedFloat → UnpackedFloat → UnpackedFloat}
    (hleft : ∀ v, op .notANumber v = .notANumber) (hright : ∀ u, op u .notANumber = .notANumber)
    (h : x.isNaN = true ∨ y.isNaN = true) :
    (packed (op x.toModel.unpack y.toModel.unpack)).isNaN = true := by
  rcases h with h | h
  · rw [unpack_of_isNaN h, hleft]
    exact isNaN_packed_notANumber
  · rw [unpack_of_isNaN h, hright]
    exact isNaN_packed_notANumber

theorem isNaN_add (h : x.isNaN = true ∨ y.isNaN = true) : (x + y).isNaN = true :=
  isNaN_packed (fun _ => rfl) (fun u => by cases u <;> rfl) h

theorem isNaN_sub (h : x.isNaN = true ∨ y.isNaN = true) : (x - y).isNaN = true :=
  isNaN_packed (fun _ => rfl) (fun u => by cases u <;> rfl) h

theorem isNaN_div (h : x.isNaN = true ∨ y.isNaN = true) : (x / y).isNaN = true :=
  isNaN_packed (fun _ => rfl) (fun u => by cases u <;> rfl) h

theorem isNaN_mul (h : x.isNaN = true ∨ y.isNaN = true) : (x * y).isNaN = true :=
  isNaN_packed (fun _ => rfl) (fun u => by cases u <;> rfl) h

end Propagation

section Order

variable {x y : Float}

theorem le_add (hx : zero ≤ x) (hy : zero ≤ y) : x ≤ x + y ∧ y ≤ x + y := by
  obtain ⟨hxnan, hxrank⟩ := zero_le_iff.mp hx
  obtain ⟨hynan, hyrank⟩ := zero_le_iff.mp hy
  obtain ⟨c, i, hi, hsum, hleft, hright⟩ := (unpacks hxnan).add (unpacks hynan) hxrank hyrank
  have hsum : x + y = signed c i := hsum
  rw [le_iff, le_iff, hsum, isNaN_signed hi, rank_signed hi]
  exact ⟨⟨hxnan, rfl, hleft⟩, hynan, rfl, hright⟩

theorem sub_le_zero (hle : x ≤ y) (hfinite : y.isFinite = true) : x - y ≤ zero := by
  obtain ⟨hxnan, hynan, hrank⟩ := le_iff.mp hle
  obtain ⟨c, i, hi, hsub, hnonpos⟩ := (unpacks hxnan).sub (unpacks hynan) hrank
    (magnitude_lt_of_isFinite hfinite)
  have hsub : x - y = signed c i := hsub
  rw [le_iff, hsub, isNaN_signed hi, rank_signed hi, rank_zero]
  exact ⟨rfl, isNaN_zero, hnonpos⟩

theorem sub_self_of_isFinite (h : x.isFinite = true) : x - x = zero :=
  (unpacks (isFinite_iff.mp h).1).sub_self (magnitude_lt_of_isFinite h)

theorem isNaN_sub_self (h : x.isInf = true) : (x - x).isNaN = true := by
  obtain ⟨hnan, hinf⟩ := isInf_iff.mp h
  have hparts := unpacks hnan
  rw [hinf] at hparts
  exact hparts.sub_infinity

theorem div_unit (hzero : zero ≤ x) (hone : x ≤ one) (hy : one ≤ y) :
    zero ≤ x / y ∧ x / y ≤ one := by
  obtain ⟨hxnan, -, hxrank⟩ := le_iff.mp hone
  obtain ⟨-, hynan, hyrank⟩ := le_iff.mp hy
  have hnonneg := (zero_le_iff.mp hzero).2
  rw [rank_one] at hxrank hyrank
  have hfinite : magnitude x.toBits < infinityMagnitude :=
    magnitude_lt_of_isFinite (isFinite_of_le_of_le hzero hone (by decide) (by decide))
  obtain ⟨c, i, hi, hdiv, hlow, hhigh⟩ := (unpacks hxnan).div (unpacks hynan) hnonneg hfinite
    (hxrank.trans hyrank) hyrank
  have hdiv : x / y = signed c i := hdiv
  rw [zero_le_iff, le_iff, hdiv, isNaN_signed hi, rank_signed hi, rank_one]
  exact ⟨⟨rfl, hlow⟩, rfl, isNaN_one, hhigh⟩

end Order

section Product

variable {x y : Float}

theorem neg_eq_signed (h : x.isNaN = false) :
    -x = signed (!isNegative x.toBits) (magnitude x.toBits) :=
  (unpacks h).neg

theorem isNaN_neg (x : Float) : (-x).isNaN = x.isNaN := by
  cases h : x.isNaN with
  | true =>
    rw [eq_nan_of_isNaN h]
    decide
  | false => rw [neg_eq_signed h, isNaN_signed (magnitude_le_of_isNaN h)]

theorem isInf_neg (x : Float) : (-x).isInf = x.isInf := by
  rw [Bool.eq_iff_iff, isInf_iff, isInf_iff, isNaN_neg]
  refine and_congr_right fun h => ?_
  rw [neg_eq_signed h, magnitude_signed (magnitude_le_of_isNaN h)]

theorem isNaN_mul_iff (hfinite : y.isFinite = true) :
    (x * y).isNaN = true ↔ x.isNaN = true ∨ x.isInf = true ∧ (y == zero) = true := by
  cases hx : x.isNaN with
  | true => exact iff_of_true (isNaN_mul (.inl hx)) (.inl rfl)
  | false =>
    have hy := (isFinite_iff.mp hfinite).1
    have hbelow := magnitude_lt_of_isFinite hfinite
    have hproduct := (unpacks hx).isNaN_mul (unpacks hy)
    rw [isInf_iff, beq_zero_iff]
    refine Iff.trans hproduct ?_
    constructor
    · rintro (⟨hinf, hzero⟩ | ⟨-, hinf⟩)
      · exact .inr ⟨⟨hx, hinf⟩, hy, hzero⟩
      · exact absurd hinf hbelow.ne
    · rintro (h | ⟨⟨-, hinf⟩, -, hzero⟩)
      · exact absurd h Bool.false_ne_true
      · exact .inl ⟨hinf, hzero⟩

end Product

section Exact

variable {x y : Float}

def ratOf (negative : Bool) (k : Nat) : ℚ := if negative then -valueOf k else valueOf k

theorem toRat_of_isFinite (h : x.isFinite = true) :
    toRat x = ratOf (isNegative x.toBits) (magnitude x.toBits) := by
  unfold toRat Datum.ofBits
  dsimp only
  rw [if_pos (magnitude_lt_of_isFinite h)]
  rfl

theorem ratOf_le_iff (a b : Bool) (j k : Nat) :
    ratOf a j ≤ ratOf b k ↔ rankOf a j ≤ rankOf b k := by
  have hj : 0 ≤ valueOf j := Dyadic.value_nonneg _
  have hk : 0 ≤ valueOf k := Dyadic.value_nonneg _
  have hzero : valueOf 0 = 0 := zero_mul _
  cases a with
  | false =>
    cases b with
    | false => exact valueOf_le_iff.trans Int.ofNat_le.symm
    | true =>
      rw [ratOf, ratOf, rankOf_false, rankOf_true, if_neg (by simp), if_pos rfl]
      constructor
      · intro h
        have hj0 : j ≤ 0 := valueOf_le_iff.mp (by linarith)
        have hk0 : k ≤ 0 := valueOf_le_iff.mp (by linarith)
        omega
      · intro h
        obtain rfl : j = 0 := by omega
        obtain rfl : k = 0 := by omega
        rw [hzero, neg_zero]
  | true =>
    cases b with
    | false =>
      refine iff_of_true ?_ ?_
      · rw [ratOf, ratOf, if_pos rfl, if_neg (by simp)]
        linarith
      · rw [rankOf_true, rankOf_false]
        omega
    | true =>
      rw [ratOf, ratOf, rankOf_true, rankOf_true, if_pos rfl, if_pos rfl, neg_le_neg_iff,
        neg_le_neg_iff, valueOf_le_iff, Int.ofNat_le]

theorem le_iff_toRat (hx : x.isFinite = true) (hy : y.isFinite = true) :
    x ≤ y ↔ toRat x ≤ toRat y := by
  have hxnan := (isFinite_iff.mp hx).1
  have hynan := (isFinite_iff.mp hy).1
  rw [toRat_of_isFinite hx, toRat_of_isFinite hy, ratOf_le_iff, le_iff]
  exact ⟨fun h => h.2.2, fun h => ⟨hxnan, hynan, h⟩⟩

end Exact

end BoostedTrees.Binary64
