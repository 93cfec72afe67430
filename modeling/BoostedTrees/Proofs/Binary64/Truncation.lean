import BoostedTrees.Binary64.Truncation
import BoostedTrees.Proofs.Binary64.Rounding
import Mathlib.Data.Rat.Floor

namespace BoostedTrees.Binary64

def towardZero (q : ℚ) : ℤ := if 0 ≤ q then ⌊q⌋ else ⌈q⌉

theorem towardZero_neg (q : ℚ) : towardZero (-q) = -towardZero q := by
  rcases lt_trichotomy q 0 with h | rfl | h
  · rw [towardZero, towardZero, if_pos (by linarith), if_neg (by linarith), Int.floor_neg]
  · simp [towardZero]
  · rw [towardZero, towardZero, if_neg (by linarith), if_pos h.le, Int.ceil_neg]

theorem towardZero_value (x : Dyadic) : towardZero x.value = x.floor := by
  rw [towardZero, if_pos x.value_nonneg, Dyadic.value, Dyadic.floor]
  split
  · rename_i h
    rw [zpow_of_nonneg h, Nat.pow_eq]
    exact_mod_cast Int.floor_natCast (x.significand * 2 ^ x.exponent.toNat)
  · rename_i h
    rw [zpow_of_neg h, ← div_eq_mul_inv, Nat.pow_eq]
    exact_mod_cast Rat.floor_natCast_div_natCast x.significand (2 ^ (-x.exponent).toNat)

def truncated32 (x : Float) : ℤ :=
  match Datum.ofBits x.toBits with
  | .nan => 0
  | .infinite negative => if negative then int32Min else int32Max
  | .finite negative d => clamp32 (towardZero (if negative then -d.value else d.value))

theorem toInt32_eq (x : Float) : toInt32 x = truncated32 x := by
  rw [toInt32, truncated32]
  rcases Datum.ofBits x.toBits with _ | (_ | _) | ⟨_ | _, d⟩
  · rfl
  · rfl
  · rfl
  · simp only [Bool.false_eq_true, if_false, towardZero_value]
    rfl
  · simp only [if_true, towardZero_neg, towardZero_value]
    rfl

-- what is not finite has no exact value, and zero stands for it
def toRat (x : Float) : ℚ :=
  match Datum.ofBits x.toBits with
  | .finite negative d => if negative then -d.value else d.value
  | _ => 0

theorem truncate_eq_floor (x : Float) : truncate x = ⌊toRat x⌋₊ := by
  unfold truncate toRat
  rcases Datum.ofBits x.toBits with _ | _ | ⟨_ | _, d⟩
  · exact Nat.floor_zero.symm
  · exact Nat.floor_zero.symm
  · have hfloor := towardZero_value d
    rw [towardZero, if_pos d.value_nonneg] at hfloor
    change d.floor = ⌊d.value⌋₊
    rw [← Int.floor_toNat, hfloor, Int.toNat_natCast]
  · change 0 = ⌊-d.value⌋₊
    rw [Nat.floor_of_nonpos (neg_nonpos.mpr d.value_nonneg)]

end BoostedTrees.Binary64
