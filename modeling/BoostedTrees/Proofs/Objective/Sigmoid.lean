import BoostedTrees.Objective
import BoostedTrees.Proofs.Binary64.Exponential
import Mathlib

namespace BoostedTrees

open Binary64

namespace Objective

def Unscalable (scale x : Float) : Prop :=
  scale.isNaN = true ∨ scale.isInf = true ∧ (x == zero) = true

instance (scale x : Float) : Decidable (Unscalable scale x) := inferInstanceAs (Decidable (_ ∨ _))

section Sigmoid

variable {x scale : Float}

theorem isNaN_scaled_iff (hfinite : x.isFinite = true) :
    (-scale * x).isNaN = true ↔ Unscalable scale x := by
  rw [isNaN_mul_iff hfinite, isNaN_neg, isInf_neg, Unscalable]

theorem isNaN_scaledSigmoid (h : (-scale * x).isNaN = true) :
    (scaledSigmoid x scale).isNaN = true :=
  isNaN_div (.inr (isNaN_add (.inr (isNaN_exp h))))

theorem scaledSigmoid_unit (h : (-scale * x).isNaN = false) :
    zero ≤ scaledSigmoid x scale ∧ scaledSigmoid x scale ≤ one := by
  have hzero : zero ≤ one := by decide
  have hone : one ≤ one := by decide
  have hsum : one ≤ one + exp (-scale * x) := (le_add hzero (zero_le_exp h)).1
  exact div_unit hzero hone hsum

end Sigmoid

theorem ofName_binary (config : String) :
    ofName? "binary" config = some (.binary (sigmoidScale config)) := by
  rw [ofName?, if_pos rfl]

theorem binary_prediction (config : String) (first : Float) (rest : List Float)
    (hfinite : first.isFinite = true) :
    ∃ p, (ofName? "binary" config).map (transform first rest) = some [p] ∧
      (zero ≤ p ∧ p ≤ one ↔ ¬Unscalable (sigmoidScale config) first) ∧
      (p.isNaN = true ↔ Unscalable (sigmoidScale config) first) := by
  refine ⟨scaledSigmoid first (sigmoidScale config), by rw [ofName_binary]; rfl, ?_⟩
  rw [← isNaN_scaled_iff hfinite]
  cases h : (-sigmoidScale config * first).isNaN with
  | true =>
    have hnan := isNaN_scaledSigmoid h
    refine ⟨iff_of_false (fun hunit => ?_) (not_not_intro rfl), iff_of_true hnan rfl⟩
    rw [(le_iff.mp hunit.2).1] at hnan
    exact Bool.false_ne_true hnan
  | false =>
    have hunit := scaledSigmoid_unit h
    have hnumber := (le_iff.mp hunit.2).1
    refine ⟨iff_of_true hunit Bool.false_ne_true, iff_of_false ?_ Bool.false_ne_true⟩
    rw [hnumber]
    exact Bool.false_ne_true

section Settings

theorem sigmoidScale_nan : (sigmoidScale "sigmoid:nan").isNaN = true := by decide +kernel

theorem sigmoidScale_inf : (sigmoidScale "sigmoid:inf").isInf = true := by decide +kernel

theorem sigmoidScale_one : sigmoidScale "sigmoid:1" = one := by decide +kernel

theorem unitScale_probability :
    zero.isFinite = true ∧ ¬Unscalable (sigmoidScale "sigmoid:1") zero ∧
      ∃ p, (ofName? "binary" "sigmoid:1").map (transform zero []) = some [p] ∧
        zero ≤ p ∧ p ≤ one := by
  have hfinite : zero.isFinite = true := by decide
  have hscalable : ¬Unscalable (sigmoidScale "sigmoid:1") zero := by
    rw [sigmoidScale_one]
    decide
  obtain ⟨p, hp, hunit, -⟩ := binary_prediction "sigmoid:1" zero [] hfinite
  exact ⟨hfinite, hscalable, p, hp, hunit.mpr hscalable⟩

theorem spelledScale_no_probability :
    zero.isFinite = true ∧ ∀ config ∈ ["sigmoid:nan", "sigmoid:inf"],
      ¬∃ p, (ofName? "binary" config).map (transform zero []) = some [p] ∧ zero ≤ p ∧ p ≤ one := by
  have hfinite : zero.isFinite = true := by decide
  refine ⟨hfinite, ?_⟩
  rintro config hconfig ⟨p, hp, -, hone⟩
  have hscale : Unscalable (sigmoidScale config) zero := by
    simp only [List.mem_cons, List.not_mem_nil, or_false] at hconfig
    rcases hconfig with rfl | rfl
    · exact .inl sigmoidScale_nan
    · exact .inr ⟨sigmoidScale_inf, by decide⟩
  have hnan := isNaN_scaledSigmoid ((isNaN_scaled_iff hfinite).mpr hscale)
  rw [ofName_binary, Option.map_some, transform, Option.some.injEq, List.cons.injEq] at hp
  rw [hp.1, (le_iff.mp hone).1] at hnan
  exact Bool.false_ne_true hnan

end Settings

end Objective

end BoostedTrees
