import BoostedTrees.Objective
import BoostedTrees.Proofs.Binary64.Exponential
import Mathlib

namespace BoostedTrees

open Binary64

namespace Objective

section Greatest

variable {first x : Float} {rest : List Float}

theorem greatest_cons (first x : Float) (rest : List Float) :
    greatest first (x :: rest) = greatest (if first < x then x else first) rest := rfl

theorem le_refl_of_not_isNaN (h : x.isNaN = false) : x ≤ x := le_iff.mpr ⟨h, h, le_refl _⟩

theorem le_greater (hfirst : first.isNaN = false) (hx : x.isNaN = false) :
    first ≤ (if first < x then x else first) ∧ x ≤ (if first < x then x else first) := by
  split
  · rename_i hlt
    exact ⟨le_iff.mpr ⟨hfirst, hx, (lt_iff.mp hlt).2.2.le⟩, le_refl_of_not_isNaN hx⟩
  · rename_i hnot
    refine ⟨le_refl_of_not_isNaN hfirst, le_iff.mpr ⟨hx, hfirst, ?_⟩⟩
    by_contra hlt
    exact hnot (lt_iff.mpr ⟨hfirst, hx, lt_of_not_ge hlt⟩)

theorem greater_mem (first x : Float) (rest : List Float) :
    (if first < x then x else first) ∈ first :: x :: rest := by
  split
  · exact List.mem_cons_of_mem _ List.mem_cons_self
  · exact List.mem_cons_self

theorem greatest_mem (first : Float) (rest : List Float) : greatest first rest ∈ first :: rest := by
  induction rest generalizing first with
  | nil => exact List.mem_singleton_self first
  | cons x rest ih =>
    rw [greatest_cons]
    rcases List.mem_cons.mp (ih (if first < x then x else first)) with hkept | hlater
    · rw [hkept]
      exact greater_mem first x rest
    · exact List.mem_cons_of_mem _ (List.mem_cons_of_mem _ hlater)

theorem le_greatest (h : ∀ x ∈ first :: rest, x.isNaN = false) :
    ∀ x ∈ first :: rest, x ≤ greatest first rest := by
  induction rest generalizing first with
  | nil =>
    intro x hx
    obtain rfl := List.mem_singleton.mp hx
    exact le_refl_of_not_isNaN (h x hx)
  | cons y rest ih =>
    rw [greatest_cons]
    rw [List.forall_mem_cons, List.forall_mem_cons] at h
    obtain ⟨hfirst, hy, hrest⟩ := h
    obtain ⟨hleFirst, hleY⟩ := le_greater hfirst hy
    have hkept := (le_iff.mp hleY).2.1
    have hall := ih (List.forall_mem_cons.mpr ⟨hkept, hrest⟩)
    rw [List.forall_mem_cons] at hall
    rw [List.forall_mem_cons, List.forall_mem_cons]
    exact ⟨trans_le hleFirst hall.1, trans_le hleY hall.1, hall.2⟩

end Greatest

section Total

variable {powers : List Float} {sum : Float}

theorem isNaN_foldl_add (h : sum.isNaN = true ∨ ∃ p ∈ powers, p.isNaN = true) :
    (powers.foldl (· + ·) sum).isNaN = true := by
  induction powers generalizing sum with
  | nil =>
    rcases h with h | ⟨p, hp, -⟩
    · exact h
    · exact absurd hp List.not_mem_nil
  | cons q powers ih =>
    refine ih ?_
    rcases h with h | ⟨p, hp, hnan⟩
    · exact .inl (isNaN_add (.inl h))
    · rcases List.mem_cons.mp hp with rfl | hp
      · exact .inl (isNaN_add (.inr hnan))
      · exact .inr ⟨p, hp, hnan⟩

theorem le_foldl_add (hsum : zero ≤ sum) (hpowers : ∀ p ∈ powers, zero ≤ p) :
    sum ≤ powers.foldl (· + ·) sum ∧ ∀ p ∈ powers, p ≤ powers.foldl (· + ·) sum := by
  induction powers generalizing sum with
  | nil => exact ⟨le_refl_of_not_isNaN (zero_le_iff.mp hsum).1, nofun⟩
  | cons q powers ih =>
    rw [List.forall_mem_cons] at hpowers ⊢
    obtain ⟨hleft, hright⟩ := le_add hsum hpowers.1
    obtain ⟨hkept, hall⟩ := ih (trans_le hsum hleft) hpowers.2
    exact ⟨trans_le hleft hkept, trans_le hright hkept, hall⟩

end Total

structure PowerLaws (power : Float → Float) : Prop where
  nan : ∀ {x}, x.isNaN = true → (power x).isNaN = true
  zero : power zero = one
  unit : ∀ {x}, x ≤ Binary64.zero → Binary64.zero ≤ power x ∧ power x ≤ one

theorem powerLaws_exp : PowerLaws exp where
  nan := isNaN_exp
  zero := exp_zero
  unit h := ⟨zero_le_exp (le_iff.mp h).1, exp_le_one h⟩

section Prediction

variable (power : Float → Float) (first : Float) (rest : List Float)

def powers : List Float := (first :: rest).map fun x => power (x - greatest first rest)

def total : Float := (powers power first rest).foldl (· + ·) zero

def softmaxBy : List Float :=
  if total power first rest == zero then powers power first rest
  else (powers power first rest).map (· / total power first rest)

theorem softmax_eq_softmaxBy : softmax first rest = softmaxBy exp first rest := rfl

def Degenerate (raw : List Float) : Prop :=
  (∃ x ∈ raw, x.isNaN = true) ∨ ∃ x ∈ raw, x.isInf = true ∧ ∀ y ∈ raw, y ≤ x

structure Trichotomy : Prop where
  length : (softmaxBy power first rest).length = rest.length + 1
  normalised : (total power first rest == zero) = false
  degenerate : Degenerate (first :: rest) → ∀ p ∈ softmaxBy power first rest, p.isNaN = true
  greatest_mem : ¬Degenerate (first :: rest) → greatest first rest ∈ first :: rest
  le_greatest : ¬Degenerate (first :: rest) → ∀ x ∈ first :: rest, x ≤ greatest first rest
  one_le_total : ¬Degenerate (first :: rest) → one ≤ total power first rest
  unit : ¬Degenerate (first :: rest) → ∀ p ∈ softmaxBy power first rest, zero ≤ p ∧ p ≤ one

variable {power first rest}

theorem mem_powers {p : Float} :
    p ∈ powers power first rest ↔ ∃ x ∈ first :: rest, power (x - greatest first rest) = p :=
  List.mem_map

theorem exists_isNaN_sub (h : Degenerate (first :: rest)) :
    ∃ x ∈ first :: rest, (x - greatest first rest).isNaN = true := by
  rcases h with ⟨x, hx, hnan⟩ | ⟨x, hx, hinf, hle⟩
  · exact ⟨x, hx, isNaN_sub (.inl hnan)⟩
  · have hnumbers : ∀ y ∈ first :: rest, y.isNaN = false := fun y hy => (le_iff.mp (hle y hy)).1
    have hgreatest := greatest_mem first rest
    have hinfinite := isInf_of_le_of_le (le_greatest hnumbers x hx) (hle _ hgreatest) hinf
    exact ⟨_, hgreatest, isNaN_sub_self hinfinite⟩

theorem isNaN_total (laws : PowerLaws power) (h : Degenerate (first :: rest)) :
    (total power first rest).isNaN = true := by
  obtain ⟨x, hx, hnan⟩ := exists_isNaN_sub h
  exact isNaN_foldl_add (.inr ⟨_, mem_powers.mpr ⟨x, hx, rfl⟩, laws.nan hnan⟩)

theorem not_isNaN_of_not_degenerate {raw : List Float} (h : ¬Degenerate raw) :
    ∀ x ∈ raw, x.isNaN = false := by
  intro x hx
  rw [Bool.eq_false_iff]
  exact fun hnan => h (.inl ⟨x, hx, hnan⟩)

theorem isFinite_greatest (h : ¬Degenerate (first :: rest)) :
    (greatest first rest).isFinite = true := by
  have hnumbers := not_isNaN_of_not_degenerate h
  have hmem := greatest_mem first rest
  refine isFinite_iff.mpr ⟨hnumbers _ hmem, ?_⟩
  rw [Bool.eq_false_iff]
  exact fun hinf => h (.inr ⟨_, hmem, hinf, le_greatest hnumbers⟩)

theorem powers_unit (laws : PowerLaws power) (h : ¬Degenerate (first :: rest)) :
    ∀ p ∈ powers power first rest, zero ≤ p ∧ p ≤ one := by
  intro p hp
  obtain ⟨x, hx, rfl⟩ := mem_powers.mp hp
  exact laws.unit (sub_le_zero (le_greatest (not_isNaN_of_not_degenerate h) x hx)
    (isFinite_greatest h))

theorem one_mem_powers (laws : PowerLaws power) (h : ¬Degenerate (first :: rest)) :
    one ∈ powers power first rest := by
  refine mem_powers.mpr ⟨_, greatest_mem first rest, ?_⟩
  rw [sub_self_of_isFinite (isFinite_greatest h), laws.zero]

theorem one_le_total (laws : PowerLaws power) (h : ¬Degenerate (first :: rest)) :
    one ≤ total power first rest :=
  (le_foldl_add (le_refl_of_not_isNaN isNaN_zero) fun p hp => (powers_unit laws h p hp).1).2 _
    (one_mem_powers laws h)

theorem total_ne_zero (laws : PowerLaws power) : (total power first rest == zero) = false := by
  rw [Bool.eq_false_iff]
  intro hzero
  obtain ⟨hnumber, -, hrank⟩ := beq_iff.mp hzero
  by_cases h : Degenerate (first :: rest)
  · rw [isNaN_total laws h] at hnumber
    exact Bool.false_ne_true hnumber.symm
  · have hone := (le_iff.mp (one_le_total laws h)).2.2
    rw [hrank] at hone
    exact absurd hone (by decide)

theorem softmaxBy_eq (laws : PowerLaws power) :
    softmaxBy power first rest =
      (powers power first rest).map (· / total power first rest) := by
  rw [softmaxBy, total_ne_zero laws, if_neg Bool.false_ne_true]

theorem softmax_trichotomy (first : Float) (rest : List Float) :
    PowerLaws exp ∧ softmax first rest = softmaxBy exp first rest ∧
      ∀ power, PowerLaws power → Trichotomy power first rest := by
  refine ⟨powerLaws_exp, softmax_eq_softmaxBy first rest, fun power laws => ?_⟩
  have hdivided : softmaxBy power first rest =
      (powers power first rest).map (· / total power first rest) := softmaxBy_eq laws
  refine ⟨?_, total_ne_zero laws, fun h => ?_, fun _ => greatest_mem first rest,
    fun h => le_greatest (not_isNaN_of_not_degenerate h), one_le_total laws, fun h => ?_⟩
  · rw [hdivided, powers, List.length_map, List.length_map, List.length_cons]
  · rw [hdivided, List.forall_mem_map]
    exact fun p _ => isNaN_div (.inr (isNaN_total laws h))
  · rw [hdivided, List.forall_mem_map]
    intro p hp
    obtain ⟨hzero, hone⟩ := powers_unit laws h p hp
    exact div_unit hzero hone (one_le_total laws h)

end Prediction

instance (raw : List Float) : Decidable (Degenerate raw) := inferInstanceAs (Decidable (_ ∨ _))

theorem twoSums_trichotomy :
    (Degenerate [zero, nan] ∧ ∀ p ∈ softmax zero [nan], p.isNaN = true) ∧
      (Degenerate [infinity, zero] ∧ ∀ p ∈ softmax infinity [zero], p.isNaN = true) ∧
      ¬Degenerate [zero, one] ∧ ∀ p ∈ softmax zero [one], zero ≤ p ∧ p ≤ one := by
  obtain ⟨hlaws, hnan, hnanCases⟩ := softmax_trichotomy zero [nan]
  obtain ⟨-, hinf, hinfCases⟩ := softmax_trichotomy infinity [zero]
  obtain ⟨-, hfinite, hfiniteCases⟩ := softmax_trichotomy zero [one]
  have hnoNumber : Degenerate [zero, nan] := by decide
  have hinfinite : Degenerate [infinity, zero] := by decide
  have hordinary : ¬Degenerate [zero, one] := by decide
  rw [hnan, hinf, hfinite]
  exact ⟨⟨hnoNumber, (hnanCases exp hlaws).degenerate hnoNumber⟩,
    ⟨hinfinite, (hinfCases exp hlaws).degenerate hinfinite⟩,
    hordinary, (hfiniteCases exp hlaws).unit hordinary⟩

end Objective

end BoostedTrees
