import BoostedTrees.Proofs.Binary64.Rounding

namespace BoostedTrees.Binary64

namespace Interval

variable {i : Interval} {r : ℚ}

structure Holds (i : Interval) (r : ℚ) : Prop where
  low : (i.lower : ℚ) / i.denominator ≤ r
  high : r ≤ i.upper / i.denominator
  inner : i.closed = false → (i.lower : ℚ) / i.denominator < r ∧ r < i.upper / i.denominator

theorem contains_iff (hd : 0 < i.denominator) (n : Nat) : i.contains n = true ↔ i.Holds n := by
  have hd' : (0 : ℚ) < i.denominator := by exact_mod_cast hd
  unfold contains
  constructor
  · intro h
    cases hc : i.closed with
    | true =>
        simp only [hc, if_true, Bool.and_eq_true, decide_eq_true_eq] at h
        refine ⟨?_, ?_, by simp [hc]⟩
        · rw [div_le_iff₀ hd']
          exact_mod_cast h.1
        · rw [le_div_iff₀ hd']
          exact_mod_cast h.2
    | false =>
        simp only [hc, Bool.false_eq_true, if_false, Bool.and_eq_true, decide_eq_true_eq] at h
        have hinner : (i.lower : ℚ) / i.denominator < n ∧ (n : ℚ) < i.upper / i.denominator := by
          rw [div_lt_iff₀ hd', lt_div_iff₀ hd']
          exact_mod_cast h
        exact ⟨hinner.1.le, hinner.2.le, fun _ => hinner⟩
  · intro h
    cases hc : i.closed with
    | true =>
        have hlow := h.low
        have hhigh := h.high
        rw [div_le_iff₀ hd'] at hlow
        rw [le_div_iff₀ hd'] at hhigh
        simp only [if_true, Bool.and_eq_true, decide_eq_true_eq]
        exact ⟨by exact_mod_cast hlow, by exact_mod_cast hhigh⟩
    | false =>
        obtain ⟨hlow, hhigh⟩ := h.inner hc
        rw [div_lt_iff₀ hd'] at hlow
        rw [lt_div_iff₀ hd'] at hhigh
        simp only [Bool.false_eq_true, if_false, Bool.and_eq_true, decide_eq_true_eq]
        exact ⟨by exact_mod_cast hlow, by exact_mod_cast hhigh⟩

theorem denominator_shift (hd : 0 < i.denominator) (power : ℤ) :
    0 < (i.shift power).denominator := by
  unfold shift
  split
  · exact Nat.mul_pos hd (Nat.pow_pos (by decide))
  · exact hd

theorem closed_shift (power : ℤ) : (i.shift power).closed = i.closed := by
  unfold shift
  split <;> rfl

theorem div_shift (power : ℤ) :
    ((i.shift power).lower : ℚ) / (i.shift power).denominator =
        i.lower / i.denominator / 10 ^ power ∧
      ((i.shift power).value : ℚ) / (i.shift power).denominator =
        i.value / i.denominator / 10 ^ power ∧
      ((i.shift power).upper : ℚ) / (i.shift power).denominator =
        i.upper / i.denominator / 10 ^ power := by
  unfold shift
  split
  · rename_i h
    simp only [zpow_of_nonneg h, Nat.pow_eq, Nat.cast_mul, Nat.cast_pow, Nat.cast_ofNat, div_div,
      and_self]
  · rename_i h
    simp only [zpow_of_neg h, Nat.pow_eq, Nat.cast_mul, Nat.cast_pow, Nat.cast_ofNat,
      div_inv_eq_mul, div_mul_eq_mul_div, and_self]

theorem ten_zpow_pos (power : ℤ) : (0 : ℚ) < 10 ^ power := zpow_pos (by norm_num) power

theorem holds_shift {power : ℤ} : (i.shift power).Holds r ↔ i.Holds (r * 10 ^ power) := by
  have hp := ten_zpow_pos power
  obtain ⟨hlower, -, hupper⟩ := div_shift (i := i) power
  constructor
  · intro h
    have hlow := h.low
    have hhigh := h.high
    have hinner := h.inner
    rw [closed_shift] at hinner
    rw [hlower, div_le_iff₀ hp] at hlow
    rw [hupper, le_div_iff₀ hp] at hhigh
    rw [hlower, hupper, div_lt_iff₀ hp, lt_div_iff₀ hp] at hinner
    exact ⟨hlow, hhigh, hinner⟩
  · intro h
    refine ⟨?_, ?_, ?_⟩
    · rw [hlower, div_le_iff₀ hp]
      exact h.low
    · rw [hupper, le_div_iff₀ hp]
      exact h.high
    · rw [closed_shift, hlower, hupper, div_lt_iff₀ hp, lt_div_iff₀ hp]
      exact h.inner

theorem valueLt_iff (hd : 0 < i.denominator) (power : ℤ) :
    i.valueLt power = true ↔ (i.value : ℚ) / i.denominator < 10 ^ power := by
  have hd' : (0 : ℚ) < (i.shift power).denominator := by exact_mod_cast denominator_shift hd power
  obtain ⟨-, hvalue, -⟩ := div_shift (i := i) power
  rw [← div_lt_one (ten_zpow_pos power), ← hvalue, div_lt_one hd', valueLt, decide_eq_true_eq]
  exact_mod_cast Iff.rfl

theorem contains_of_nearest? {n : Nat} (h : i.nearest? = some n) : i.contains n = true := by
  unfold nearest? at h
  dsimp only at h
  split at h
  · split at h <;> cases h <;> assumption
  · cases h
    assumption
  · cases h
    assumption
  · exact absurd h (by simp)

theorem contains_of_nearest?_none (h : i.nearest? = none) :
    i.contains (i.value / i.denominator) = false ∧
      i.contains (i.value / i.denominator + 1) = false := by
  unfold nearest? at h
  dsimp only at h
  split at h
  · split at h <;> exact absurd h (by simp)
  · exact absurd h (by simp)
  · exact absurd h (by simp)
  · exact ⟨by assumption, by assumption⟩

theorem search_some {decade : ℤ} {count more : Nat} {ds : Digits}
    (h : i.search decade count more = some ds) :
    ∃ n power, ds = Digits.ofNat n power ∧ (i.shift power).contains n = true := by
  induction more generalizing count with
  | zero => exact absurd h (by simp [search])
  | succ more ih =>
      rw [search] at h
      split at h
      · rename_i n hn
        cases h
        exact ⟨n, _, rfl, contains_of_nearest? hn⟩
      · exact ih h

theorem search_none {decade : ℤ} {count more : Nat} (h : i.search decade count more = none) :
    ∀ k < more, (i.shift (decade - (count + k : Nat))).nearest? = none := by
  induction more generalizing count with
  | zero => exact fun k hk => absurd hk (Nat.not_lt_zero k)
  | succ more ih =>
      rw [search] at h
      split at h
      · exact absurd h (by simp)
      · rename_i hn
        intro k hk
        cases k with
        | zero => exact hn
        | succ k =>
            have := ih h k (by omega)
            rwa [show count + (k + 1) = count + 1 + k by omega]

theorem not_contains (hd : 0 < i.denominator) {n : Nat} (h : i.contains n = false) :
    (n : ℚ) ≤ i.lower / i.denominator ∨ (i.upper : ℚ) / i.denominator ≤ n := by
  have hnot : ¬ i.Holds n := fun hn => by simp [(contains_iff hd n).mpr hn] at h
  by_contra hbetween
  rw [not_or, not_le, not_le] at hbetween
  exact hnot ⟨hbetween.1.le, hbetween.2.le, fun _ => hbetween⟩

theorem width_le_of_nearest?_none (hd : 0 < i.denominator) (hlower : i.lower < i.value)
    (hupper : i.value < i.upper) {power : ℤ} (h : (i.shift power).nearest? = none) :
    (i.upper : ℚ) / i.denominator - i.lower / i.denominator ≤ 10 ^ power := by
  have hp := ten_zpow_pos power
  have hd' : (0 : ℚ) < i.denominator := by exact_mod_cast hd
  have hshift := denominator_shift hd power
  have hshift' : (0 : ℚ) < (i.shift power).denominator := by exact_mod_cast hshift
  obtain ⟨hbelow, habove⟩ := contains_of_nearest?_none h
  obtain ⟨hdivLower, hdivValue, hdivUpper⟩ := div_shift (i := i) power
  have hlow : ((i.shift power).lower : ℚ) / (i.shift power).denominator <
      (i.shift power).value / (i.shift power).denominator := by
    rw [hdivLower, hdivValue, div_lt_div_iff_of_pos_right hp, div_lt_div_iff_of_pos_right hd']
    exact_mod_cast hlower
  have hhigh : ((i.shift power).value : ℚ) / (i.shift power).denominator <
      (i.shift power).upper / (i.shift power).denominator := by
    rw [hdivValue, hdivUpper, div_lt_div_iff_of_pos_right hp, div_lt_div_iff_of_pos_right hd']
    exact_mod_cast hupper
  have hfloor := Nat.div_mul_le_self (i.shift power).value (i.shift power).denominator
  have hceil := Nat.lt_div_mul_add (a := (i.shift power).value) hshift
  have hbelow := not_contains hshift hbelow
  have habove := not_contains hshift habove
  rw [Nat.cast_add, Nat.cast_one] at habove
  generalize (i.shift power).value / (i.shift power).denominator = b at *
  have hb : (b : ℚ) ≤ (i.shift power).value / (i.shift power).denominator := by
    rw [le_div_iff₀ hshift']
    exact_mod_cast hfloor
  have hb' : ((i.shift power).value : ℚ) / (i.shift power).denominator < b + 1 := by
    rw [div_lt_iff₀ hshift', add_one_mul]
    exact_mod_cast hceil
  have h1 : (b : ℚ) ≤ (i.shift power).lower / (i.shift power).denominator := by
    rcases hbelow with h | h
    · exact h
    · linarith
  have h2 : ((i.shift power).upper : ℚ) / (i.shift power).denominator ≤ b + 1 := by
    rcases habove with h | h
    · linarith
    · exact h
  rw [hdivLower] at h1
  rw [hdivUpper] at h2
  rw [le_div_iff₀ hp] at h1
  rw [div_le_iff₀ hp] at h2
  linarith

end Interval

namespace Dyadic

variable {x : Dyadic}

theorem denominator_interval (x : Dyadic) : 0 < x.interval.denominator := by
  unfold interval
  dsimp only
  split
  · exact Nat.one_pos
  · exact Nat.pow_pos (by decide)

theorem quartersBelow_interval (x : Dyadic) :
    (if x.significand = Nat.pow 2 52 ∧ leastExponent < x.exponent then 1 else 2) =
      x.quartersBelow := rfl

theorem div_interval (hx : 0 < x.significand) :
    (x.interval.lower : ℚ) / x.interval.denominator =
        (4 * x.significand - x.quartersBelow) * 2 ^ (x.exponent - 2) ∧
      (x.interval.value : ℚ) / x.interval.denominator =
        4 * x.significand * 2 ^ (x.exponent - 2) ∧
      (x.interval.upper : ℚ) / x.interval.denominator =
        (4 * x.significand + 2) * 2 ^ (x.exponent - 2) := by
  have hbelow : x.quartersBelow ≤ 4 * x.significand := by
    unfold quartersBelow
    split <;> omega
  unfold interval
  simp only [quartersBelow_interval]
  by_cases h : 0 ≤ x.exponent - 2
  · simp only [if_pos h, zpow_of_nonneg h, Nat.pow_eq, Nat.cast_mul, Nat.cast_pow,
      Nat.cast_sub hbelow, Nat.cast_add, Nat.cast_ofNat, Nat.cast_one, div_one, and_self]
  · simp only [if_neg h, zpow_of_neg h, Nat.pow_eq, Nat.cast_mul, Nat.cast_pow, Nat.cast_sub hbelow,
      Nat.cast_add, Nat.cast_ofNat, mul_one, div_eq_mul_inv, and_self]

theorem holds_interval (hx : 0 < x.significand) {r : ℚ} : x.interval.Holds r ↔ x.Nearest r := by
  obtain ⟨hlower, -, hupper⟩ := div_interval hx
  have hclosed : x.interval.closed = false ↔ x.significand % 2 = 1 := by
    change (x.significand % 2 == 0) = false ↔ _
    rw [beq_eq_false_iff_ne]
    omega
  constructor
  · intro h
    refine ⟨hlower ▸ h.low, hupper ▸ h.high, fun hodd => ?_⟩
    have hinner := h.inner (hclosed.mpr hodd)
    rwa [hlower, hupper] at hinner
  · intro h
    refine ⟨hlower ▸ h.low, hupper ▸ h.high, fun hopen => ?_⟩
    rw [hlower, hupper]
    exact h.odd (hclosed.mp hopen)

theorem value_eq (x : Dyadic) : x.value = 4 * x.significand * 2 ^ (x.exponent - 2) := by
  rw [value, show x.exponent = 2 + (x.exponent - 2) by ring, two_zpow_ofNat_add,
    show 2 + (x.exponent - 2) - 2 = x.exponent - 2 by ring]
  ring

end Dyadic

theorem decade_estimate_of_nonneg :
    ∀ k < 1100, 2 * 10 ^ (k * 30103 / 100000) ≤ 10 * 2 ^ k := by
  decide +kernel

theorem decade_estimate_of_neg :
    ∀ k < 1100, 2 ^ (k + 1) ≤ 10 ^ ((k * 30103 + 99999) / 100000 + 1) := by
  decide +kernel

theorem decade_estimate {e : ℤ} (hlow : -1100 < e) (hhigh : e < 1100) :
    (10 : ℚ) ^ (e * 30103 / 100000 - 1) ≤ 2 ^ (e - 1) := by
  rw [zpow_sub_one₀ (by norm_num), zpow_sub_one₀ (by norm_num)]
  by_cases he : 0 ≤ e
  · lift e to Nat using he
    have h := decade_estimate_of_nonneg e (by omega)
    have h : (2 : ℚ) * 10 ^ (e * 30103 / 100000) ≤ 10 * 2 ^ e := by exact_mod_cast h
    rw [show (e : ℤ) * 30103 / 100000 = ((e * 30103 / 100000 : Nat) : ℤ) by push_cast; rfl,
      zpow_natCast, zpow_natCast]
    linarith
  · obtain ⟨k, rfl⟩ : ∃ k : Nat, e = -(k : ℤ) := ⟨(-e).toNat, by omega⟩
    have h := decade_estimate_of_neg k (by omega)
    have h : (2 : ℚ) ^ (k + 1) ≤ 10 ^ ((k * 30103 + 99999) / 100000 + 1) := by exact_mod_cast h
    have hdiv : -(k : ℤ) * 30103 / 100000 = -(((k * 30103 + 99999) / 100000 : Nat) : ℤ) := by
      push_cast
      omega
    rw [hdiv, zpow_neg, zpow_neg, zpow_natCast, zpow_natCast, ← mul_inv, ← mul_inv, ← pow_succ,
      ← pow_succ]
    exact inv_anti₀ (by positivity) h

namespace Dyadic

variable {x : Dyadic}

theorem value_pos (hx : 0 < x.significand) : 0 < x.value :=
  mul_pos (by exact_mod_cast hx) (two_zpow_pos _)

theorem value_bounds (hx : x.Normal) (hpos : 0 < x.significand) (hfinite : x.exponent ≤ 971) :
    (2 : ℚ) ^ (-1074 : ℤ) ≤ x.value ∧ x.value < 2 ^ (1024 : ℤ) := by
  have h1 : (1 : ℚ) ≤ x.significand := by exact_mod_cast hpos
  have h2 : (x.significand : ℚ) < 2 ^ 53 := by exact_mod_cast hx.small
  have hleast : (2 : ℚ) ^ (-1074 : ℤ) ≤ 2 ^ x.exponent := two_zpow_le hx.least
  constructor
  · rw [value]
    nlinarith [two_zpow_pos x.exponent]
  · calc x.value < 2 ^ 53 * 2 ^ x.exponent :=
          mul_lt_mul_of_pos_right h2 (two_zpow_pos _)
      _ = 2 ^ (53 + x.exponent) := (two_zpow_ofNat_add 53 _).symm
      _ ≤ 2 ^ (1024 : ℤ) := two_zpow_le (by omega)

theorem decade_le (hx : x.Normal) (hpos : 0 < x.significand) (hfinite : x.exponent ≤ 971) :
    (10 : ℚ) ^ (x.interval.decade - 1) ≤ x.value := by
  have hd := denominator_interval x
  obtain ⟨-, hvalue, -⟩ := div_interval hpos
  rw [← value_eq] at hvalue
  have hnum : 0 < x.interval.value := by
    have := value_pos hpos
    rw [← hvalue] at this
    by_contra h
    rw [Nat.eq_zero_of_not_pos h] at this
    simp at this
  obtain ⟨hlow, hhigh⟩ := quotient_bounds hnum hd
  obtain ⟨hleast, hgreatest⟩ := value_bounds hx hpos hfinite
  have hlt := fun power => Interval.valueLt_iff hd power
  rw [hvalue] at hlow hhigh
  simp only [hvalue] at hlt
  unfold Interval.decade
  dsimp only
  generalize (Nat.log2 x.interval.value : ℤ) - Nat.log2 x.interval.denominator = e at *
  have hone : (1 : ℚ) < 2 := by norm_num
  have h1 : -1074 < e + 1 := (zpow_lt_zpow_iff_right₀ hone).mp (lt_of_le_of_lt hleast hhigh)
  have h2 : e - 1 < 1024 := (zpow_lt_zpow_iff_right₀ hone).mp (hlow.trans hgreatest)
  split
  · exact (decade_estimate (by omega) (by omega)).trans hlow.le
  · split
    · rename_i h _
      rw [Bool.not_eq_true, ← Bool.not_eq_true, hlt, not_lt] at h
      rwa [add_sub_cancel_right]
    · rename_i h
      rw [Bool.not_eq_true, ← Bool.not_eq_true, hlt, not_lt] at h
      rwa [show e * 30103 / 100000 + 2 - 1 = e * 30103 / 100000 + 1 by ring]

theorem one_le_quartersBelow (x : Dyadic) : (1 : ℚ) ≤ x.quartersBelow := by
  unfold quartersBelow
  split <;> norm_num

theorem interval_bounds (hpos : 0 < x.significand) :
    x.interval.lower < x.interval.value ∧ x.interval.value < x.interval.upper := by
  obtain ⟨hlower, hvalue, hupper⟩ := div_interval hpos
  have hd : (0 : ℚ) < x.interval.denominator := by exact_mod_cast denominator_interval x
  have hq := two_zpow_pos (x.exponent - 2)
  have hbelow := x.one_le_quartersBelow
  have hl : (x.interval.lower : ℚ) / x.interval.denominator <
      x.interval.value / x.interval.denominator := by
    rw [hlower, hvalue]
    exact mul_lt_mul_of_pos_right (by linarith) hq
  have hu : (x.interval.value : ℚ) / x.interval.denominator <
      x.interval.upper / x.interval.denominator := by
    rw [hvalue, hupper]
    exact mul_lt_mul_of_pos_right (by linarith) hq
  rw [div_lt_div_iff_of_pos_right hd] at hl hu
  exact ⟨by exact_mod_cast hl, by exact_mod_cast hu⟩

theorem search_isSome (hx : x.Normal) (hpos : 0 < x.significand) (hfinite : x.exponent ≤ 971) :
    x.interval.search x.interval.decade 1 17 ≠ none := by
  intro hnone
  have hlast := Interval.search_none hnone 16 (by decide)
  obtain ⟨hlower, -, hupper⟩ := div_interval hpos
  have hq := two_zpow_pos (x.exponent - 2)
  have hbelow := x.one_le_quartersBelow
  obtain ⟨hl, hu⟩ := interval_bounds hpos
  have hwidth := Interval.width_le_of_nearest?_none (denominator_interval x) hl hu hlast
  rw [hlower, hupper] at hwidth
  have hdecade := decade_le hx hpos hfinite
  rw [value_eq] at hdecade
  have hplaces : (10 : ℚ) ^ (x.interval.decade - 1) =
      10 ^ 16 * 10 ^ (x.interval.decade - ((1 + 16 : Nat) : ℤ)) := by
    rw [← zpow_ofNat, ← zpow_add₀ (by norm_num)]
    congr 1
    push_cast
    ring
  rw [hplaces] at hdecade
  have hsmall : (x.significand : ℚ) < 2 ^ 53 := by exact_mod_cast hx.small
  -- the last place is less than the interval is wide
  have hquarters : (10 : ℚ) ^ 16 * (2 + x.quartersBelow) ≤ 4 * x.significand := by
    have : 10 ^ 16 * (2 + (x.quartersBelow : ℚ)) * 2 ^ (x.exponent - 2) ≤
        4 * x.significand * 2 ^ (x.exponent - 2) := by
      nlinarith
    exact le_of_mul_le_mul_right this hq
  unfold quartersBelow at hquarters
  split at hquarters
  · rename_i hfirst
    rw [hfirst.1] at hquarters
    norm_num at hquarters
  · norm_num at hquarters
    linarith

theorem digits_found (hx : x.Normal) (hpos : 0 < x.significand) (hfinite : x.exponent ≤ 971) :
    ∃ n power, x.digits = Digits.ofNat n power ∧ x.Nearest (n * 10 ^ power) := by
  cases hsearch : x.interval.search x.interval.decade 1 17 with
  | none => exact absurd hsearch (search_isSome hx hpos hfinite)
  | some ds =>
      obtain ⟨n, power, rfl, hcontains⟩ := Interval.search_some hsearch
      refine ⟨n, power, ?_, ?_⟩
      · rw [digits, hsearch, Option.getD_some]
      · rw [← holds_interval hpos, ← Interval.holds_shift]
        exact (Interval.contains_iff (Interval.denominator_shift (denominator_interval x) power)
          n).mp hcontains

end Dyadic

end BoostedTrees.Binary64
