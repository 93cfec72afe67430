import BoostedTrees.Binary64.Decimal
import BoostedTrees.Proofs.Binary64.Shortest
import BoostedTrees.Proofs.Text.Digits
import Mathlib

namespace BoostedTrees.Binary64

open Text (AllDigits allDigits_toDigits allDigits_zeros)

namespace Digits

def value (x : Digits) : ℚ := Nat.ofDigitChars 10 x.digits 0 * 10 ^ (x.point - x.digits.length)

theorem ofDigitChars_zeros (s : List Char) (k : Nat) :
    Nat.ofDigitChars 10 (s ++ List.replicate k '0') 0 = 10 ^ k * Nat.ofDigitChars 10 s 0 := by
  rw [Nat.ofDigitChars_append, Nat.ofDigitChars_replicate_zero]

theorem exists_zeros (n : Nat) (power : Int) :
    ∃ k, Nat.toDigits 10 n = (ofNat n power).digits ++ List.replicate k '0' := by
  have hzeros : (Nat.toDigits 10 n).reverse.takeWhile (· == '0') =
      List.replicate ((Nat.toDigits 10 n).reverse.takeWhile (· == '0')).length '0' := by
    apply List.eq_replicate_of_mem
    intro c hc
    simpa using List.mem_takeWhile_imp hc
  refine ⟨((Nat.toDigits 10 n).reverse.takeWhile (· == '0')).length, ?_⟩
  rw [← List.reverse_replicate, ← hzeros, ofNat, ← List.reverse_append,
    List.takeWhile_append_dropWhile, List.reverse_reverse]

theorem ofNat_spec {n : Nat} (hn : 0 < n) (power : Int) :
    AllDigits (ofNat n power).digits ∧ (ofNat n power).digits ≠ [] ∧
      (ofNat n power).value = n * 10 ^ power := by
  obtain ⟨k, hk⟩ := exists_zeros n power
  have hread : Nat.ofDigitChars 10 (Nat.toDigits 10 n) 0 = n := Nat.ofDigitChars_ten_toDigits
  have hdigits := allDigits_toDigits n
  have hpoint : (ofNat n power).point = (Nat.toDigits 10 n).length + power := rfl
  rw [hk, ofDigitChars_zeros] at hread
  rw [hk] at hdigits
  refine ⟨hdigits.of_append_left, ?_, ?_⟩
  · intro hnil
    rw [hnil, Nat.ofDigitChars_nil] at hread
    omega
  · rw [value, hpoint, hk, List.length_append, List.length_replicate]
    generalize (ofNat n power).digits = ds at *
    rw [show (((ds.length + k : Nat) : ℤ) + power - ds.length) = k + power by push_cast; ring,
      zpow_add₀ (by norm_num), zpow_natCast, ← hread]
    push_cast
    ring

end Digits

theorem isDigit_eq (c : Char) : isDigit c = c.isDigit := by
  rw [isDigit, Text.digitValue?_eq]
  cases c.isDigit <;> rfl

theorem not_isDigit_of_head {s : List Char} (h : ∀ c ∈ s.head?, c.isDigit = false) :
    s.takeWhile isDigit = [] ∧ s.dropWhile isDigit = s := by
  cases s with
  | nil => exact ⟨rfl, rfl⟩
  | cons c s =>
      have hc : ¬ isDigit c = true := by
        rw [isDigit_eq, h c rfl]
        simp
      exact ⟨List.takeWhile_cons_of_neg hc, List.dropWhile_cons_of_neg hc⟩

theorem span_digits {s t : List Char} (hs : AllDigits s) (ht : ∀ c ∈ t.head?, c.isDigit = false) :
    (s ++ t).takeWhile isDigit = s ∧ (s ++ t).dropWhile isDigit = t := by
  have hs' : ∀ c ∈ s, isDigit c = true := by
    intro c hc
    rw [isDigit_eq]
    exact hs c hc
  obtain ⟨htake, hdrop⟩ := not_isDigit_of_head ht
  rw [List.takeWhile_append_of_pos hs', List.dropWhile_append_of_pos hs', htake, hdrop,
    List.append_nil]
  exact ⟨rfl, rfl⟩

theorem power?_intChars (n : Int) : power? (intChars n) = some n := by
  cases n with
  | ofNat n =>
      have hread := Text.digits?_toDigits n
      obtain ⟨c, s, hs, hminus, hplus⟩ := Text.exists_toDigits n
      rw [intChars]
      rw [hs] at hread ⊢
      rw [power?, hread]
      · rfl
      · intro rest heq
        exact hminus (List.cons.inj heq).1
      · intro rest heq
        exact hplus (List.cons.inj heq).1
  | negSucc n =>
      rw [intChars, power?, Text.digits?_toDigits]
      rfl

def powerText : Option Int → List Char
  | none => []
  | some power => 'e' :: intChars power

theorem optionalPower?_powerText (power : Option Int) :
    optionalPower? (powerText power) = some (power.getD 0) := by
  cases power with
  | none => rfl
  | some power => exact power?_intChars power

theorem head_powerText (power : Option Int) : ∀ c ∈ (powerText power).head?, c.isDigit = false := by
  cases power with
  | none => simp [powerText]
  | some power => simp [powerText]

namespace Decimal

def value (x : Decimal) : ℚ := x.coefficient * 10 ^ x.exponent

theorem ofChars?_whole {s : List Char} (hs : AllDigits s) (hne : s ≠ []) (power : Option Int) :
    ofChars? (s ++ powerText power) = some ⟨Nat.ofDigitChars 10 s 0, power.getD 0⟩ := by
  obtain ⟨htake, hdrop⟩ := span_digits hs (head_powerText power)
  have hpoint : ∀ rest, powerText power ≠ '.' :: rest := by
    cases power <;> simp [powerText]
  unfold ofChars?
  rw [htake, hdrop]
  split
  rename_i fraction rest heq
  split at heq
  · rename_i rest' hrest
    exact absurd hrest (hpoint rest')
  · cases heq
    dsimp only
    rw [List.append_nil, Text.digits?_eq hs hne, optionalPower?_powerText]
    simp

theorem ofChars?_fraction {s t : List Char} (hs : AllDigits s) (ht : AllDigits t)
    (hne : s ++ t ≠ []) (power : Option Int) :
    ofChars? (s ++ '.' :: (t ++ powerText power)) =
      some ⟨Nat.ofDigitChars 10 (s ++ t) 0, power.getD 0 - t.length⟩ := by
  obtain ⟨htake, hdrop⟩ := span_digits (t := '.' :: (t ++ powerText power)) hs (by
    intro c hc
    obtain rfl : '.' = c := by simpa using hc
    decide)
  obtain ⟨htake', hdrop'⟩ := span_digits ht (head_powerText power)
  unfold ofChars?
  simp only [htake, hdrop, htake', hdrop', Text.digits?_eq (hs.append ht) hne,
    optionalPower?_powerText, Option.bind_some, Option.map_some]

end Decimal

namespace Digits

variable {x : Digits}

theorem ofDigitChars_leading_zeros (k : Nat) (s : List Char) :
    Nat.ofDigitChars 10 (List.replicate k '0' ++ s) 0 = Nat.ofDigitChars 10 s 0 := by
  rw [Nat.ofDigitChars_append, Nat.ofDigitChars_replicate_zero, Nat.mul_zero]

theorem ofChars?_pointed {s t : List Char} (hsplit : x.digits = s ++ t)
    (hdigits : AllDigits x.digits) (hne : x.digits ≠ []) (power : Option Int)
    (hplace : x.point = power.getD 0 + s.length) :
    ∃ d, Decimal.ofChars? (s ++ '.' :: (t ++ powerText power)) = some d ∧ d.value = x.value := by
  rw [hsplit] at hdigits hne
  refine ⟨_, Decimal.ofChars?_fraction hdigits.of_append_left hdigits.of_append_right hne power, ?_⟩
  rw [Decimal.value, value, hsplit, hplace]
  congr 2
  rw [List.length_append]
  push_cast
  ring

theorem ofChars?_behindPoint (hdigits : AllDigits x.digits) (hpoint : x.point ≤ 0) :
    ∃ d, Decimal.ofChars? ('0' :: '.' :: zeros (-x.point).toNat ++ x.digits) = some d ∧
      d.value = x.value := by
  have hfraction := Decimal.ofChars?_fraction (s := ['0'])
    (t := zeros (-x.point).toNat ++ x.digits) (allDigits_zeros 1)
    ((allDigits_zeros _).append hdigits) (by simp) none
  rw [powerText, List.append_nil] at hfraction
  refine ⟨_, hfraction, ?_⟩
  have hlead : Nat.ofDigitChars 10 (['0'] ++ (zeros (-x.point).toNat ++ x.digits)) 0 =
      Nat.ofDigitChars 10 x.digits 0 := by
    rw [← List.append_assoc]
    exact ofDigitChars_leading_zeros ((-x.point).toNat + 1) x.digits
  rw [Decimal.value, value, hlead]
  congr 2
  simp only [zeros, List.length_append, List.length_replicate, Option.getD_none]
  omega

theorem ofChars?_beforePoint (hdigits : AllDigits x.digits) (hne : x.digits ≠ []) {k : Nat}
    (hplace : x.point - x.digits.length = k) (markWhole : Bool) :
    ∃ d, Decimal.ofChars? (x.digits ++ zeros k ++ (if markWhole then ['.', '0'] else [])) = some d ∧
      d.value = x.value := by
  have hwhole : AllDigits (x.digits ++ zeros k) := hdigits.append (allDigits_zeros k)
  cases markWhole with
  | true =>
      have hfraction := Decimal.ofChars?_fraction (t := ['0']) hwhole (allDigits_zeros 1)
        (by simp) none
      refine ⟨_, hfraction, ?_⟩
      have htail : x.digits ++ zeros k ++ ['0'] = x.digits ++ List.replicate (k + 1) '0' := by
        rw [zeros, List.append_assoc, List.replicate_succ']
      rw [Decimal.value, value, hplace, htail, ofDigitChars_zeros]
      simp only [Option.getD_none, List.length_singleton]
      push_cast
      rw [zpow_natCast, zpow_neg_one, pow_succ]
      field_simp
  | false =>
      have hread := Decimal.ofChars?_whole hwhole (by simp [hne]) none
      refine ⟨_, hread, ?_⟩
      rw [Decimal.value, value, hplace, zeros, ofDigitChars_zeros]
      simp only [Option.getD_none, zpow_zero, mul_one, zpow_natCast]
      push_cast
      ring

theorem ofChars?_positional (hdigits : AllDigits x.digits) (hne : x.digits ≠ [])
    (markWhole : Bool) :
    ∃ d, Decimal.ofChars? (x.positional markWhole) = some d ∧ d.value = x.value := by
  unfold positional
  split
  · exact ofChars?_behindPoint hdigits (by assumption)
  · split
    · exact ofChars?_beforePoint hdigits hne (by omega) markWhole
    · have hpointed := ofChars?_pointed (List.take_append_drop x.point.toNat x.digits).symm
        hdigits hne none (by
          rw [List.length_take, Option.getD_none]
          omega)
      rwa [powerText, List.append_nil] at hpointed

theorem ofChars?_scientific (hdigits : AllDigits x.digits) (hne : x.digits ≠ []) :
    ∃ d, Decimal.ofChars? x.scientific = some d ∧ d.value = x.value := by
  have hlength : 0 < x.digits.length := List.length_pos_iff.mpr hne
  unfold scientific
  split
  · rename_i hone
    have hread := Decimal.ofChars?_whole hdigits hne (some (x.point - 1))
    rw [List.take_of_length_le hone, List.append_nil]
    refine ⟨_, hread, ?_⟩
    rw [Decimal.value, value, show x.digits.length = 1 by omega]
    rfl
  · rename_i hmany
    have hpointed := ofChars?_pointed (List.take_append_drop 1 x.digits).symm hdigits hne
      (some (x.point - 1)) (by
        rw [List.length_take, Option.getD_some]
        omega)
    rwa [List.append_assoc, List.cons_append]

theorem ofChars?_chars (hdigits : AllDigits x.digits) (hne : x.digits ≠ []) (style : TextStyle) :
    ∃ d, Decimal.ofChars? (x.chars style) = some d ∧ d.value = x.value := by
  unfold chars
  split
  · exact ofChars?_positional hdigits hne style.markWhole
  · exact ofChars?_scientific hdigits hne

end Digits

theorem digitCount_bounds {c : Nat} (hc : 0 < c) :
    (10 : ℚ) ^ ((digitCount c : ℤ) - 1) ≤ c ∧ (c : ℚ) < 10 ^ (digitCount c : ℤ) := by
  have hcount : digitCount c = (Nat.toDigits 10 c).length := if_neg (by omega)
  have hlength : 0 < (Nat.toDigits 10 c).length := Nat.length_toDigits_pos
  have hle := fun k hk => Nat.length_toDigits_le_iff (b := 10) (n := c) (k := k) (by decide) hk
  rw [hcount]
  generalize (Nat.toDigits 10 c).length = k at *
  constructor
  · rw [show (k : ℤ) - 1 = ((k - 1 : Nat) : ℤ) by omega, zpow_natCast]
    rcases Nat.eq_zero_or_pos (k - 1) with h | h
    · rw [h, pow_zero]
      exact_mod_cast hc
    · have := (hle (k - 1) h).not.mp (by omega)
      exact_mod_cast not_lt.mp this
  · rw [zpow_natCast]
    exact_mod_cast (hle k hlength).mp (le_refl k)

namespace Decimal

variable {d : Decimal} {m : Nat}

theorem exponent_ofMagnitude_le (hm : m < infinityMagnitude) :
    (Dyadic.ofMagnitude m).exponent ≤ 971 := by
  unfold Dyadic.ofMagnitude
  split
  · simp [leastExponent]
  · simp only [Nat.pow_eq, leastExponent]
    have : m / 2 ^ 52 < 2047 := by
      rw [Nat.div_lt_iff_lt_mul (by decide)]
      exact lt_of_lt_of_le hm (by decide)
    omega

theorem nearest_bounds {x : Dyadic} {r : ℚ} (hx : x.Normal) (hpos : 0 < x.significand)
    (hfinite : x.exponent ≤ 971) (h : x.Nearest r) :
    (10 : ℚ) ^ (-331 : ℤ) < r ∧ r < 10 ^ (310 : ℤ) := by
  have hone : (1 : ℚ) ≤ x.significand := by exact_mod_cast hpos
  have hsmall : (x.significand : ℚ) + 1 ≤ 2 ^ 53 := by exact_mod_cast hx.small
  have hq := two_zpow_pos (x.exponent - 2)
  constructor
  · have hleast : (2 : ℚ) ^ (-1076 : ℤ) ≤ 2 ^ (x.exponent - 2) :=
      two_zpow_le (by have := hx.least; rw [leastExponent] at this; omega)
    have hpower : (10 : ℚ) ^ (-331 : ℤ) < 2 ^ (-1076 : ℤ) := by
      have : (2 : ℚ) ^ 1076 < 10 ^ 331 := by
        exact_mod_cast (by decide +kernel : 2 ^ 1076 < 10 ^ 331)
      rw [zpow_neg, zpow_neg, zpow_ofNat, zpow_ofNat]
      exact inv_strictAnti₀ (by positivity) this
    nlinarith [h.low_two]
  · have hgreatest : (2 : ℚ) ^ (x.exponent - 2) ≤ 2 ^ (969 : ℤ) := two_zpow_le (by omega)
    have hpower : (2 : ℚ) ^ 55 * 2 ^ (969 : ℤ) < 10 ^ (310 : ℤ) := by
      rw [zpow_ofNat, zpow_ofNat]
      exact_mod_cast (by decide +kernel : 2 ^ 55 * 2 ^ 969 < 10 ^ 310)
    calc r ≤ (4 * x.significand + 2) * 2 ^ (x.exponent - 2) := h.high
      _ ≤ 2 ^ 55 * 2 ^ (x.exponent - 2) := mul_le_mul_of_nonneg_right (by linarith) hq.le
      _ ≤ 2 ^ 55 * 2 ^ (969 : ℤ) := mul_le_mul_of_nonneg_left hgreatest (by positivity)
      _ < 10 ^ (310 : ℤ) := hpower

theorem magnitude_eq_of_nearest (hpos : 0 < d.coefficient) (hm : m < infinityMagnitude)
    (hsignificand : 0 < (Dyadic.ofMagnitude m).significand)
    (h : (Dyadic.ofMagnitude m).Nearest d.value) : d.magnitude = m := by
  obtain ⟨hlow, hhigh⟩ :=
    nearest_bounds (normal_ofMagnitude m) hsignificand (exponent_ofMagnitude_le hm) h
  obtain ⟨hfew, hmany⟩ := digitCount_bounds hpos
  have hten : (1 : ℚ) < 10 := by norm_num
  have hexponent := Interval.ten_zpow_pos d.exponent
  -- the first digit of the decimal stands at a place between the two bounds
  have hplace : d.exponent + digitCount d.coefficient - 1 < 310 := by
    rw [← zpow_lt_zpow_iff_right₀ hten]
    refine lt_of_le_of_lt ?_ hhigh
    rw [value, show d.exponent + digitCount d.coefficient - 1 =
      (digitCount d.coefficient - 1 : ℤ) + d.exponent by ring, zpow_add₀ (by norm_num)]
    exact mul_le_mul_of_nonneg_right hfew hexponent.le
  have hplace' : -331 < d.exponent + digitCount d.coefficient := by
    rw [← zpow_lt_zpow_iff_right₀ hten]
    refine hlow.trans ?_
    rw [value, add_comm, zpow_add₀ (by norm_num)]
    exact mul_lt_mul_of_pos_right hmany hexponent
  unfold magnitude
  dsimp only
  rw [if_neg (by omega), if_neg (by omega), if_neg (by omega)]
  rw [value] at h
  split
  · rename_i hnonneg
    apply roundQuotient_eq (Nat.mul_pos hpos (Nat.pow_pos (by decide))) Nat.one_pos hm
    rw [zpow_of_nonneg hnonneg] at h
    push_cast
    rwa [div_one]
  · rename_i hneg
    apply roundQuotient_eq hpos (Nat.pow_pos (by decide)) hm
    rw [zpow_of_neg hneg] at h
    push_cast
    rwa [div_eq_mul_inv]

end Decimal

def DigitFirst (s : List Char) : Prop := ∃ c rest, s = c :: rest ∧ c.isDigit = true

theorem DigitFirst.append {s : List Char} (h : DigitFirst s) (t : List Char) :
    DigitFirst (s ++ t) := by
  obtain ⟨c, rest, rfl, hc⟩ := h
  exact ⟨c, rest ++ t, rfl, hc⟩

theorem Digits.digitFirst_chars {x : Digits} (hdigits : AllDigits x.digits) (hne : x.digits ≠ [])
    (style : TextStyle) : DigitFirst (x.chars style) := by
  obtain ⟨c, rest, hx⟩ := List.exists_cons_of_ne_nil hne
  have hc : c.isDigit = true := hdigits c (hx ▸ List.mem_cons_self)
  have hfirst : DigitFirst x.digits := ⟨c, rest, hx, hc⟩
  have htake : ∀ n, 0 < n → DigitFirst (x.digits.take n) := by
    intro n hn
    obtain ⟨k, rfl⟩ := Nat.exists_eq_add_of_lt hn
    rw [hx]
    exact ⟨c, _, rfl, hc⟩
  unfold chars positional scientific
  split
  · split
    · exact ⟨'0', _, rfl, by decide⟩
    · split
      · exact (hfirst.append _).append _
      · exact (htake _ (by omega)).append _
  · exact ((htake 1 Nat.one_pos).append _).append _

theorem toLower_of_isDigit {c : Char} (h : c.isDigit = true) : c.toLower = c := by
  rw [Char.toLower, dif_neg]
  rintro ⟨hupper, -⟩
  have hdigit : c.val ≤ 57 := by
    simp only [Char.isDigit, Bool.and_eq_true, decide_eq_true_eq] at h
    exact h.2
  have : c.val.toNat ≤ 57 := hdigit
  have : 65 ≤ c.val.toNat := hupper
  omega

theorem magnitude?_of_digitFirst {s : List Char} (h : DigitFirst s) :
    magnitude? s = (Decimal.ofChars? s).map Decimal.magnitude := by
  obtain ⟨c, rest, rfl, hc⟩ := h
  have hfirst : ∀ word : List Char, (∀ d ∈ word.head?, d.isDigit = false) → word ≠ [] →
      (c :: rest).map Char.toLower ≠ word := by
    rintro (_ | ⟨d, word⟩) hword hne heq
    · exact hne rfl
    · rw [List.map_cons, toLower_of_isDigit hc] at heq
      have hd := hword d rfl
      rw [← (List.cons.inj heq).1, hc] at hd
      exact absurd hd (by simp)
  unfold magnitude?
  dsimp only
  rw [if_neg, if_neg]
  · exact hfirst _ (by simp) (by simp)
  · rintro (h | h)
    · exact hfirst _ (by simp) (by simp) h
    · exact hfirst _ (by simp) (by simp) h

theorem digits_ofMagnitude {m : Nat} (hm : m < infinityMagnitude)
    (hpos : 0 < (Dyadic.ofMagnitude m).significand) :
    AllDigits (Dyadic.ofMagnitude m).digits.digits ∧ (Dyadic.ofMagnitude m).digits.digits ≠ [] ∧
      0 < (Dyadic.ofMagnitude m).digits.value ∧
        (Dyadic.ofMagnitude m).Nearest (Dyadic.ofMagnitude m).digits.value := by
  obtain ⟨n, power, hdigits, hnear⟩ :=
    Dyadic.digits_found (normal_ofMagnitude m) hpos (Decimal.exponent_ofMagnitude_le hm)
  have hn : 0 < n := by
    by_contra h
    have hlow := hnear.low_two
    have hone : (1 : ℚ) ≤ (Dyadic.ofMagnitude m).significand := by exact_mod_cast hpos
    rw [Nat.eq_zero_of_not_pos h, Nat.cast_zero, zero_mul] at hlow
    nlinarith [two_zpow_pos ((Dyadic.ofMagnitude m).exponent - 2)]
  obtain ⟨hall, hne, hvalue⟩ := Digits.ofNat_spec hn power
  rw [hdigits, hvalue]
  exact ⟨hall, hne, mul_pos (by exact_mod_cast hn) (Interval.ten_zpow_pos power), hnear⟩

theorem significand_eq_zero {m : Nat} (h : (Dyadic.ofMagnitude m).significand = 0) : m = 0 := by
  unfold Dyadic.ofMagnitude at h
  split at h
  · exact h
  · simp at h

theorem magnitude?_chars {m : Nat} (hm : m < infinityMagnitude) (style : TextStyle) :
    magnitude? ((Dyadic.ofMagnitude m).chars style) = some m ∧
      DigitFirst ((Dyadic.ofMagnitude m).chars style) := by
  rcases Nat.eq_zero_or_pos (Dyadic.ofMagnitude m).significand with hzero | hpos
  · rw [Dyadic.chars, if_pos hzero, significand_eq_zero hzero]
    have hfirst : DigitFirst ('0' :: (if style.markWhole then ['.', '0'] else [])) :=
      ⟨'0', _, rfl, by decide⟩
    refine ⟨?_, hfirst⟩
    rw [magnitude?_of_digitFirst hfirst]
    cases style.markWhole with
    | true => rfl
    | false => rfl
  · obtain ⟨hall, hne, hvalue, hnear⟩ := digits_ofMagnitude hm hpos
    obtain ⟨d, hread, hd⟩ := Digits.ofChars?_chars hall hne style
    have hfirst := Digits.digitFirst_chars hall hne style
    rw [Dyadic.chars, if_neg (by omega)]
    refine ⟨?_, hfirst⟩
    rw [magnitude?_of_digitFirst hfirst, hread, Option.map_some]
    have hcoefficient : 0 < d.coefficient := by
      by_contra h
      rw [← hd, Decimal.value, Nat.eq_zero_of_not_pos h, Nat.cast_zero, zero_mul] at hvalue
      exact absurd hvalue (lt_irrefl 0)
    rw [Decimal.magnitude_eq_of_nearest hcoefficient hm hpos (hd ▸ hnear)]

section Bits

variable (bits : UInt64)

theorem ofMagnitude_magnitude : ofMagnitude (isNegative bits) (magnitude bits) = bits := by
  have hlt := bits.toNat_lt
  have hsign : signBit = 9223372036854775808 := rfl
  rw [← UInt64.toNat_inj, ofMagnitude, UInt64.toNat_ofNat', magnitude, isNegative, hsign]
  by_cases h : 9223372036854775808 ≤ bits.toNat
  · rw [decide_eq_true h, if_pos rfl]
    omega
  · rw [decide_eq_false h, if_neg (by simp)]
    omega

end Bits

section Packed

open Float.Model

theorem eq_nan_of_magnitude {x : Float} (h : infinityMagnitude < magnitude x.toBits) : x = nan := by
  have hlt := x.toBits.toNat_lt
  change infinityMagnitude < x.toBits.toNat % signBit at h
  have hsign : signBit = 9223372036854775808 := rfl
  have hinf : infinityMagnitude = 9218868437227405312 := rfl
  rw [hsign, hinf] at h
  have hbits : x.toModel.toBits.toBitVec.toNat = x.toBits.toNat := rfl
  have hexponent : @UnpackedFloat.unpackExponent Format.binary64 x.toModel.toBits.toBitVec =
      -BitVec.ofNat Format.binary64.exponentBits 1 := by
    apply BitVec.eq_of_toNat_eq
    rw [UnpackedFloat.unpackExponent, BitVec.toNat_cast, BitVec.extractLsb_toNat,
      Nat.shiftRight_eq_div_pow, hbits]
    simp
    omega
  have hmantissa : @UnpackedFloat.unpackMantissa Format.binary64 x.toModel.toBits.toBitVec ≠
      BitVec.ofNat Format.binary64.mantissaBitsWithoutImplicit 0 := by
    intro heq
    have heq := congrArg BitVec.toNat heq
    rw [UnpackedFloat.unpackMantissa, BitVec.toNat_cast, BitVec.extractLsb_toNat,
      Nat.shiftRight_eq_div_pow, hbits] at heq
    simp at heq
    omega
  have hpacked := x.toModel.valid.eq_packedNaN hexponent hmantissa
  have hquiet : x.toBits = UInt64.ofBitVec (UnpackedFloat.packedNaN Format.binary64) :=
    UInt64.toBitVec_inj.mp hpacked
  rw [← Float.ofBits_toBits x, hquiet]
  rfl

end Packed

theorem bits?_sign {s : List Char} {m : Nat} (hfirst : DigitFirst s) (h : magnitude? s = some m)
    (negative : Bool) : bits? (sign negative ++ s) = some (ofMagnitude negative m) := by
  obtain ⟨c, rest, rfl, hc⟩ := hfirst
  cases negative with
  | true =>
      change (magnitude? (c :: rest)).map (ofMagnitude true) = _
      rw [h, Option.map_some]
  | false =>
      change bits? (c :: rest) = _
      unfold bits?
      split
      · next heq =>
          cases heq
          exact absurd hc (by decide)
      · next heq =>
          cases heq
          exact absurd hc (by decide)
      · rw [h, Option.map_some]

theorem read?_chars (style : TextStyle) (x : Float) :
    read? ((Datum.ofBits x.toBits).chars style) = some x := by
  have hparts := ofMagnitude_magnitude x.toBits
  rw [Datum.ofBits]
  rcases Nat.lt_trichotomy (magnitude x.toBits) infinityMagnitude with hfinite | hinf | hnan
  · obtain ⟨hread, hfirst⟩ := magnitude?_chars hfinite style
    rw [if_pos hfinite, Datum.chars, read?, bits?_sign hfirst hread, hparts, Option.map_some,
      Float.ofBits_toBits]
  · have hread : ∀ negative, bits? (sign negative ++ ['i', 'n', 'f']) =
        some (ofMagnitude negative infinityMagnitude) := by
      intro negative
      cases negative <;> decide
    rw [if_neg (by omega), if_pos hinf, Datum.chars, read?, hread, ← hinf, hparts, Option.map_some,
      Float.ofBits_toBits]
  · rw [if_neg (by omega), if_neg (by omega), eq_nan_of_magnitude hnan]
    have hread : bits? ['N', 'a', 'N'] = some (ofMagnitude false nanMagnitude) := by decide
    rw [Datum.chars, read?, hread]
    rfl

end BoostedTrees.Binary64
