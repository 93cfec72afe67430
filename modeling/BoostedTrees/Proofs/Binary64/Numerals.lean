import BoostedTrees.Binary64.Text
import BoostedTrees.Proofs.Text.Digits
import BoostedTrees.Proofs.Text.Words

namespace BoostedTrees

namespace Text

def otherNumeric : List Char := ['-', '.', 'e', 'N', 'a', 'i', 'n', 'f']

def isNumeric (c : Char) : Bool := c.isDigit || otherNumeric.contains c

def AllNumeric (s : List Char) : Prop := ∀ c ∈ s, isNumeric c = true

instance (s : List Char) : Decidable (AllNumeric s) :=
  List.decidableBAll (fun c => isNumeric c = true) s

def IsNumeral (s : List Char) : Prop := s ≠ [] ∧ AllNumeric s

variable {s t : List Char}

theorem isBlank_of_isDigit {c : Char} (h : c.isDigit = true) : isBlank c = false := by
  have hrange : 48 ≤ c.toNat ∧ c.toNat ≤ 57 := by
    simp only [Char.isDigit, Bool.and_eq_true, decide_eq_true_eq] at h
    exact h
  simp only [isBlank, Bool.or_eq_false_iff, Bool.and_eq_false_iff, decide_eq_false_iff_not,
    beq_eq_false_iff_ne]
  omega

theorem isNumeric_of_isDigit {c : Char} (h : c.isDigit = true) : isNumeric c = true := by
  rw [isNumeric, h, Bool.true_or]

theorem AllDigits.allNumeric (h : AllDigits s) : AllNumeric s :=
  fun c hc => isNumeric_of_isDigit (h c hc)

theorem AllNumeric.append (hs : AllNumeric s) (ht : AllNumeric t) : AllNumeric (s ++ t) :=
  List.forall_mem_append.mpr ⟨hs, ht⟩

theorem AllNumeric.cons {c : Char} (hc : isNumeric c = true) (hs : AllNumeric s) :
    AllNumeric (c :: s) :=
  List.forall_mem_cons.mpr ⟨hc, hs⟩

theorem IsNumeral.isWord (h : IsNumeral s) : IsWord s := by
  refine ⟨h.1, fun c hc => ?_⟩
  have hother : NoBlank otherNumeric := by decide
  rcases Bool.or_eq_true_iff.mp (h.2 c hc) with hdigit | hc
  · exact isBlank_of_isDigit hdigit
  · exact hother c (List.contains_iff_mem.mp hc)

theorem IsNumeral.equals_notMem (h : IsNumeral s) : '=' ∉ s := by
  intro hc
  exact absurd (h.2 _ hc) (by decide)

theorem isNumeral_toDigits (n : Nat) : IsNumeral (Nat.toDigits 10 n) :=
  ⟨Nat.toDigits_ne_nil, (allDigits_toDigits n).allNumeric⟩

end Text

namespace Binary64

open Text

theorem isNumeral_intChars (n : Int) : IsNumeral (intChars n) := by
  cases n with
  | ofNat n => exact isNumeral_toDigits n
  | negSucc n => exact ⟨by simp [intChars], (isNumeral_toDigits (n + 1)).2.cons (by decide)⟩

theorem Interval.allDigits_search (i : Interval) (decade : Int) (count more : Nat) :
    ∀ x ∈ i.search decade count more, AllDigits x.digits := by
  induction more generalizing count with
  | zero => simp [search]
  | succ more ih =>
      intro x hx
      rw [search] at hx
      split at hx
      · cases hx
        intro c hc
        rw [Digits.ofNat, List.mem_reverse] at hc
        exact allDigits_toDigits _ c (List.mem_reverse.mp ((List.dropWhile_sublist _).subset hc))
      · exact ih _ x hx

theorem Dyadic.allDigits_digits (x : Dyadic) : AllDigits x.digits.digits := by
  rw [Dyadic.digits]
  cases h : x.interval.search x.interval.decade 1 17 with
  | none => exact allDigits_zeros 1
  | some d => exact Interval.allDigits_search _ _ _ _ d h

theorem Digits.allNumeric_chars {x : Digits} (h : AllDigits x.digits) (style : TextStyle) :
    AllNumeric (x.chars style) := by
  have htake : ∀ n, AllNumeric (x.digits.take n) := fun n c hc =>
    isNumeric_of_isDigit (h c (List.mem_of_mem_take hc))
  have hdrop : ∀ n, AllNumeric (x.digits.drop n) := fun n c hc =>
    isNumeric_of_isDigit (h c (List.mem_of_mem_drop hc))
  have hzeros : ∀ n, AllNumeric (zeros n) := fun n => (allDigits_zeros n).allNumeric
  unfold chars positional scientific
  split
  · split
    · have hlead : AllNumeric ['0', '.'] := by decide
      exact (hlead.append (hzeros _)).append h.allNumeric
    · split
      · refine (h.allNumeric.append (hzeros _)).append ?_
        split <;> decide
      · exact (htake _).append ((hdrop _).cons (by decide))
  · refine ((htake 1).append ?_).append ((isNumeral_intChars _).2.cons (by decide))
    split
    · decide
    · exact (hdrop 1).cons (by decide)

theorem Digits.chars_ne_nil (x : Digits) (style : TextStyle) : x.chars style ≠ [] := by
  unfold chars positional scientific
  split
  · split
    · simp
    · split
      · rename_i hpoint hlong
        intro hnil
        have hzeros := (List.append_eq_nil_iff.mp (List.append_eq_nil_iff.mp hnil).1)
        have hlength := congrArg List.length hzeros.2
        rw [zeros, List.length_replicate, hzeros.1, List.length_nil] at hlength
        omega
      · simp
  · simp

theorem Dyadic.isNumeral_chars (x : Dyadic) (style : TextStyle) : IsNumeral (x.chars style) := by
  rw [Dyadic.chars]
  split
  · refine ⟨by simp, ?_⟩
    split <;> decide
  · exact ⟨Digits.chars_ne_nil _ style, Digits.allNumeric_chars (allDigits_digits x) style⟩

theorem Datum.isNumeral_chars (x : Datum) (style : TextStyle) : IsNumeral (x.chars style) := by
  have hsign : ∀ negative, AllNumeric (sign negative) := by decide
  cases x with
  | nan =>
      have hname : AllNumeric ['N', 'a', 'N'] := by decide
      exact ⟨by simp [chars], hname⟩
  | infinite negative => exact ⟨by simp [chars], (hsign negative).append (by decide)⟩
  | finite negative x =>
      obtain ⟨hne, hall⟩ := x.isNumeral_chars style
      exact ⟨by simp [chars, hne], (hsign negative).append hall⟩

end Binary64

end BoostedTrees
