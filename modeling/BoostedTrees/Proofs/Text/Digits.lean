import BoostedTrees.Binary64.Text
import BoostedTrees.Text.Integer

namespace BoostedTrees.Text

def AllDigits (s : List Char) : Prop := ∀ c ∈ s, c.isDigit = true

theorem AllDigits.append {s t : List Char} (hs : AllDigits s) (ht : AllDigits t) :
    AllDigits (s ++ t) := by
  intro c hc
  rcases List.mem_append.mp hc with h | h
  · exact hs c h
  · exact ht c h

theorem AllDigits.of_append_left {s t : List Char} (h : AllDigits (s ++ t)) : AllDigits s :=
  fun c hc => h c (List.mem_append_left t hc)

theorem AllDigits.of_append_right {s t : List Char} (h : AllDigits (s ++ t)) : AllDigits t :=
  fun c hc => h c (List.mem_append_right s hc)

theorem allDigits_toDigits (n : Nat) : AllDigits (Nat.toDigits 10 n) :=
  fun _ hc => Nat.isDigit_of_mem_toDigits (by decide) (by decide) hc

theorem allDigits_zeros (n : Nat) : AllDigits (List.replicate n '0') := by
  intro c hc
  rw [List.eq_of_mem_replicate hc]
  decide

theorem digitValue?_eq {c : Char} :
    digitValue? c = if c.isDigit then some (c.toNat - '0'.toNat) else none := by
  have h : ('0' ≤ c ∧ c ≤ '9') ↔ c.isDigit = true := by
    rw [Char.isDigit, Bool.and_eq_true, decide_eq_true_eq, decide_eq_true_eq]
    rfl
  rw [digitValue?]
  simp only [h]

theorem digitsFrom_eq {s : List Char} (h : AllDigits s) (value : Nat) :
    digitsFrom value s = some (Nat.ofDigitChars 10 s value) := by
  induction s generalizing value with
  | nil => rfl
  | cons c s ih =>
      rw [digitsFrom, digitValue?_eq, if_pos (h c List.mem_cons_self), Nat.ofDigitChars_cons]
      exact ih (fun d hd => h d (List.mem_cons_of_mem _ hd)) _

theorem digits?_eq {s : List Char} (h : AllDigits s) (hne : s ≠ []) :
    digits? s = some (Nat.ofDigitChars 10 s 0) := by
  cases s with
  | nil => exact absurd rfl hne
  | cons c s => exact digitsFrom_eq h 0

theorem digits?_toDigits (n : Nat) : digits? (Nat.toDigits 10 n) = some n := by
  rw [digits?_eq (allDigits_toDigits n) Nat.toDigits_ne_nil, Nat.ofDigitChars_ten_toDigits]

theorem exists_toDigits (n : Nat) :
    ∃ c s, Nat.toDigits 10 n = c :: s ∧ c ≠ '-' ∧ c ≠ '+' := by
  cases hs : Nat.toDigits 10 n with
  | nil => exact absurd hs Nat.toDigits_ne_nil
  | cons c s =>
      have hc : c.isDigit = true := allDigits_toDigits n c (hs ▸ List.mem_cons_self)
      refine ⟨c, s, rfl, ?_, ?_⟩
      · rintro rfl
        exact absurd hc (by decide)
      · rintro rfl
        exact absurd hc (by decide)

theorem natural?_toDigits {width n : Nat} (h : n < Nat.pow 2 width) :
    natural? width (Nat.toDigits 10 n) = some n := by
  have hread := digits?_toDigits n
  obtain ⟨c, s, hs, -, hplus⟩ := exists_toDigits n
  rw [hs] at hread ⊢
  have hsign : natural? width (c :: s) = (digits? (c :: s)).filter (· < Nat.pow 2 width) := by
    rw [natural?]
    intro rest heq
    exact hplus (List.cons.inj heq).1
  rw [hsign, hread]
  exact Option.filter_some_pos (decide_eq_true h)

theorem integer?_intChars {width : Nat} {n : Int} (hlow : -(Nat.pow 2 (width - 1) : Nat) ≤ n)
    (hhigh : n < (Nat.pow 2 (width - 1) : Nat)) :
    integer? width (Binary64.intChars n) = some n := by
  cases n with
  | ofNat n =>
      have hread := digits?_toDigits n
      obtain ⟨c, s, hs, hminus, hplus⟩ := exists_toDigits n
      have hfits : n < Nat.pow 2 (width - 1) := Int.ofNat_lt.mp hhigh
      rw [Binary64.intChars]
      rw [hs] at hread ⊢
      rw [integer?, hread, Option.bind_some, if_pos hfits]
      · rfl
      · intro rest heq
        exact hminus (List.cons.inj heq).1
      · intro rest heq
        exact hplus (List.cons.inj heq).1
  | negSucc n =>
      have hfits : n + 1 ≤ Nat.pow 2 (width - 1) := by
        rw [Int.negSucc_eq] at hlow
        omega
      rw [Binary64.intChars, integer?, digits?_toDigits, Option.bind_some, if_pos hfits]
      rfl

end BoostedTrees.Text
