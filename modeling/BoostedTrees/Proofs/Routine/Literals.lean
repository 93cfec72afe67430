import BoostedTrees.Proofs.Binary64.Signs
import BoostedTrees.Proofs.Code.Meaning
import BoostedTrees.Proofs.Code.Reading
import BoostedTrees.Routine.Printer

namespace BoostedTrees.Routine

open Code

inductive MarkedNumeral : List Char → Prop where
  | point {whole fraction : List Char} : Text.AllDigits whole → whole ≠ [] →
      Text.AllDigits fraction → fraction ≠ [] → MarkedNumeral (whole ++ '.' :: fraction)
  | power {whole : List Char} (n : Int) : Text.AllDigits whole → whole ≠ [] →
      MarkedNumeral (whole ++ 'e' :: Binary64.intChars n)
  | pointAndPower {whole fraction : List Char} (n : Int) : Text.AllDigits whole → whole ≠ [] →
      Text.AllDigits fraction → fraction ≠ [] →
      MarkedNumeral (whole ++ '.' :: fraction ++ 'e' :: Binary64.intChars n)

theorem take_ne_nil {α : Type} {xs : List α} {n : Nat} (hn : 0 < n) (hxs : xs ≠ []) :
    xs.take n ≠ [] := by
  rw [ne_eq, List.take_eq_nil_iff]
  rintro (h | h)
  · omega
  · exact hxs h

theorem drop_ne_nil {α : Type} {xs : List α} {n : Nat} (hn : n < xs.length) : xs.drop n ≠ [] := by
  rw [ne_eq, List.drop_eq_nil_iff]
  omega

theorem markedNumeral_digits {x : Binary64.Digits} (hdigits : Text.AllDigits x.digits)
    (hne : x.digits ≠ []) : MarkedNumeral (x.chars Binary64.markedStyle) := by
  have htake : ∀ n, Text.AllDigits (x.digits.take n) :=
    fun n c hc => hdigits c (List.mem_of_mem_take hc)
  have hdrop : ∀ n, Text.AllDigits (x.digits.drop n) :=
    fun n c hc => hdigits c (List.mem_of_mem_drop hc)
  have hzeros : ∀ n, Text.AllDigits (Binary64.zeros n) := Text.allDigits_zeros
  unfold Binary64.Digits.chars Binary64.Digits.positional Binary64.Digits.scientific
  split
  · split
    · exact .point (Text.allDigits_zeros 1) (by simp) ((hzeros _).append hdigits) (by simp [hne])
    · split
      · exact .point (hdigits.append (hzeros _)) (by simp [hne]) (Text.allDigits_zeros 1) (by simp)
      · exact .point (htake _) (take_ne_nil (by omega) hne) (hdrop _) (drop_ne_nil (by omega))
  · split
    · rw [List.append_nil]
      exact .power _ (htake 1) (take_ne_nil Nat.one_pos hne)
    · exact .pointAndPower _ (htake 1) (take_ne_nil Nat.one_pos hne) (hdrop 1)
        (drop_ne_nil (by omega))

theorem markedNumeral_chars {m : Nat} (h : m < Binary64.infinityMagnitude) :
    MarkedNumeral ((Binary64.Dyadic.ofMagnitude m).chars Binary64.markedStyle) := by
  rw [Binary64.Dyadic.chars]
  split
  · exact .point (Text.allDigits_zeros 1) (by simp) (Text.allDigits_zeros 1) (by simp)
  · rename_i hne
    obtain ⟨hall, hne, -⟩ := Binary64.digits_ofMagnitude h (Nat.pos_of_ne_zero hne)
    exact markedNumeral_digits hall hne

theorem exists_sign_digits (n : Int) : ∃ negative digits,
    Binary64.intChars n = Binary64.sign negative ++ digits ∧ Text.AllDigits digits := by
  cases n with
  | ofNat n => exact ⟨false, _, rfl, Text.allDigits_toDigits n⟩
  | negSucc n => exact ⟨true, _, rfl, Text.allDigits_toDigits (n + 1)⟩

theorem MarkedNumeral.scansNumber {s : List Char} (h : MarkedNumeral s) : ScansNumber s := by
  cases h with
  | point hwhole hne hfraction hne' => exact (scansNumber_digits hwhole hne).point hfraction hne'
  | power n hwhole hne =>
      obtain ⟨negative, digits, hn, hall⟩ := exists_sign_digits n
      rw [hn]
      exact (scansNumber_digits hwhole hne).power (fun c hc => .inl (hwhole c hc)) negative hall
  | pointAndPower n hwhole hne hfraction hne' =>
      obtain ⟨negative, digits, hn, hall⟩ := exists_sign_digits n
      rw [hn]
      refine ((scansNumber_digits hwhole hne).point hfraction hne').power ?_ negative hall
      intro c hc
      rcases List.mem_append.mp hc with hc | hc
      · exact .inl (hwhole c hc)
      · rcases List.mem_cons.mp hc with rfl | hc
        · exact .inr rfl
        · exact .inl (hfraction c hc)

theorem isNumberChar_of_isDigit {c : Char} (h : c.isDigit = true) : isNumberChar c = true := by
  rw [isNumberChar, h]
  rfl

theorem isNumberChar_intChars (n : Int) : ∀ c ∈ Binary64.intChars n, isNumberChar c = true := by
  cases n with
  | ofNat n => exact fun c hc => isNumberChar_of_isDigit (Text.allDigits_toDigits n c hc)
  | negSucc n =>
      exact List.forall_mem_cons.mpr
        ⟨by decide, fun c hc => isNumberChar_of_isDigit (Text.allDigits_toDigits (n + 1) c hc)⟩

theorem MarkedNumeral.isNumberChar {s : List Char} (h : MarkedNumeral s) :
    ∀ c ∈ s, isNumberChar c = true := by
  have hdigits : ∀ {s}, Text.AllDigits s → ∀ c ∈ s, Code.isNumberChar c = true :=
    fun h c hc => isNumberChar_of_isDigit (h c hc)
  have hpower : ∀ n, ∀ c ∈ 'e' :: Binary64.intChars n, Code.isNumberChar c = true :=
    fun n => List.forall_mem_cons.mpr ⟨by decide, isNumberChar_intChars n⟩
  have hpoint : ∀ {s}, Text.AllDigits s → ∀ c ∈ '.' :: s, Code.isNumberChar c = true :=
    fun h => List.forall_mem_cons.mpr ⟨by decide, hdigits h⟩
  cases h with
  | point hwhole _ hfraction _ =>
      exact List.forall_mem_append.mpr ⟨hdigits hwhole, hpoint hfraction⟩
  | power n hwhole _ => exact List.forall_mem_append.mpr ⟨hdigits hwhole, hpower n⟩
  | pointAndPower n hwhole _ hfraction _ =>
      exact List.forall_mem_append.mpr
        ⟨List.forall_mem_append.mpr ⟨hdigits hwhole, hpoint hfraction⟩, hpower n⟩

theorem MarkedNumeral.not_allDigits {s : List Char} (h : MarkedNumeral s) :
    s.all Char.isDigit = false := by
  rw [Bool.eq_false_iff, ne_eq, List.all_eq_true]
  intro hall
  cases h with
  | point => exact absurd (hall '.' (by simp)) (by decide)
  | power => exact absurd (hall 'e' (by simp)) (by decide)
  | pointAndPower => exact absurd (hall 'e' (by simp)) (by decide)

theorem literal?_digits (n : Nat) : literal? (Nat.toDigits 10 n) = some (.int n) := by
  have hdigits := Text.allDigits_toDigits n
  have hnumber : ∀ c ∈ Nat.toDigits 10 n, isNumberChar c = true :=
    fun c hc => isNumberChar_of_isDigit (hdigits c hc)
  have hall : (Nat.toDigits 10 n).all Char.isDigit = true := List.all_eq_true.mpr hdigits
  simp only [literal?, List.takeWhile_eq_self_iff.mpr hnumber,
    List.dropWhile_eq_nil_iff.mpr hnumber]
  rw [List.dropWhile_nil, if_pos rfl, if_pos hall, Text.digits?_toDigits]
  rfl

theorem MarkedNumeral.literal? {s : List Char} (h : MarkedNumeral s) :
    literal? s = (Binary64.read? s).map .float := by
  simp only [Code.literal?, List.takeWhile_eq_self_iff.mpr h.isNumberChar,
    List.dropWhile_eq_nil_iff.mpr h.isNumberChar]
  rw [List.dropWhile_nil, if_pos rfl, h.not_allDigits, if_neg (by simp)]

section Literals

variable (x : Float)

def numberText : List Char :=
  (Binary64.Dyadic.ofMagnitude (Binary64.magnitude x.toBits)).chars Binary64.markedStyle

def literalTerm : Term :=
  if x.isNaN then .name ["f64", "NAN"]
  else if x == Binary64.infinity then .name ["f64", "INFINITY"]
  else if x == -Binary64.infinity then .name ["f64", "NEG_INFINITY"]
  else if Binary64.isNegative x.toBits then .unary .negate (.number (numberText x))
  else .number (numberText x)

inductive Writes : Float → List Char → Term → Prop where
  | nan : Writes Binary64.nan "f64::NAN".toList (.name ["f64", "NAN"])
  | infinity : Writes Binary64.infinity "f64::INFINITY".toList (.name ["f64", "INFINITY"])
  | negInfinity :
      Writes (-Binary64.infinity) "f64::NEG_INFINITY".toList (.name ["f64", "NEG_INFINITY"])
  | negative {x : Float} : Binary64.magnitude x.toBits < Binary64.infinityMagnitude →
      Binary64.isNegative x.toBits = true →
      Writes x ('-' :: numberText x) (.unary .negate (.number (numberText x)))
  | positive {x : Float} : Binary64.magnitude x.toBits < Binary64.infinityMagnitude →
      Binary64.isNegative x.toBits = false → Writes x (numberText x) (.number (numberText x))

theorem toList_marked {x : Float} (h : Binary64.magnitude x.toBits < Binary64.infinityMagnitude) :
    (Binary64.marked x).toList = Binary64.sign (Binary64.isNegative x.toBits) ++ numberText x := by
  rw [Binary64.marked, String.toList_ofList, Binary64.Datum.ofBits, if_pos h]
  rfl

theorem writes_literal : Writes x (literal x).toList (literalTerm x) := by
  unfold literal literalTerm
  split
  · next hnan =>
      rw [Binary64.eq_nan_of_isNaN hnan]
      exact .nan
  · next hnan =>
      split
      · next hinf =>
          rw [Binary64.eq_infinity_of_beq hinf]
          exact .infinity
      · next hinf =>
          split
          · next hneg =>
              rw [Binary64.eq_neg_infinity_of_beq hneg]
              exact .negInfinity
          · next hneg =>
              have hm := Binary64.magnitude_lt (Bool.eq_false_iff.mpr hnan)
                (Bool.eq_false_iff.mpr hinf) (Bool.eq_false_iff.mpr hneg)
              rw [toList_marked hm]
              split
              · next hnegative =>
                  rw [hnegative]
                  exact .negative hm hnegative
              · next hnegative =>
                  rw [Bool.eq_false_iff.mpr hnegative]
                  exact .positive hm (Bool.eq_false_iff.mpr hnegative)

def ReadsOperand (s : List Char) (p : Program) (focus : Focus) (stack : List Frame) (y : Term) :
    Prop :=
  ∃ z above, (∀ n, Reader.complete n z above = Reader.complete n y stack) ∧
    ∀ c rest r, Ends c → Reads (c :: rest) ⟨p, .ended z, above⟩ r →
      Reads (s ++ c :: rest) ⟨p, focus, stack⟩ r

def Open (focus : Focus) : Prop := focus = .operand ∨ focus = .statement

section Reading

variable (p : Program) {focus : Focus} (stack : List Frame)

theorem step_number (h : Open focus) (s : List Char) :
    Reader.step ⟨p, focus, stack⟩ (.number s) = some ⟨p, .ended (.number s), stack⟩ := by
  rcases h with rfl | rfl <;> rfl

theorem step_minus (h : Open focus) : Reader.step ⟨p, focus, stack⟩ .minus =
    some ⟨p, .operand, .unary .negate :: stack⟩ := by
  rcases h with rfl | rfl <;> rfl

theorem reads_named (name : List Char) (h : Open focus)
    (hname : Token.ofWord name = .name (String.ofList name))
    (hstart : ∃ d v, name = d :: v ∧ isWordStart d = true) (hall : name.all isWordChar = true) :
    ReadsOperand ("f64::".toList ++ name) p focus stack (.name ["f64", String.ofList name]) := by
  refine ⟨_, stack, fun n => rfl, fun c rest r hc hrest => ?_⟩
  have htype : Reads "f64::".toList ⟨p, focus, stack⟩ ⟨p, .path ["f64"], stack⟩ := by
    rcases h with rfl | rfl <;> exact reads_of_run rfl
  rw [List.append_assoc]
  refine htype.append (Reads.word hstart (List.all_eq_true.mp hall) hc ?_ hrest)
  rw [hname]
  rfl

theorem reads_numberText {x : Float}
    (hm : Binary64.magnitude x.toBits < Binary64.infinityMagnitude) (h : Open focus) :
    ReadsOperand (numberText x) p focus stack (.number (numberText x)) :=
  ⟨_, stack, fun _ => rfl, fun _ _ _ hc hrest =>
    Reads.number (markedNumeral_chars hm).scansNumber hc (step_number p stack h _) hrest⟩

theorem reads_literal (h : Open focus) :
    ReadsOperand (literal x).toList p focus stack (literalTerm x) := by
  have hwrites := writes_literal x
  generalize (literal x).toList = text, literalTerm x = y at hwrites ⊢
  cases hwrites with
  | nan => exact reads_named p stack ['N', 'A', 'N'] h rfl ⟨_, _, rfl, rfl⟩ rfl
  | infinity => exact reads_named p stack "INFINITY".toList h rfl ⟨_, _, rfl, rfl⟩ rfl
  | negInfinity => exact reads_named p stack "NEG_INFINITY".toList h rfl ⟨_, _, rfl, rfl⟩ rfl
  | positive hm _ => exact reads_numberText p stack hm h
  | negative hm _ =>
      -- the digits are read behind the minus, and whatever completes them completes it as well
      obtain ⟨z, above, hcomplete, hread⟩ :=
        reads_numberText p (.unary .negate :: stack) hm (.inl rfl)
      obtain ⟨-, d, s, hs, hd⟩ := Binary64.magnitude?_chars hm Binary64.markedStyle
      have hs : numberText x = d :: s := hs
      refine ⟨z, above, hcomplete, fun c rest r hc hrest => ?_⟩
      have hread := hread c rest r hc hrest
      rw [hs] at hread ⊢
      exact Reads.minus hd (step_minus p stack h) hread

end Reading

theorem literal?_numberText {x : Float}
    (h : Binary64.magnitude x.toBits < Binary64.infinityMagnitude) :
    literal? (numberText x) = some (.float
      (Float.ofBits (Binary64.ofMagnitude false (Binary64.magnitude x.toBits)))) := by
  obtain ⟨hread, hfirst⟩ := Binary64.magnitude?_chars h Binary64.markedStyle
  have hbits := Binary64.bits?_sign hfirst hread false
  rw [numberText, (markedNumeral_chars h).literal?, Binary64.read?]
  exact congrArg (fun bits => (bits.map Float.ofBits).map Value.float) hbits

theorem eval_literalTerm (g : Globals) (scope : Variables) :
    (literalTerm x).eval g scope = .ok (.float x) := by
  have hnumber : ∀ {x : Float}, Binary64.magnitude x.toBits < Binary64.infinityMagnitude →
      (Term.number (numberText x)).eval g scope = .ok (.float
        (Float.ofBits (Binary64.ofMagnitude false (Binary64.magnitude x.toBits)))) := by
    intro x hm
    rw [Term.eval, literal?_numberText hm]
    rfl
  have hx := Binary64.ofMagnitude_magnitude x.toBits
  have hwrites := writes_literal x
  generalize (literal x).toList = text, literalTerm x = y at hwrites ⊢
  cases hwrites with
  | nan => rfl
  | infinity => rfl
  | negInfinity => rfl
  | negative hm hnegative =>
      rw [hnegative] at hx
      refine eval_unary (hnumber hm) (congrArg (fun y => some (Value.float y)) ?_)
      rw [Binary64.neg_ofMagnitude (Nat.le_of_lt hm), hx, Float.ofBits_toBits]
  | positive hm hpositive =>
      rw [hpositive] at hx
      rw [hnumber hm, hx, Float.ofBits_toBits]

theorem endsInNumber_literalTerm : (literalTerm x).endsInNumber = true := by
  have hnumber : ∀ {x : Float}, Binary64.magnitude x.toBits < Binary64.infinityMagnitude →
      (Term.number (numberText x)).endsInNumber = true := by
    intro x hm
    rw [Term.endsInNumber, literal?_numberText hm]
    rfl
  have hwrites := writes_literal x
  generalize (literal x).toList = text, literalTerm x = y at hwrites ⊢
  cases hwrites with
  | nan => rfl
  | infinity => rfl
  | negInfinity => rfl
  | negative hm _ => exact hnumber hm
  | positive hm _ => exact hnumber hm

end Literals

end BoostedTrees.Routine
