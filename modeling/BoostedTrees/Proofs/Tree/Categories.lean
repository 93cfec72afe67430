import BoostedTrees.Proofs.Binary64.Truncation
import BoostedTrees.Proofs.Tree.Ranges
import Mathlib.Data.Nat.Bitwise

namespace BoostedTrees

namespace CategorySet

variable {s t : CategorySet} {words : Array UInt64} {c d : Nat}

theorem contains_eq_true : s.contains c = true ↔
    ∃ word, s.words[c / 32]? = some word ∧ word.toNat.testBit (c % 32) = true := by
  unfold contains categoriesPerWord
  cases s.words[c / 32]? with
  | none => simp
  | some word => simp

theorem testBit_bit (c i : Nat) : (bit c).toNat.testBit i = decide (c % 32 = i) := by
  have hlt : 2 ^ (c % 32) < 2 ^ 64 := Nat.pow_lt_pow_right (by decide) (by omega)
  rw [bit, categoriesPerWord, Nat.pow_eq, UInt64.toNat_ofNat_of_lt' hlt, Nat.testBit_two_pow]

theorem contains_insertInPlace (hc : c / 32 < words.size) :
    contains ⟨insertInPlace words c⟩ d = true ↔ d = c ∨ contains ⟨words⟩ d = true := by
  rw [contains_eq_true, contains_eq_true, insertInPlace, categoriesPerWord, Array.getElem?_modify]
  by_cases hword : c / 32 = d / 32
  · obtain ⟨word, hfound⟩ : ∃ word, words[d / 32]? = some word :=
      ⟨_, Array.getElem?_eq_getElem (hword ▸ hc)⟩
    have hbit : c % 32 = d % 32 ↔ d = c := by omega
    simp [hword, hfound, Nat.testBit_or, testBit_bit, hbit, or_comm]
  · have hne : d ≠ c := fun h => hword (by rw [h])
    simp [hword, hne]

theorem contains_insertAll (cs : List Nat) (hcs : ∀ c ∈ cs, c / 32 < words.size) :
    contains ⟨cs.foldl insertInPlace words⟩ d = true ↔ d ∈ cs ∨ contains ⟨words⟩ d = true := by
  induction cs generalizing words with
  | nil => simp
  | cons c cs ih =>
      obtain ⟨hc, hcs⟩ := List.forall_mem_cons.mp hcs
      have hsize : (insertInPlace words c).size = words.size := by simp [insertInPlace]
      rw [List.foldl_cons, ih (hsize ▸ hcs), contains_insertInPlace hc, List.mem_cons]
      tauto

theorem le_foldl_max (first : Nat) (rest : List Nat) :
    ∀ c ∈ first :: rest, c ≤ rest.foldl max first := by
  induction rest generalizing first with
  | nil => simp
  | cons next rest ih =>
      obtain ⟨hmax, hrest⟩ := List.forall_mem_cons.mp (ih (max first next))
      rw [List.foldl_cons]
      simp only [List.forall_mem_cons]
      exact ⟨by omega, by omega, hrest⟩

theorem contains_ofList (cs : List Nat) : (ofList cs).contains c = true ↔ c ∈ cs := by
  cases cs with
  | nil => simp [ofList, contains, empty]
  | cons first rest =>
      have hsize : ∀ d ∈ first :: rest,
          d / 32 < (Array.replicate (rest.foldl max first / 32 + 1) (0 : UInt64)).size := by
        intro d hd
        have hmax := le_foldl_max first rest d hd
        rw [Array.size_replicate]
        omega
      have hnone : contains ⟨Array.replicate (rest.foldl max first / 32 + 1) 0⟩ c = false := by
        rw [Bool.eq_false_iff, ne_eq, contains_eq_true]
        rintro ⟨word, hword, hbit⟩
        rw [Array.getElem?_replicate] at hword
        split at hword
        · obtain rfl := Option.some.inj hword
          simp at hbit
        · exact absurd hword (by simp)
      rw [ofList, categoriesPerWord, contains_insertAll _ hsize, hnone]
      simp

def SameHalves (words kept : List UInt64) : Prop :=
  List.Forall₂ (fun word kept : UInt64 => word.toNat % 2 ^ 32 = kept.toNat % 2 ^ 32) words kept

theorem contains_of_sameHalves (h : SameHalves s.words.toList t.words.toList) :
    s.contains c = t.contains c := by
  have hlow : ∀ word kept : UInt64, word.toNat % 2 ^ 32 = kept.toNat % 2 ^ 32 →
      word.toNat.testBit (c % 32) = kept.toNat.testBit (c % 32) := by
    intro word kept heq
    have hlt : c % 32 < 32 := Nat.mod_lt _ (by decide)
    have hbit := congrArg (fun n => n.testBit (c % 32)) heq
    simpa only [Nat.testBit_mod_two_pow, hlt, decide_true, Bool.true_and] using hbit
  -- a category is one of the lower bits of its word, so the upper half of the word does not count
  obtain ⟨hlength, hwords⟩ := List.forall₂_iff_get.mp h
  unfold contains categoriesPerWord
  rw [← Array.getElem?_toList, ← Array.getElem?_toList]
  by_cases hc : c / 32 < s.words.toList.length
  · rw [List.getElem?_eq_getElem hc, List.getElem?_eq_getElem (hlength ▸ hc)]
    exact hlow _ _ (hwords _ hc (hlength ▸ hc))
  · rw [List.getElem?_eq_none (Nat.not_lt.mp hc),
      List.getElem?_eq_none (hlength ▸ Nat.not_lt.mp hc)]

def around (before words after : List UInt64) : CategorySet := ⟨(before ++ words ++ after).toArray⟩

def rangeOf (before words : List UInt64) : CategoryRange :=
  ⟨before.length, before.length + words.length⟩

theorem inside_rangeOf (before words after : List UInt64) :
    (around before words after).Inside (rangeOf before words) := by
  constructor
  · exact Nat.le_add_right _ _
  · simp [around, rangeOf, length]

theorem slice_rangeOf (before words after : List UInt64) :
    (around before words after).slice (rangeOf before words) = ⟨words.toArray⟩ := by
  simp [around, rangeOf, slice, List.extract_toArray, List.extract_eq_take_drop]

end CategorySet

def IsCategoryOf (cs : List Nat) (value : Float) : Prop :=
  value.isNaN = false ∧ 0 ≤ Binary64.truncated32 value ∧ (Binary64.truncated32 value).toNat ∈ cs

theorem category?_any {set : CategorySet} {cs : List Nat}
    (hset : ∀ c, set.contains c = true ↔ c ∈ cs) (value : Float) :
    (category? value).any set.contains = true ↔ IsCategoryOf cs value := by
  rw [category?, Binary64.toInt32_eq, IsCategoryOf]
  cases value.isNaN with
  | true => simp
  | false =>
      by_cases hneg : Binary64.truncated32 value < 0
      · simp [hneg]
      · simp [hneg, hset, Int.not_lt.mp hneg]

instance (cs : List Nat) (value : Float) : Decidable (IsCategoryOf cs value) :=
  inferInstanceAs (Decidable (_ ∧ _))

namespace CategorySet

theorem contains_of_words {cs : List Nat} {words : List UInt64}
    (h : SameHalves words (ofList cs).words.toList) (c : Nat) :
    contains ⟨words.toArray⟩ c = true ↔ c ∈ cs := by
  have hsame : contains ⟨words.toArray⟩ c = (ofList cs).contains c := contains_of_sameHalves h
  rw [hsame, contains_ofList]

theorem direction_rangeOf {cs : List Nat} {words : List UInt64}
    (h : SameHalves words (ofList cs).words.toList) (before after : List UInt64) (value : Float) :
    (SplitTest.categorical (rangeOf before words)).direction (around before words after) value =
      if IsCategoryOf cs value then .left else .right := by
  rw [SplitTest.direction, slice_rangeOf, categoricalDirection]
  exact if_congr (category?_any (contains_of_words h) value) rfl rfl

theorem split_on_ofList (cs : List Nat) (before words after : List UInt64)
    (h : SameHalves words (ofList cs).words.toList) :
    (∀ c, (ofList cs).contains c = true ↔ c ∈ cs) ∧
    ∀ (feature : Nat) (row : Row),
      let store := around before words after
      let test := SplitTest.categorical (rangeOf before words)
      let value := row.feature feature
      (test.direction? store value = some .left ↔ IsCategoryOf cs value) ∧
      (∀ l r : Node, (Node.split feature test l r).eval? store row =
        if IsCategoryOf cs value then l.eval? store row else r.eval? store row) ∧
      (∀ l r : Node, (Node.split feature test l r).eval store row =
        if IsCategoryOf cs value then l.eval store row else r.eval store row) ∧
      ∀ l r : CompiledNode, (CompiledNode.ofTest store feature test l r).eval row =
        if IsCategoryOf cs value then l.eval row else r.eval row := by
  refine ⟨fun c => contains_ofList cs, fun feature row => ?_⟩
  intro store test value
  have hdirection : test.direction store value = .left ↔ IsCategoryOf cs value := by
    rw [direction_rangeOf h]
    split <;> simp_all
  have hchecked : test.direction? store value = some (test.direction store value) := by
    rw [SplitTest.direction?, slice?, if_pos (inside_rangeOf before words after)]
    rfl
  refine ⟨?_, fun l r => ?_, fun l r => ?_, fun l r => ?_⟩
  · rw [hchecked, Option.some_inj, hdirection]
  · rw [Node.eval?, hchecked, Option.bind_some]
    exact if_congr hdirection rfl rfl
  · exact if_congr hdirection rfl rfl
  · rw [CompiledNode.eval_ofTest]
    exact if_congr hdirection rfl rfl

theorem split_on_fullWords :
    SameHalves [0x100000002, 0x8000000000000102] (ofList [33, 1, 33, 40]).words.toList ∧
    let store := around [5] [0x100000002, 0x8000000000000102] [0xFFFFFFFFFFFFFFFF]
    let test := SplitTest.categorical ⟨1, 3⟩
    (ofList [33, 1, 33, 40]).contains 32 = false ∧
    (Node.split 0 test (.leaf 1) (.leaf 2)).eval? store #[40.75] = some 1 ∧
    (CompiledNode.ofTest store 0 test (.leaf 1) (.leaf 2)).eval #[-0.5] = 2 := by
  have hwords :
      SameHalves [0x100000002, 0x8000000000000102] (ofList [33, 1, 33, 40]).words.toList :=
    .cons (by decide) (.cons (by decide) .nil)
  obtain ⟨hcontains, hsplit⟩ := split_on_ofList [33, 1, 33, 40] [5] _ [0xFFFFFFFFFFFFFFFF] hwords
  obtain ⟨-, hleft, -, -⟩ := hsplit 0 #[40.75]
  obtain ⟨-, -, -, hright⟩ := hsplit 0 #[-0.5]
  have hforty : IsCategoryOf [33, 1, 33, 40] (Row.feature #[40.75] 0) := by
    rw [IsCategoryOf, ← Binary64.toInt32_eq]
    decide +kernel
  have hzero : ¬ IsCategoryOf [33, 1, 33, 40] (Row.feature #[-0.5] 0) := by
    rw [IsCategoryOf, ← Binary64.toInt32_eq]
    decide +kernel
  refine ⟨hwords, ?_, (hleft (.leaf 1) (.leaf 2)).trans (if_pos hforty),
    (hright (.leaf 1) (.leaf 2)).trans (if_neg hzero)⟩
  rw [Bool.eq_false_iff, ne_eq, hcontains]
  decide

end CategorySet

end BoostedTrees
