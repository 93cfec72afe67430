import BoostedTrees.Proofs.Assembly.Acceptance
import BoostedTrees.Proofs.Binary64.Arithmetic
import BoostedTrees.Proofs.Binary64.Truncation
import BoostedTrees.Tree.Decision

namespace BoostedTrees

namespace DecisionFlags

variable {bits : ℤ}

theorem testBit_eq (bits : ℤ) (k : ℕ) : bits.testBit k = decide (bits / 2 ^ k % 2 = 1) := by
  cases bits with
  | ofNat m =>
      rw [Int.testBit, Nat.testBit_eq_decide_div_mod_eq, Int.ofNat_eq_natCast]
      norm_cast
  | negSucc m =>
      have hdiv : Int.negSucc m / 2 ^ k = -((m / 2 ^ k : ℕ) + 1 : ℤ) := by
        rw [Int.negSucc_ediv m (by positivity)]
        norm_cast
      rw [Int.testBit, Nat.testBit_eq_decide_div_mod_eq, hdiv, ← decide_not]
      exact decide_eq_decide.mpr (by omega)

theorem categorical_ofBits (bits : ℤ) : (ofBits bits).categorical = bits.testBit 0 := by
  rw [testBit_eq, ofBits]
  grind

theorem defaultLeft_ofBits (bits : ℤ) : (ofBits bits).defaultLeft = bits.testBit 1 := by
  rw [testBit_eq, ofBits]
  grind

theorem missing_ofBits (bits : ℤ) :
    (ofBits bits).missing =
      match bits.testBit 3, bits.testBit 2 with
      | false, true => .zero
      | true, false => .nan
      | _, _ => .nothing := by
  have hhigh : bits / 2 ^ 3 % 2 = bits / 4 % 4 / 2 := by omega
  have hlow : bits / 2 ^ 2 % 2 = bits / 4 % 4 % 2 := by omega
  have hnonneg : 0 ≤ bits / 4 % 4 := by omega
  have hlt : bits / 4 % 4 < 4 := by omega
  rw [testBit_eq, testBit_eq, hhigh, hlow, ofBits]
  generalize bits / 4 % 4 = field at *
  interval_cases field <;> rfl

end DecisionFlags

-- the number of 24 binary digits that is nearest to `10 ^ -35`
def nearZero : ℚ := round (2 ^ 140 / 10 ^ 35 : ℚ) / 2 ^ 140

theorem nearZero_eq : nearZero = (Binary64.Dyadic.mk 0x1A95A5C0000000 (-169)).value := by
  have hround : round (2 ^ 140 / 10 ^ 35 : ℚ) = 13937966 := by
    rw [round_eq, Int.floor_eq_iff]
    norm_num
  rw [nearZero, hround, Binary64.Dyadic.value]
  norm_num

theorem isZero_iff (value : Float) :
    isZero value = true ↔ value.isFinite = true ∧ |Binary64.toRat value| ≤ nearZero := by
  have hupper : Binary64.toRat zeroThreshold = nearZero := by
    rw [nearZero_eq]
    rfl
  have hlower : Binary64.toRat (-zeroThreshold) = -nearZero := by
    rw [nearZero_eq]
    rfl
  rw [isZero, Bool.and_eq_true, decide_eq_true_eq, decide_eq_true_eq]
  have hbetween (hvalue : value.isFinite = true) :
      -zeroThreshold ≤ value ∧ value ≤ zeroThreshold ↔ |Binary64.toRat value| ≤ nearZero := by
    rw [Binary64.le_iff_toRat (by decide) hvalue, Binary64.le_iff_toRat hvalue (by decide), hupper,
      hlower, abs_le]
  constructor
  · rintro ⟨hlow, hhigh⟩
    have hvalue := Binary64.isFinite_of_le_of_le hlow hhigh (by decide) (by decide)
    exact ⟨hvalue, (hbetween hvalue).mp ⟨hlow, hhigh⟩⟩
  · rintro ⟨hvalue, hnear⟩
    exact (hbetween hvalue).mpr hnear

namespace TreeBlock

variable {b : TreeBlock}

def featureAt? (b : TreeBlock) (row : Row) (node : ℕ) : Option Float := do
  let feature ← b.splitFeature[node]?
  if feature < 0 then none else return row[feature.toNat]?.getD Float.nan

def isMissing (bits : ℤ) (value : Float) : Bool :=
  match bits.testBit 3, bits.testBit 2 with
  | false, true => value.isNaN || value.isFinite && |Binary64.toRat value| ≤ nearZero
  | true, false => value.isNaN
  | _, _ => false

def numericSide (bits : ℤ) (value threshold : Float) : Direction :=
  if isMissing bits value then
    if bits.testBit 1 then .left else .right
  else if (if value.isNaN then 0 else value) ≤ threshold then .left
  else .right

def rangeAt? (b : TreeBlock) (threshold : Float) : Option (ℕ × ℕ) := do
  let k := ⌊Binary64.toRat threshold⌋₊
  if b.boundaries.isEmpty then return (k, min (k + 1) 4294967295)
  else return (← b.boundaries[k]?, ← b.boundaries[k + 1]?)

def hasCategory (b : TreeBlock) (start stop : ℕ) (value : Float) : Bool :=
  !value.isNaN &&
    match Binary64.truncated32 value with
    | .ofNat c => start + c / 32 < stop &&
        b.words[start + c / 32]?.any fun word => word.toNat.testBit (c % 32)
    | .negSucc _ => false

def categorySide? (b : TreeBlock) (value threshold : Float) : Option Direction := do
  let (start, stop) ← b.rangeAt? threshold
  if start ≤ stop ∧ stop ≤ b.words.size then
    return if b.hasCategory start stop value then .left else .right
  else none

def directionAt? (b : TreeBlock) (row : Row) (node : ℕ) : Option Direction := do
  let value ← b.featureAt? row node
  let bits ← b.decisionType[node]?
  let threshold ← b.threshold[node]?
  if bits.testBit 0 then b.categorySide? value threshold
  else return numericSide bits value threshold

theorem numericSide_eq (bits : ℤ) (value threshold : Float) :
    numericSide bits value threshold =
      numericDirection value threshold (DecisionFlags.ofBits bits).missing
        (.ofDefaultLeft (DecisionFlags.ofBits bits).defaultLeft) := by
  have hnear : (value.isFinite && decide (|Binary64.toRat value| ≤ nearZero)) = isZero value := by
    rw [Bool.eq_iff_iff, isZero_iff, Bool.and_eq_true, decide_eq_true_eq]
  rw [DecisionFlags.missing_ofBits, DecisionFlags.defaultLeft_ofBits, Direction.ofDefaultLeft,
    numericSide, isMissing, hnear, ← show Binary64.zero = 0 by decide]
  cases bits.testBit 3 <;> cases bits.testBit 2
  · rw [numericDirection_nothing]
    rfl
  · rw [numericDirection_zero]
    cases value.isNaN <;> rfl
  · rw [numericDirection_nan]
    cases value.isNaN <;> rfl
  · rw [numericDirection_nothing]
    rfl

theorem rangeAt?_of_categoryRange {threshold : Float} {range : CategoryRange}
    (h : b.categoryRange threshold = .ok range) :
    b.rangeAt? threshold = some (range.start, range.stop) := by
  unfold categoryRange at h
  unfold rangeAt?
  rw [Binary64.truncate_eq_floor] at h
  dsimp only at h ⊢
  split at h
  · split at h
    · rename_i hempty
      rw [if_pos hempty]
      obtain rfl := Except.ok.inj h
      rfl
    · rename_i hempty
      rw [if_neg hempty]
      split at h
      · rename_i start stop hstart hstop
        rw [hstart, hstop]
        obtain rfl := Except.ok.inj h
        rfl
      · exact absurd h (by simp)
  · exact absurd h (by simp)

theorem hasCategory_eq {start stop : ℕ} (hstop : stop ≤ b.words.size) (value : Float) :
    b.hasCategory start stop value =
      (category? value).any (CategorySet.slice ⟨b.words⟩ ⟨start, stop⟩).contains := by
  rw [hasCategory, category?, Binary64.toInt32_eq]
  cases value.isNaN with
  | true => rfl
  | false =>
      cases Binary64.truncated32 value with
      | negSucc n =>
          rw [if_neg (by simp), if_pos (Int.negSucc_lt_zero n)]
          rfl
      | ofNat c =>
          change (decide (start + c / 32 < stop) && _) =
            (if (c : ℤ) < 0 then none else some c).any _
          rw [if_neg (Int.not_lt.mpr (Int.natCast_nonneg c)), Option.any_some]
          unfold CategorySet.contains CategorySet.slice CategorySet.categoriesPerWord
          dsimp only
          rw [Array.getElem?_extract]
          by_cases hlt : start + c / 32 < stop
          · rw [if_pos (by omega), decide_eq_true hlt, Bool.true_and]
            cases b.words[start + c / 32]? <;> rfl
          · rw [if_neg (by omega), decide_eq_false hlt, Bool.false_and]

theorem categorySide?_of_categoryRange {threshold : Float} {range : CategoryRange}
    (h : b.categoryRange threshold = .ok range) (value : Float) :
    b.categorySide? value threshold =
      (SplitTest.categorical range).direction? ⟨b.words⟩ value := by
  rw [categorySide?, rangeAt?_of_categoryRange h, SplitTest.direction?, CategorySet.slice?]
  by_cases hinside : CategorySet.Inside ⟨b.words⟩ range
  · obtain ⟨hle, hstop⟩ := hinside
    rw [if_pos ⟨hle, hstop⟩, Option.map_some, categoricalDirection, ← hasCategory_eq hstop]
    exact if_pos ⟨hle, hstop⟩
  · rw [if_neg hinside]
    exact if_neg hinside

theorem directionAt?_of_buildSplit (hb : b.Sized) {node : ℕ} (hnode : node < b.numSplits)
    {l r l' r' : Node} {feature : ℕ} {test : SplitTest}
    (h : b.buildSplit node l r = .ok (.split feature test l' r')) (row : Row) :
    b.directionAt? row node = test.direction? ⟨b.words⟩ (row.feature feature) := by
  have hf : node < b.splitFeature.size := hb.feature ▸ hnode
  have hd : node < b.decisionType.size := hb.decision ▸ hnode
  have hth : node < b.threshold.size := hb.threshold ▸ hnode
  have hfeature : b.splitFeature[node]? = some (b.splitFeature.getD node 0) := by simp [hf]
  have hdecision : b.decisionType[node]? = some (b.decisionType.getD node 0) := by simp [hd]
  have hthreshold : b.threshold[node]? = some (b.threshold.getD node Binary64.zero) := by
    simp [hth]
  unfold directionAt? featureAt?
  rw [hfeature, hdecision, hthreshold]
  unfold buildSplit at h
  generalize b.splitFeature.getD node 0 = f at h ⊢
  generalize b.decisionType.getD node 0 = bits at h ⊢
  generalize b.threshold.getD node Binary64.zero = threshold at h ⊢
  dsimp only at h
  by_cases hneg : f < 0
  · rw [if_pos hneg] at h
    exact absurd h (by simp)
  · rw [if_neg hneg, DecisionFlags.categorical_ofBits] at h
    have hvalue : row[f.toNat]?.getD Float.nan = row.feature f.toNat := rfl
    simp only [Option.bind_eq_bind, Option.bind_some, if_neg hneg, Option.pure_def, hvalue]
    by_cases hc : bits.testBit 0 = true
    · rw [if_pos hc] at h ⊢
      obtain ⟨range, hrange, h⟩ := Outcome.map_ok.mp h
      cases h
      exact categorySide?_of_categoryRange hrange _
    · rw [if_neg hc] at h ⊢
      cases h
      exact congrArg some (numericSide_eq bits _ threshold)

end TreeBlock

end BoostedTrees
