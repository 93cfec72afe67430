import BoostedTrees.Dump.Assembly
import BoostedTrees.Proofs.Binary64.Truncation
import BoostedTrees.Proofs.Outcome

namespace BoostedTrees.TreeBlock

def childAt? (b : TreeBlock) (node : Nat) : Direction → Option Int
  | .left => b.leftChild[node]?
  | .right => b.rightChild[node]?

def entryAt (b : TreeBlock) (node : Nat) : Direction → Int
  | .left => b.leftAt node
  | .right => b.rightAt node

structure Sized (b : TreeBlock) : Prop where
  right : b.rightChild.size = b.numSplits
  feature : b.splitFeature.size = b.numSplits
  decision : b.decisionType.size = b.numSplits
  threshold : b.threshold.size = b.numSplits

theorem checkSizes_ok {b : TreeBlock} : b.checkSizes = .ok () ↔ b.Sized := by
  unfold checkSizes
  constructor
  · intro h
    have hnone : [("right_child", b.rightChild.size), ("split_feature", b.splitFeature.size),
        ("decision_type", b.decisionType.size), ("threshold", b.threshold.size)].find?
          (fun size => size.2 != b.numSplits) = none := by
      dsimp only at h
      split at h
      · exact absurd h (by simp)
      · assumption
    simp only [List.find?_eq_none, List.mem_cons, List.not_mem_nil, or_false, forall_eq_or_imp,
      forall_eq, bne_iff_ne, ne_eq, not_not] at hnone
    exact ⟨hnone.1, hnone.2.1, hnone.2.2.1, hnone.2.2.2⟩
  · intro h
    simp [h.right, h.feature, h.decision, h.threshold]

theorem childAt?_eq {b : TreeBlock} (hb : b.Sized) {node : Nat} {side : Direction} {child : Int} :
    b.childAt? node side = some child ↔ node < b.numSplits ∧ b.entryAt node side = child := by
  have hr := hb.right
  cases side with
  | left =>
      simp only [childAt?, entryAt, leftAt, Array.getElem?_eq_some_iff, numSplits]
      constructor
      · rintro ⟨h, rfl⟩
        exact ⟨h, by simp [h]⟩
      · rintro ⟨h, rfl⟩
        exact ⟨h, by simp [h]⟩
  | right =>
      simp only [childAt?, entryAt, rightAt, Array.getElem?_eq_some_iff]
      constructor
      · rintro ⟨h, rfl⟩
        exact ⟨hr ▸ h, by simp [h]⟩
      · rintro ⟨h, rfl⟩
        have h' : node < b.rightChild.size := hr ▸ h
        exact ⟨h', by simp [h']⟩

structure ValidEntry (b : TreeBlock) (child : Int) : Prop where
  split : 0 ≤ child → child < b.numSplits
  leaf : child < 0 → -1 - child < b.leafValue.size

theorem childRef_cases (b : TreeBlock) (node : Nat) (child : Int) :
    (∃ i : Nat, child = i ∧ i < b.numSplits ∧ b.childRef node child = .ok (.split i)) ∨
    (∃ i : Nat, child = -1 - (i : Int) ∧ i < b.leafValue.size ∧
      b.childRef node child = .ok (.leaf i)) ∨
    (¬ b.ValidEntry child ∧ b.childRef node child = .error (b.invalidChild node child)) := by
  unfold childRef
  by_cases hsign : 0 ≤ child
  · by_cases hlt : child.toNat < b.numSplits
    · exact .inl ⟨child.toNat, by omega, hlt, by simp [hsign, hlt]⟩
    · refine .inr (.inr ⟨fun hv => ?_, by simp [hsign, hlt]⟩)
      have := hv.split hsign
      omega
  · by_cases hlt : (-1 - child).toNat < b.leafValue.size
    · exact .inr (.inl ⟨(-1 - child).toNat, by omega, hlt, by simp [hsign, hlt]⟩)
    · refine .inr (.inr ⟨fun hv => ?_, by simp [hsign, hlt]⟩)
      have := hv.leaf (by omega)
      omega

theorem childRef_natCast {b : TreeBlock} {node i : Nat} (hi : i < b.numSplits) :
    b.childRef node (i : Int) = .ok (.split i) := by
  simp [childRef, hi]

theorem validEntry_natCast {b : TreeBlock} {i : Nat} (hi : i < b.numSplits) :
    b.ValidEntry (i : Int) :=
  ⟨fun _ => by omega, fun h => by omega⟩

theorem validEntry_leaf {b : TreeBlock} {i : Nat} (hi : i < b.leafValue.size) :
    b.ValidEntry (-1 - (i : Int)) :=
  ⟨fun h => by omega, fun _ => by omega⟩

structure CategoryOffset (b : TreeBlock) (threshold : Float) : Prop where
  nonneg : 0 ≤ threshold
  le_max : threshold ≤ 4294967295
  bounded : b.boundaries.isEmpty = false → ⌊Binary64.toRat threshold⌋₊ < b.boundaries.size ∧
    ⌊Binary64.toRat threshold⌋₊ + 1 < b.boundaries.size

theorem categoryRange_ok {b : TreeBlock} {threshold : Float} :
    (∃ range, b.categoryRange threshold = .ok range) ↔ b.CategoryOffset threshold := by
  have hzero : Binary64.zero = 0 := by decide
  have hmax : maxCategoryOffset = 4294967295 := by decide
  simp only [categoryRange, hzero, hmax, Bool.and_eq_true, decide_eq_true_eq,
    Binary64.truncate_eq_floor]
  by_cases hrange : 0 ≤ threshold ∧ threshold ≤ 4294967295
  · rw [if_pos hrange]
    by_cases hempty : b.boundaries.isEmpty = true
    · rw [if_pos hempty]
      exact ⟨fun _ => ⟨hrange.1, hrange.2, by simp [hempty]⟩, fun _ => ⟨_, rfl⟩⟩
    · rw [if_neg hempty]
      constructor
      · rintro ⟨range, h⟩
        split at h
        · rename_i start stop hstart hstop
          obtain ⟨h1, -⟩ := Array.getElem?_eq_some_iff.mp hstart
          obtain ⟨h2, -⟩ := Array.getElem?_eq_some_iff.mp hstop
          exact ⟨hrange.1, hrange.2, fun _ => ⟨h1, h2⟩⟩
        · simp at h
      · intro h
        obtain ⟨h1, h2⟩ := h.bounded (by simpa using hempty)
        simp [h1, h2]
  · rw [if_neg hrange]
    constructor
    · rintro ⟨range, h⟩
      simp at h
    · intro h
      exact absurd ⟨h.nonneg, h.le_max⟩ hrange

structure SplitFits (b : TreeBlock) (node : Nat) : Prop where
  feature : 0 ≤ b.splitFeature.getD node 0
  category : (DecisionFlags.ofBits (b.decisionType.getD node 0)).categorical = true →
    b.CategoryOffset (b.threshold.getD node Binary64.zero)

theorem buildSplit_ok {b : TreeBlock} {node : Nat} {l r : Node} :
    (∃ n, b.buildSplit node l r = .ok n) ↔ b.SplitFits node := by
  unfold buildSplit
  by_cases hf : b.splitFeature.getD node 0 < 0
  · simp only [hf, if_true]
    constructor
    · rintro ⟨n, h⟩
      simp at h
    · intro h
      have := h.feature
      omega
  · simp only [hf, if_false]
    by_cases hc : (DecisionFlags.ofBits (b.decisionType.getD node 0)).categorical = true
    · simp only [hc, if_true]
      constructor
      · rintro ⟨n, h⟩
        obtain ⟨range, hrange, -⟩ := Outcome.map_ok.mp h
        exact ⟨by omega, fun _ => categoryRange_ok.mp ⟨range, hrange⟩⟩
      · intro h
        obtain ⟨range, hrange⟩ := categoryRange_ok.mpr (h.category hc)
        exact ⟨_, Outcome.map_ok.mpr ⟨range, hrange, rfl⟩⟩
    · simp only [hc]
      exact ⟨fun _ => ⟨by omega, fun h => absurd h hc⟩, fun _ => ⟨_, rfl⟩⟩

theorem buildSplit_children {b : TreeBlock} {node : Nat} {l r n : Node}
    (h : b.buildSplit node l r = .ok n) : ∃ feature test, n = .split feature test l r := by
  unfold buildSplit at h
  dsimp only at h
  split at h
  · simp at h
  · split at h
    · obtain ⟨range, -, rfl⟩ := Outcome.map_ok.mp h
      exact ⟨_, _, rfl⟩
    · cases h
      exact ⟨_, _, rfl⟩

inductive Reachable (b : TreeBlock) : Nat → Prop
  | root : b.Reachable 0
  | child {node : Nat} {side : Direction} {target : Nat} : b.Reachable node →
      b.childAt? node side = some (target : Int) → target < b.numSplits → b.Reachable target

structure IsSplitTree (b : TreeBlock) : Prop where
  sized : b.Sized
  entry_split : ∀ node side child, b.Reachable node → b.childAt? node side = some child →
    0 ≤ child → child < b.numSplits
  entry_leaf : ∀ node side child, b.Reachable node → b.childAt? node side = some child →
    child < 0 → -child - 1 < b.leafValue.size
  root_free : ∀ node side, b.Reachable node → b.childAt? node side ≠ some 0
  entry_unique : ∀ node side node' side' child, b.Reachable node → b.Reachable node' →
    b.childAt? node side = some child → b.childAt? node' side' = some child → 0 ≤ child →
    node = node' ∧ side = side'
  feature_nonneg : ∀ node feature, b.Reachable node → b.splitFeature[node]? = some feature →
    0 ≤ feature
  category : ∀ node bits threshold, b.Reachable node → b.decisionType[node]? = some bits →
    bits % 2 = 1 → b.threshold[node]? = some threshold → b.CategoryOffset threshold

def Grows (b : TreeBlock) : Int → Node → Prop
  | child, .leaf value => child < 0 ∧ b.leafValue[(-1 - child).toNat]? = some value
  | child, .split feature test l r => ∃ node : Nat, child = node ∧ node < b.numSplits ∧
      b.buildSplit node l r = .ok (.split feature test l r) ∧
      b.Grows (b.leftAt node) l ∧ b.Grows (b.rightAt node) r

theorem Grows.ofSplit {b : TreeBlock} {node : Nat} {l r n : Node} (hnode : node < b.numSplits)
    (hbuild : b.buildSplit node l r = .ok n) (hl : b.Grows (b.leftAt node) l)
    (hr : b.Grows (b.rightAt node) r) : b.Grows node n := by
  obtain ⟨feature, test, rfl⟩ := buildSplit_children hbuild
  exact ⟨node, rfl, hnode, hbuild, hl, hr⟩

end BoostedTrees.TreeBlock
