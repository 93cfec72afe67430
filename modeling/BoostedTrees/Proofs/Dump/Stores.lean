import BoostedTrees.Proofs.Assembly.Coverage
import BoostedTrees.Proofs.Dump.Shapes
import BoostedTrees.Proofs.Tree.Splits

namespace BoostedTrees

namespace TreeBlock

variable {b : TreeBlock} {child : Int} {n root : Node} {t : Tree}

def IsCategorical (b : TreeBlock) (node : Nat) : Prop :=
  (DecisionFlags.ofBits (b.decisionType.getD node 0)).categorical = true

def UsesCategories (b : TreeBlock) : Prop :=
  ∃ node < b.numSplits, b.Reachable node ∧ b.IsCategorical node

theorem test_of_buildSplit {node feature : Nat} {test : SplitTest} {l r l' r' : Node}
    (h : b.buildSplit node l r = .ok (.split feature test l' r')) :
    (b.IsCategorical node ∧ ∃ range, test = .categorical range ∧
      b.categoryRange (b.threshold.getD node Binary64.zero) = .ok range) ∨
    (¬b.IsCategorical node ∧ ∃ threshold missing fallback,
      test = .numeric threshold missing fallback) := by
  unfold buildSplit at h
  dsimp only at h
  split at h
  · exact absurd h nofun
  · split at h
    · rename_i hflag
      obtain ⟨range, hrange, hsplit⟩ := Outcome.map_ok.mp h
      obtain ⟨-, rfl, -, -⟩ := Node.split.inj hsplit
      exact .inl ⟨hflag, range, rfl, hrange⟩
    · rename_i hflag
      obtain ⟨-, rfl, -, -⟩ := Node.split.inj (Except.ok.inj h)
      exact .inr ⟨hflag, _, _, _, rfl⟩

theorem isCategorical_of_buildSplit {node feature : Nat} {test : SplitTest} {l r l' r' : Node}
    (h : b.buildSplit node l r = .ok (.split feature test l' r')) :
    (∃ range, test = .categorical range) ↔ b.IsCategorical node := by
  rcases test_of_buildSplit h with ⟨hflag, range, rfl, -⟩ |
    ⟨hflag, threshold, missing, fallback, rfl⟩
  · exact iff_of_true ⟨range, rfl⟩ hflag
  · exact iff_of_false nofun hflag

theorem exists_categorical_iff (h : b.Grows child n) :
    (∃ feature range, n.HasSplit feature (.categorical range)) ↔
      ∃ node ∈ b.splitsUnder child n, b.IsCategorical node := by
  induction n generalizing child with
  | leaf value =>
      exact iff_of_false (fun ⟨_, _, hsplit⟩ => Node.not_hasSplit_leaf hsplit)
        fun ⟨_, hnode, _⟩ => List.not_mem_nil hnode
  | split feature test l r ihl ihr =>
      obtain ⟨node, rfl, -, hbuild, hl, hr⟩ := h
      simp only [Node.hasSplit_split, splitsUnder, Int.toNat_natCast, List.mem_cons,
        List.mem_append, or_and_right, exists_or, exists_eq_left, ← ihl hl, ← ihr hr,
        ← isCategorical_of_buildSplit hbuild]
      refine or_congr_left ⟨?_, ?_⟩
      · rintro ⟨_, range, -, htest⟩
        exact ⟨range, htest.symm⟩
      · rintro ⟨range, htest⟩
        exact ⟨feature, range, rfl, htest.symm⟩

theorem categoryRange_of_hasSplit (h : b.Grows child n) {feature : Nat} {range : CategoryRange}
    (hsplit : n.HasSplit feature (.categorical range)) :
    ∃ threshold, b.categoryRange threshold = .ok range := by
  induction n generalizing child with
  | leaf value => exact absurd hsplit Node.not_hasSplit_leaf
  | split feature' test l r ihl ihr =>
      obtain ⟨node, -, -, hbuild, hl, hr⟩ := h
      obtain ⟨-, rfl⟩ | hsplit | hsplit := Node.hasSplit_split.mp hsplit
      · rcases test_of_buildSplit hbuild with ⟨-, found, htest, hrange⟩ | ⟨-, _, _, _, htest⟩
        · exact ⟨_, SplitTest.categorical.inj htest ▸ hrange⟩
        · exact absurd htest nofun
      · exact ihl hl hsplit
      · exact ihr hr hsplit

theorem stop_pos_of_categoryRange {threshold : Float} {range : CategoryRange}
    (hnone : b.boundaries.isEmpty = true) (h : b.categoryRange threshold = .ok range) :
    0 < range.stop := by
  unfold categoryRange at h
  dsimp only at h
  simp only [hnone, if_true] at h
  split at h
  · obtain rfl := Except.ok.inj h
    dsimp only
    omega
  · exact absurd h nofun

theorem Read.words_of_noSplits (h : b.Read) (hnone : b.numSplits = 0) : b.words = #[] := by
  obtain ⟨index, fs, hfs, h⟩ := h
  obtain ⟨_, _, leaves, leafValue, _, -, -, hleaves, hlist, -, h⟩ := ofFields_ok.mp h
  split at h
  · rw [h.2]
  · have hsplits :=
      (splitShaped_readSplits hfs (DumpField.required_list_pos hfs hleaves hlist) h).splits
    omega

theorem hasCategorical_iff_usesCategories (h : b.toTree = .ok t) :
    t.hasCategorical = true ↔ b.UsesCategories := by
  rw [Tree.hasCategorical_iff]
  obtain ⟨-, ⟨hnone, hroot⟩ | hroot⟩ := toTree_cases h
  · rw [hroot]
    refine iff_of_false (fun ⟨_, _, hsplit⟩ => Node.not_hasSplit_leaf hsplit) ?_
    rintro ⟨node, hnode, -⟩
    omega
  · obtain ⟨-, hgrows, -⟩ := assemble_grows hroot
    rw [exists_categorical_iff hgrows]
    constructor
    · rintro ⟨node, hmem, hflag⟩
      obtain ⟨hreach, hlt⟩ := mem_splitsUnder_root hroot hmem
      exact ⟨node, hlt, hreach, hflag⟩
    · rintro ⟨node, -, hreach, hflag⟩
      have hcount := count_of_reachable hroot hreach
      exact ⟨node, List.count_pos_iff.mp (by omega), hflag⟩

theorem stop_pos_of_hasSplit (h : b.toTree = .ok t) (hnone : b.boundaries.isEmpty = true)
    {feature : Nat} {range : CategoryRange}
    (hsplit : t.root.HasSplit feature (.categorical range)) : 0 < range.stop := by
  obtain ⟨-, ⟨-, hroot⟩ | hroot⟩ := toTree_cases h
  · exact absurd (hroot ▸ hsplit) Node.not_hasSplit_leaf
  · obtain ⟨-, hgrows, -⟩ := assemble_grows hroot
    obtain ⟨threshold, hrange⟩ := categoryRange_of_hasSplit hgrows hsplit
    exact stop_pos_of_categoryRange hnone hrange

end TreeBlock

namespace Tree

variable {t : Tree} {range : CategoryRange}

theorem range_of_isEmpty (hempty : t.categories.isEmpty = true) (h : t.categories.Inside range) :
    range = ⟨0, 0⟩ := by
  obtain ⟨start, stop⟩ := range
  have hlength : t.categories.length = 0 := Array.isEmpty_iff_size_eq_zero.mp hempty
  obtain ⟨hle, hstop⟩ := h
  rw [CategoryRange.mk.injEq]
  dsimp only at hle hstop
  omega

theorem direction_of_noWords (store : CategorySet) (value : Float) :
    (SplitTest.categorical ⟨0, 0⟩).direction store value = .right := by
  have hnone : (store.slice ⟨0, 0⟩).words = #[] := by
    rw [CategorySet.slice]
    simp
  rw [SplitTest.direction, categoricalDirection]
  cases category? value with
  | none => rfl
  | some category =>
      rw [if_neg]
      simp [CategorySet.contains, hnone]

end Tree

theorem Node.eval_store {n : Node}
    (hnone : ∀ feature range, ¬ n.HasSplit feature (.categorical range))
    (store store' : CategorySet) (row : Row) : n.eval store row = n.eval store' row := by
  induction n with
  | leaf value => rfl
  | split feature test l r ihl ihr =>
      have htest : test.direction store (row.feature feature) =
          test.direction store' (row.feature feature) := by
        cases test with
        | numeric threshold missing fallback => rfl
        | categorical range => exact absurd .here (hnone feature range)
      rw [Node.eval, Node.eval, htest, ihl fun f range h => hnone f range (.left h),
        ihr fun f range h => hnone f range (.right h)]

def Tree.StoreMatches (t : Tree) : Prop := t.categories.isEmpty = false ↔ t.hasCategorical = true

instance (t : Tree) : Decidable t.StoreMatches :=
  inferInstanceAs (Decidable (t.categories.isEmpty = false ↔ t.hasCategorical = true))

structure StoreOrigin (b : TreeBlock) (t : Tree) : Prop where
  words : t.categories = ⟨b.words⟩
  categorical : t.hasCategorical = true ↔ b.UsesCategories
  matched : t.StoreMatches ↔ (b.words.isEmpty = false ↔ b.UsesCategories)
  inside : ∀ feature range, t.root.HasSplit feature (.categorical range) →
    t.categories.Inside range
  unread : t.hasCategorical = false → ∀ store row, t.root.eval store row = t.eval row
  wordless : t.categories.isEmpty = true →
    ∀ feature range, t.root.HasSplit feature (.categorical range) →
      range = ⟨0, 0⟩ ∧
        ∀ value, (SplitTest.categorical range).direction t.categories value = .right
  unbounded : b.boundaries.isEmpty = true → t.hasCategorical = true →
    t.categories.isEmpty = false
  leaf : b.numSplits = 0 → t.categories.isEmpty = true ∧ t.hasCategorical = false

namespace StoreOrigin

variable {b : TreeBlock} {t : Tree}

theorem of_toTree (hread : b.Read) (h : b.toTree = .ok t) (hinside : t.rangeOutside? = none) :
    StoreOrigin b t := by
  have hwords := (TreeBlock.toTree_cases h).1
  have hcategorical := TreeBlock.hasCategorical_iff_usesCategories h
  have hranges := Tree.rangeOutside?_eq_none_iff.mp hinside
  refine
    { words := hwords
      categorical := hcategorical
      matched := by rw [Tree.StoreMatches, hcategorical, hwords, CategorySet.isEmpty]
      inside := hranges
      unread := fun hnone store row => ?_
      wordless := fun hempty feature range hsplit => ?_
      unbounded := fun hnone hused => ?_
      leaf := fun hnone => ?_ }
  · refine Node.eval_store (fun feature range hsplit => ?_) store t.categories row
    rw [Tree.hasCategorical_iff.mpr ⟨feature, range, hsplit⟩] at hnone
    exact Bool.noConfusion hnone
  · obtain rfl := Tree.range_of_isEmpty hempty (hranges feature range hsplit)
    exact ⟨rfl, Tree.direction_of_noWords t.categories⟩
  · obtain ⟨feature, range, hsplit⟩ := Tree.hasCategorical_iff.mp hused
    have hstop := TreeBlock.stop_pos_of_hasSplit h hnone hsplit
    rw [Bool.eq_false_iff]
    intro hempty
    obtain rfl := Tree.range_of_isEmpty hempty (hranges feature range hsplit)
    exact absurd hstop (Nat.lt_irrefl 0)
  · constructor
    · rw [hwords, hread.words_of_noSplits hnone]
      rfl
    · rw [← Bool.not_eq_true, hcategorical]
      rintro ⟨node, hnode, -⟩
      omega

end StoreOrigin

namespace Ensemble

theorem ofLines_stores (ls : List String) (e : Ensemble) (h : ofLines ls = .ok e) :
    ∃ d, Dump.ofLines ls = .ok d ∧ List.Forall₂ StoreOrigin d.trees.toList e.trees := by
  obtain ⟨d, hd, htrees⟩ := ofLines_ok h
  exact ⟨d, hd, htrees.imp fun _ _ ⟨hread, htree, hinside⟩ => .of_toTree hread htree hinside⟩

theorem leafAndSplits_stores :
    ∃ e d, ofLines leafAndSplits = .ok e ∧ Dump.ofLines leafAndSplits = .ok d ∧
      List.Forall₂ (fun (b : TreeBlock) (t : Tree) => t.categories = ⟨b.words⟩ ∧
        (t.hasCategorical = true ↔ b.UsesCategories)) d.trees.toList e.trees := by
  obtain ⟨e, he⟩ := Outcome.exists_ok (x := ofLines leafAndSplits) (by decide +kernel)
  obtain ⟨d, hd, htrees⟩ := ofLines_stores leafAndSplits e he
  exact ⟨e, d, he, hd, htrees.imp fun _ _ h => ⟨h.words, h.categorical⟩⟩

theorem exists_store {ls : List String} {empty categorical : Bool}
    (h : (ofLines ls).map (fun e => e.trees.map fun t => (t.categories.isEmpty, t.hasCategorical)) =
      .ok [(empty, categorical)]) :
    ∃ e t, ofLines ls = .ok e ∧ e.trees = [t] ∧ t.categories.isEmpty = empty ∧
      t.hasCategorical = categorical := by
  obtain ⟨e, he, htrees⟩ := Outcome.map_ok.mp h
  obtain ⟨t, ht, hflags⟩ := List.map_eq_singleton_iff.mp htrees
  exact ⟨e, t, he, ht, Prod.mk.inj hflags⟩

def unreadWordLines : List String :=
  ["tree", "num_class=1", "num_tree_per_iteration=1", "max_feature_idx=0", "objective=regression",
    "", "Tree=0", "num_leaves=2", "split_feature=0", "threshold=0.5", "decision_type=2",
    "left_child=-1", "right_child=-2", "leaf_value=1 2", "cat_threshold=5"]

def wordlessSplitLines : List String :=
  ["tree", "num_class=1", "num_tree_per_iteration=1", "max_feature_idx=0", "objective=regression",
    "", "Tree=0", "num_leaves=2", "num_cat=1", "split_feature=0", "threshold=0", "decision_type=1",
    "left_child=-1", "right_child=-2", "leaf_value=1 2", "cat_boundaries=0 0"]

theorem unmatchedStores_accepted :
    (∃ e t, ofLines unreadWordLines = .ok e ∧ e.trees = [t] ∧ t.categories.isEmpty = false ∧
      t.hasCategorical = false ∧ ¬ t.StoreMatches) ∧
    ∃ e t, ofLines wordlessSplitLines = .ok e ∧ e.trees = [t] ∧ t.categories.isEmpty = true ∧
      t.hasCategorical = true ∧ ¬ t.StoreMatches := by
  constructor
  · have hread : (ofLines unreadWordLines).map (fun e =>
        e.trees.map fun t => (t.categories.isEmpty, t.hasCategorical)) = .ok [(false, false)] := by
      decide +kernel
    obtain ⟨e, t, he, ht, hstore, hsplits⟩ := exists_store hread
    exact ⟨e, t, he, ht, hstore, hsplits, by simp [Tree.StoreMatches, hstore, hsplits]⟩
  · have hread : (ofLines wordlessSplitLines).map (fun e =>
        e.trees.map fun t => (t.categories.isEmpty, t.hasCategorical)) = .ok [(true, true)] := by
      decide +kernel
    obtain ⟨e, t, he, ht, hstore, hsplits⟩ := exists_store hread
    exact ⟨e, t, he, ht, hstore, hsplits, by simp [Tree.StoreMatches, hstore, hsplits]⟩

end Ensemble

end BoostedTrees
