import BoostedTrees.Proofs.Assembly.Bounds
import BoostedTrees.Proofs.Dump.Walk
import Mathlib.Algebra.GroupWithZero.Nat
import Mathlib.Data.List.Nodup
import Mathlib.Data.List.Perm.Subperm

namespace BoostedTrees

namespace Node

def numSplits : Node → Nat
  | .leaf _ => 0
  | .split _ _ l r => 1 + l.numSplits + r.numSplits

def numLeaves : Node → Nat
  | .leaf _ => 1
  | .split _ _ l r => l.numLeaves + r.numLeaves

theorem numLeaves_eq (n : Node) : n.numLeaves = n.numSplits + 1 := by
  induction n with
  | leaf value => rfl
  | split feature test l r ihl ihr =>
      rw [numLeaves, numSplits]
      omega

theorem size_eq_numSplits (n : Node) : n.size = 2 * n.numSplits + 1 := by
  induction n with
  | leaf value => rfl
  | split feature test l r ihl ihr =>
      rw [size, numSplits]
      omega

end Node

namespace TreeBlock

variable {b : TreeBlock} {node target : Nat} {child : Int} {n root : Node}

def splitsUnder (b : TreeBlock) (child : Int) : Node → List Nat
  | .leaf _ => []
  | .split _ _ l r => child.toNat ::
      (b.splitsUnder (b.leftAt child.toNat) l ++ b.splitsUnder (b.rightAt child.toNat) r)

theorem length_splitsUnder (b : TreeBlock) (child : Int) (n : Node) :
    (b.splitsUnder child n).length = n.numSplits := by
  induction n generalizing child with
  | leaf value => rfl
  | split feature test l r ihl ihr =>
      rw [splitsUnder, List.length_cons, List.length_append, ihl, ihr, Node.numSplits]
      omega

def leadsTo (child : Int) (target : Nat) : Nat := if child = target then 1 else 0

def links (b : TreeBlock) (node target : Nat) : Nat :=
  leadsTo (b.entryAt node .left) target + leadsTo (b.entryAt node .right) target

theorem sum_indicator (node : Nat) (xs : List Nat) :
    (xs.map fun other => if other = node then 1 else 0).sum = xs.count node := by
  induction xs with
  | nil => rfl
  | cons x xs ih =>
      rw [List.map_cons, List.sum_cons, ih, List.count_cons]
      by_cases hx : x = node <;> simp [hx, Nat.add_comm]

theorem count_splitsUnder (hgrows : b.Grows child n) (target : Nat) :
    (b.splitsUnder child n).count target =
      leadsTo child target + ((b.splitsUnder child n).map fun node => b.links node target).sum := by
  induction n generalizing child with
  | leaf value =>
      have hne : child ≠ target := by
        have := hgrows.1
        omega
      rw [splitsUnder, leadsTo, if_neg hne]
      rfl
  | split feature test l r ihl ihr =>
      obtain ⟨node, rfl, -, -, hl, hr⟩ := hgrows
      have htop : (if node == target then 1 else 0) = leadsTo (node : Int) target := by
        simp only [leadsTo, beq_iff_eq, Int.natCast_inj]
      rw [splitsUnder, Int.toNat_natCast, List.count_cons, List.count_append, ihl hl, ihr hr, htop,
        List.map_cons, List.sum_cons, List.map_append, List.sum_append, links, entryAt, entryAt]
      omega

theorem lt_of_mem_splitsUnder (hgrows : b.Grows child n) (hmem : target ∈ b.splitsUnder child n) :
    target < b.numSplits := by
  induction n generalizing child with
  | leaf value => exact absurd hmem List.not_mem_nil
  | split feature test l r ihl ihr =>
      obtain ⟨node, rfl, hnode, -, hl, hr⟩ := hgrows
      rw [splitsUnder, Int.toNat_natCast, List.mem_cons, List.mem_append] at hmem
      rcases hmem with rfl | hmem | hmem
      · exact hnode
      · exact ihl hl hmem
      · exact ihr hr hmem

theorem reachable_of_mem_splitsUnder (hb : b.Sized) (hgrows : b.Grows child n)
    (htop : ∀ node : Nat, child = node → b.Reachable node)
    (hmem : target ∈ b.splitsUnder child n) : b.Reachable target := by
  induction n generalizing child with
  | leaf value => exact absurd hmem List.not_mem_nil
  | split feature test l r ihl ihr =>
      obtain ⟨node, rfl, hnode, -, hl, hr⟩ := hgrows
      have hreach : b.Reachable node := htop node rfl
      -- an entry of the split that leads to a split leads to one of the block
      have hside : ∀ side n, b.Grows (b.entryAt node side) n → n.numSplits ≠ 0 →
          ∀ next : Nat, b.entryAt node side = next → b.Reachable next := by
        intro side n hn hsplits next hnext
        have hchild : b.childAt? node side = some (next : Int) :=
          (childAt?_eq hb).mpr ⟨hnode, hnext⟩
        cases n with
        | leaf value => exact absurd rfl hsplits
        | split feature test l r =>
            obtain ⟨found, hfound, hlt, -⟩ := hn
            exact .child hreach hchild (by omega)
      have hsome : ∀ {entry n}, target ∈ b.splitsUnder entry n → n.numSplits ≠ 0 := by
        intro entry n hn
        rw [← b.length_splitsUnder entry]
        exact Nat.ne_of_gt (List.length_pos_of_mem hn)
      rw [splitsUnder, Int.toNat_natCast, List.mem_cons, List.mem_append] at hmem
      rcases hmem with rfl | hmem | hmem
      · exact hreach
      · exact ihl hl (hside .left l hl (hsome hmem)) hmem
      · exact ihr hr (hside .right r hr (hsome hmem)) hmem

theorem IsSplitTree.links_eq (ht : b.IsSplitTree) {side : Direction} (hnode : b.Reachable node)
    (hchild : b.childAt? node side = some (target : Int)) {other : Nat} (hother : b.Reachable other)
    (hlt : other < b.numSplits) : b.links other target = if other = node then 1 else 0 := by
  have hentry : ∀ side', b.entryAt other side' = target → other = node ∧ side' = side := by
    intro side' hside'
    have hchild' : b.childAt? other side' = some (target : Int) :=
      (childAt?_eq ht.sized).mpr ⟨hlt, hside'⟩
    exact ht.entry_unique other side' node side target hother hnode hchild' hchild (by omega)
  by_cases hsame : other = node
  · subst hsame
    obtain ⟨-, hthere⟩ := (childAt?_eq ht.sized).mp hchild
    rw [if_pos rfl, links, leadsTo, leadsTo]
    cases side with
    | left =>
        have hright : b.entryAt other .right ≠ target := fun h => by simpa using (hentry .right h).2
        rw [if_pos hthere, if_neg hright]
    | right =>
        have hleft : b.entryAt other .left ≠ target := fun h => by simpa using (hentry .left h).2
        rw [if_neg hleft, if_pos hthere]
  · have hleft : b.entryAt other .left ≠ target := fun h => hsame (hentry .left h).1
    have hright : b.entryAt other .right ≠ target := fun h => hsame (hentry .right h).1
    rw [if_neg hsame, links, leadsTo, leadsTo, if_neg hleft, if_neg hright]

theorem IsSplitTree.links_root (ht : b.IsSplitTree) (hnode : b.Reachable node)
    (hlt : node < b.numSplits) : b.links node 0 = 0 := by
  have hentry : ∀ side, b.entryAt node side ≠ ((0 : Nat) : Int) := fun side hside =>
    ht.root_free node side hnode ((childAt?_eq ht.sized).mpr ⟨hlt, hside⟩)
  rw [links, leadsTo, leadsTo, if_neg (hentry .left), if_neg (hentry .right)]

theorem mem_splitsUnder_root (h : b.assemble = .ok root) (hmem : node ∈ b.splitsUnder 0 root) :
    b.Reachable node ∧ node < b.numSplits := by
  obtain ⟨hb, hgrows, -⟩ := assemble_grows h
  refine ⟨reachable_of_mem_splitsUnder hb hgrows (fun top htop => ?_) hmem,
    lt_of_mem_splitsUnder hgrows hmem⟩
  obtain rfl : top = 0 := by omega
  exact .root

theorem count_of_reachable (h : b.assemble = .ok root) (hreach : b.Reachable target) :
    (b.splitsUnder 0 root).count target = 1 := by
  have ht := isSplitTree_of_assemble h
  obtain ⟨-, hgrows, -⟩ := assemble_grows h
  induction hreach with
  | root =>
      have hlinks : (b.splitsUnder 0 root).map (fun node => b.links node 0) =
          (b.splitsUnder 0 root).map fun _ => 0 :=
        List.map_congr_left fun node hmem =>
          have ⟨hnode, hlt⟩ := mem_splitsUnder_root h hmem
          ht.links_root hnode hlt
      rw [count_splitsUnder hgrows, hlinks]
      simp [leadsTo]
  | @child node side target hnode hchild hlt ih =>
      -- of the splits that occur only `node` has an entry to the target, and it occurs once
      have hroot : leadsTo 0 target = 0 := by
        refine if_neg fun hzero => ht.root_free node side hnode ?_
        rw [hchild, ← hzero]
      have hlinks : (b.splitsUnder 0 root).map (fun other => b.links other target) =
          (b.splitsUnder 0 root).map fun other => if other = node then 1 else 0 :=
        List.map_congr_left fun other hmem =>
          have ⟨hother, hlt⟩ := mem_splitsUnder_root h hmem
          ht.links_eq hnode hchild hother hlt
      rw [count_splitsUnder hgrows, hroot, hlinks, sum_indicator, ih]

theorem nodup_splitsUnder (h : b.assemble = .ok root) : (b.splitsUnder 0 root).Nodup :=
  List.nodup_iff_count_eq_one.mpr fun _ hmem => count_of_reachable h (mem_splitsUnder_root h hmem).1

theorem splitsUnder_subperm (h : b.assemble = .ok root) :
    (b.splitsUnder 0 root).Subperm (List.range b.numSplits) :=
  (nodup_splitsUnder h).subperm fun _ hmem => List.mem_range.mpr (mem_splitsUnder_root h hmem).2

theorem numSplits_eq_iff (h : b.assemble = .ok root) :
    root.numSplits = b.numSplits ↔ ∀ node < b.numSplits, b.Reachable node := by
  have hsub := splitsUnder_subperm h
  rw [← b.length_splitsUnder 0 root]
  constructor
  · intro hlength node hnode
    have hperm := hsub.perm_of_length_le (by rw [List.length_range, hlength])
    exact (mem_splitsUnder_root h (hperm.mem_iff.mpr (List.mem_range.mpr hnode))).1
  · intro hall
    have hrange : (List.range b.numSplits).Subperm (b.splitsUnder 0 root) := by
      refine List.nodup_range.subperm fun node hnode => ?_
      have hcount := count_of_reachable h (hall node (List.mem_range.mp hnode))
      exact List.count_pos_iff.mp (by omega)
    have hle := hsub.length_le
    have hge := hrange.length_le
    rw [List.length_range] at hle hge
    omega

theorem assemble_covers (b : TreeBlock) (root : Node) (h : b.assemble = .ok root) :
    b.Grows 0 root ∧ (b.splitsUnder 0 root).length = root.numSplits ∧
    (∀ node, b.Reachable node → (b.splitsUnder 0 root).count node = 1) ∧
    (∀ node ∈ b.splitsUnder 0 root, b.Reachable node ∧ node < b.numSplits) ∧
    root.numLeaves = root.numSplits + 1 ∧ root.size = 2 * root.numSplits + 1 ∧
    ((∀ node < b.numSplits, b.Reachable node) ↔
      root.numSplits = b.numSplits ∧ root.numLeaves = b.numSplits + 1 ∧
        root.size = 2 * b.numSplits + 1) := by
  obtain ⟨-, hgrows, -⟩ := assemble_grows h
  have hleaves := root.numLeaves_eq
  have hsize := root.size_eq_numSplits
  refine ⟨hgrows, b.length_splitsUnder 0 root, fun _ => count_of_reachable h,
    fun _ => mem_splitsUnder_root h, hleaves, hsize, ?_⟩
  rw [← numSplits_eq_iff h]
  constructor
  · intro hsplits
    exact ⟨hsplits, hsplits ▸ hleaves, hsplits ▸ hsize⟩
  · rintro ⟨hsplits, -, -⟩
    exact hsplits

theorem twoSplits_covered :
    ∃ root, twoSplits.assemble = .ok root ∧ (twoSplits.splitsUnder 0 root).count 1 = 1 ∧
      root.numSplits = 2 ∧ root.numLeaves = 3 ∧ root.size = 5 := by
  obtain ⟨root, hroot⟩ := Outcome.exists_ok (x := twoSplits.assemble) (by decide +kernel)
  obtain ⟨-, -, honce, -, -, -, hall⟩ := assemble_covers twoSplits root hroot
  have hentry : twoSplits.childAt? 0 .left = some ((1 : Nat) : Int) := by decide
  have hsecond : twoSplits.Reachable 1 := .child .root hentry (by decide)
  refine ⟨root, hroot, honce 1 hsecond, hall.mp fun node hnode => ?_⟩
  have hsplits : twoSplits.numSplits = 2 := rfl
  obtain rfl | rfl : node = 0 ∨ node = 1 := by omega
  · exact .root
  · exact hsecond

def idleSplitLines : List String :=
  ["tree", "num_class=1", "num_tree_per_iteration=1", "max_feature_idx=1", "objective=regression",
    "", "Tree=0", "num_leaves=3", "split_feature=0 1", "threshold=0.5 1.5", "decision_type=2 2",
    "left_child=-1 -2", "right_child=-2 -3", "leaf_value=1 2 3"]

theorem idleSplit_ignored :
    ∃ d e b t, Dump.ofLines idleSplitLines = .ok d ∧ Ensemble.ofLines idleSplitLines = .ok e ∧
      d.trees.toList = [b] ∧ e.trees = [t] ∧ b.assemble = .ok t.root ∧ b.numSplits = 2 ∧
      ¬ b.Reachable 1 ∧ t.root.numSplits = 1 ∧ t.root.numLeaves = 2 ∧ t.root.size = 3 := by
  obtain ⟨e, he⟩ := Outcome.exists_ok (x := Ensemble.ofLines idleSplitLines) (by decide +kernel)
  obtain ⟨d, hd, htrees⟩ := Ensemble.ofLines_ok he
  have hentries : (Dump.ofLines idleSplitLines).map
      (fun d => d.trees.toList.map fun b => (b.leftChild, b.rightChild)) =
        .ok [(#[-1, -2], #[-2, -3])] := by decide +kernel
  rw [hd] at hentries
  obtain ⟨b, hblocks, hb⟩ := List.map_eq_singleton_iff.mp (Except.ok.inj hentries)
  obtain ⟨hleft, hright⟩ := Prod.mk.inj hb
  rw [hblocks] at htrees
  obtain ⟨t, rest, ⟨-, htree, -⟩, hrest, htrees⟩ := List.forall₂_cons_left_iff.mp htrees
  obtain rfl := List.forall₂_nil_left_iff.mp hrest
  have hsplits : b.numSplits = 2 := by rw [numSplits, hleft]; rfl
  rw [toTree_of_splits (by omega)] at htree
  obtain ⟨root, hroot, rfl⟩ := Outcome.map_ok.mp htree
  have honly : ∀ node, b.Reachable node → node = 0 := by
    intro node hnode
    induction hnode with
    | root => rfl
    | @child node side target _ hchild _ ih =>
        subst ih
        cases side <;> simp [childAt?, hleft, hright] at hchild
  have hcount := count_of_reachable hroot .root
  have hzero : b.splitsUnder 0 root = List.replicate (b.splitsUnder 0 root).length 0 :=
    List.eq_replicate_of_mem fun node hmem => honly node (mem_splitsUnder_root hroot hmem).1
  have hone : root.numSplits = 1 := by
    rw [← b.length_splitsUnder 0 root]
    rwa [hzero, List.count_replicate_self] at hcount
  exact ⟨d, e, b, _, hd, he, hblocks, htrees, hroot, hsplits,
    fun h => Nat.one_ne_zero (honly 1 h), hone, by rw [root.numLeaves_eq, hone],
    by rw [root.size_eq_numSplits, hone]⟩

end TreeBlock

end BoostedTrees
