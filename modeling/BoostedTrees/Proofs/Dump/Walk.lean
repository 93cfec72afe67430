import BoostedTrees.Proofs.Dump.Header
import BoostedTrees.Proofs.Dump.Sides

namespace BoostedTrees

namespace TreeBlock

variable {b : TreeBlock} {node : Nat}

def walkFrom? (b : TreeBlock) (row : Row) : Nat → Nat → Option Float
  | 0, _ => none
  | steps + 1, node => do
      let child ← b.childAt? node (← b.directionAt? row node)
      if 0 ≤ child then b.walkFrom? row steps child.toNat else b.leafValue[(-1 - child).toNat]?

-- of no more steps than there are splits
def walk? (b : TreeBlock) (row : Row) : Option Float :=
  if b.leftChild.size = 0 then b.leafValue[0]? else b.walkFrom? row b.leftChild.size 0

def entryValue? (b : TreeBlock) (row : Row) (steps : Nat) (child : Int) : Option Float :=
  if 0 ≤ child then b.walkFrom? row steps child.toNat else b.leafValue[(-1 - child).toNat]?

theorem walkFrom?_succ (hb : b.Sized) (hnode : node < b.numSplits) (row : Row) (steps : Nat) :
    b.walkFrom? row (steps + 1) node =
      (b.directionAt? row node).bind fun side => b.entryValue? row steps (b.entryAt node side) := by
  have hchild : ∀ side, b.childAt? node side = some (b.entryAt node side) :=
    fun side => (childAt?_eq hb).mpr ⟨hnode, rfl⟩
  rw [walkFrom?]
  cases b.directionAt? row node with
  | none => rfl
  | some side =>
      simp only [Option.bind_eq_bind, Option.bind_some, hchild, entryValue?]

theorem entryValue?_of_grows (hb : b.Sized) (row : Row) {n : Node} {steps : Nat} {child : Int}
    (hgrows : b.Grows child n) (hsteps : n.height ≤ steps) :
    b.entryValue? row steps child = n.eval? ⟨b.words⟩ row := by
  induction n generalizing child steps with
  | leaf value =>
      obtain ⟨hneg, hvalue⟩ := hgrows
      rw [entryValue?, if_neg (by omega), hvalue]
      rfl
  | split feature test l r ihl ihr =>
      obtain ⟨node, rfl, hnode, hbuild, hl, hr⟩ := hgrows
      rw [Node.height] at hsteps
      obtain ⟨steps, rfl⟩ : ∃ k, steps = k + 1 := ⟨steps - 1, by omega⟩
      have hleft : b.entryValue? row steps _ = _ := ihl hl (by omega)
      have hright : b.entryValue? row steps _ = _ := ihr hr (by omega)
      rw [entryValue?, if_pos (by omega), Int.toNat_natCast, walkFrom?_succ hb hnode,
        directionAt?_of_buildSplit hb hnode hbuild, Node.eval?]
      congr 1
      funext side
      cases side with
      | left => exact hleft
      | right =>
          rw [if_neg (by simp)]
          exact hright

theorem toTree_cases {t : Tree} (h : b.toTree = .ok t) :
    t.categories = ⟨b.words⟩ ∧
      (b.numSplits = 0 ∧ t.root = .leaf (b.leafValue.getD 0 Binary64.zero) ∨
        b.assemble = .ok t.root) := by
  unfold toTree at h
  split at h
  · rename_i hleaf
    obtain rfl := Except.ok.inj h
    have hnone := (Bool.and_eq_true_iff.mp hleaf).1
    exact ⟨rfl, .inl ⟨Array.isEmpty_iff_size_eq_zero.mp hnone, rfl⟩⟩
  · obtain ⟨root, hroot, rfl⟩ := Outcome.map_ok.mp h
    exact ⟨rfl, .inr hroot⟩

theorem index_toTree {t : Tree} (h : b.toTree = .ok t) : t.index = b.index := by
  unfold toTree at h
  split at h
  · exact (congrArg Tree.index (Except.ok.inj h)).symm
  · obtain ⟨root, -, hroot⟩ := Outcome.map_ok.mp h
    exact (congrArg Tree.index hroot).symm

theorem walk?_eq_eval? {t : Tree} (h : b.toTree = .ok t) (hleaf : 0 < b.leafValue.size)
    (row : Row) : b.walk? row = t.eval? row := by
  obtain ⟨hwords, ⟨hnone, hroot⟩ | hroot⟩ := toTree_cases h
  · have hempty : b.leftChild.size = 0 := hnone
    rw [walk?, if_pos hempty, Tree.eval?, hroot]
    simp [Node.eval?, hleaf]
  · obtain ⟨hpos, -, -⟩ := assemble_ok.mp hroot
    have hsplits : b.leftChild.size ≠ 0 := Nat.pos_iff_ne_zero.mp hpos
    obtain ⟨hb, hgrows, hheight⟩ := assemble_grows hroot
    have hvalue := entryValue?_of_grows hb row hgrows hheight
    rw [entryValue?, if_pos (Int.le_refl 0)] at hvalue
    rw [walk?, if_neg hsplits, Tree.eval?, hwords]
    exact hvalue

end TreeBlock

namespace Ensemble

theorem ofLines_ok {ls : List String} {e : Ensemble} (h : ofLines ls = .ok e) :
    ∃ d, Dump.ofLines ls = .ok d ∧
      List.Forall₂ (fun (b : TreeBlock) t => b.Read ∧ b.toTree = .ok t ∧ t.rangeOutside? = none)
        d.trees.toList e.trees := by
  obtain ⟨d, hd, h⟩ := Outcome.bind_ok.mp h
  have hd := Outcome.mapError_ok.mp hd
  obtain ⟨header, trees, -, -, htrees, hdraft⟩ := Dump.toEnsemble_ok.mp h
  have hbuilt : List.Forall₂ (fun (b : TreeBlock) t => b.toTree = .ok t)
      d.trees.toList e.trees := by
    rw [ofDraft_ok hdraft]
    exact Outcome.mapM_ok.mp htrees
  refine ⟨d, hd, ?_⟩
  rw [List.forall₂_iff_get] at hbuilt ⊢
  obtain ⟨hlength, hbuilt⟩ := hbuilt
  refine ⟨hlength, fun i hi hi' => ⟨?_, hbuilt i hi hi', ?_⟩⟩
  · exact Dump.trees_read hd _ (Array.mem_toList_iff.mp (List.get_mem d.trees.toList ⟨i, hi⟩))
  · exact e.rangeOutside?_eq_none (List.get_mem e.trees ⟨i, hi'⟩)

theorem ofLines_walk {ls : List String} {e : Ensemble} (h : ofLines ls = .ok e) :
    ∃ d, Dump.ofLines ls = .ok d ∧ List.Forall₂ (fun (b : TreeBlock) (t : Tree) =>
      b.toTree = .ok t ∧ t.index = b.index ∧
        ∀ row : Row, b.walk? row = some (t.eval row) ∧ t.eval? row = some (t.eval row))
      d.trees.toList e.trees := by
  obtain ⟨d, hd, htrees⟩ := ofLines_ok h
  refine ⟨d, hd, htrees.imp ?_⟩
  rintro b t ⟨hread, htree, hinside⟩
  have heval := Tree.eval?_eq_eval hinside
  refine ⟨htree, TreeBlock.index_toTree htree, fun row => ⟨?_, heval row⟩⟩
  rw [TreeBlock.walk?_eq_eval? htree hread.leafValue_pos row, heval row]

def leafAndSplits : List String :=
  ["tree", "num_class=1", "num_tree_per_iteration=1", "max_feature_idx=1", "objective=regression",
    "", "Tree=0", "num_leaves=3", "num_cat=1", "split_feature=0 1", "threshold=0.5 0",
    "decision_type=2 1", "left_child=1 -1", "right_child=-3 -2", "leaf_value=1 2 3",
    "cat_boundaries=0 1", "cat_threshold=5", "", "Tree=1", "num_leaves=1", "leaf_value=7"]

theorem ofLines_walk_leafAndSplits :
    ∃ e d, ofLines leafAndSplits = .ok e ∧ Dump.ofLines leafAndSplits = .ok d ∧
      List.Forall₂ (fun (b : TreeBlock) (t : Tree) => b.walk? #[0, 2] = some (t.eval #[0, 2]))
        d.trees.toList e.trees := by
  obtain ⟨e, he⟩ := Outcome.exists_ok (x := ofLines leafAndSplits) (by decide +kernel)
  obtain ⟨d, hd, htrees⟩ := ofLines_walk he
  exact ⟨e, d, he, hd, htrees.imp fun _ _ h => (h.2.2 _).1⟩

end Ensemble

end BoostedTrees
