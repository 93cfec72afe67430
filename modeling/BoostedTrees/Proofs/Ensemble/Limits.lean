import BoostedTrees.Proofs.Ensemble.Executors
import Mathlib.Algebra.GroupWithZero.Nat

namespace BoostedTrees

theorem CompiledNode.nesting_ofTest (store : CategorySet) (feature : Nat) (test : SplitTest)
    (l r : CompiledNode) :
    (ofTest store feature test l r).nesting = 1 + max l.nesting r.nesting := by
  cases test with
  | categorical range => rfl
  | numeric threshold missing fallback => cases missing <;> cases fallback <;> rfl

theorem CompiledNode.nesting_ofNode (store : CategorySet) (n : Node) :
    (ofNode store n).nesting = n.height := by
  induction n with
  | leaf value => rfl
  | split feature test l r ihl ihr => rw [ofNode, nesting_ofTest, ihl, ihr, Node.height]

namespace Tree

variable {t : Tree} {limits : CompileLimits}

theorem compile_ok {node : CompiledNode} :
    t.compile limits = .ok node ↔
      t.root.height ≤ limits.maxDepth ∧ node = .ofNode t.categories t.root := by
  rw [compile, depth, Node.depth_eq_height]
  by_cases hdepth : limits.maxDepth < t.root.height
  · simp [hdepth, Nat.not_le.mpr hdepth]
  · simp [hdepth, Nat.not_lt.mp hdepth, eq_comm]

theorem compile_error {reason : CompileError} :
    t.compile limits = .error reason ↔ limits.maxDepth < t.root.height ∧
      reason = .tooDeep t.index t.root.height limits.maxDepth := by
  rw [compile, depth, Node.depth_eq_height]
  by_cases hdepth : limits.maxDepth < t.root.height
  · simp [hdepth, eq_comm]
  · simp [hdepth]

theorem exists_compile : (∃ node, t.compile limits = .ok node) ↔
    t.root.height ≤ limits.maxDepth := by
  simp [compile_ok]

end Tree

namespace Ensemble

theorem numNodes_eq (e : Ensemble) : e.numNodes = (e.trees.map fun t => t.root.size).sum := by
  rw [numNodes]
  induction e.trees with
  | nil => rfl
  | cons t ts ih =>
      rw [List.foldr_cons, ih, List.map_cons, List.sum_cons, Tree.numNodes, Node.numNodes_eq_size]

theorem exists_compile {e : Ensemble} {limits : CompileLimits} :
    (∃ x, e.compile limits = .ok x) ↔
      (e.trees.map fun t => t.root.size).sum ≤ limits.maxNodes ∧
        ∀ t ∈ e.trees, t.root.height ≤ limits.maxDepth := by
  simp only [compile_ok, Tree.compile_ok, numNodes_eq]
  constructor
  · rintro ⟨x, hnodes, nodes, -, hcompile⟩
    refine ⟨hnodes, fun t ht => ?_⟩
    obtain ⟨i, hi, rfl⟩ := List.getElem_of_mem ht
    obtain ⟨hlength, hall⟩ := List.forall₂_iff_get.mp hcompile
    exact (hall i hi (hlength ▸ hi)).1
  · rintro ⟨hnodes, hdepth⟩
    refine ⟨_, hnodes, e.trees.map fun t => .ofNode t.categories t.root, rfl, ?_⟩
    rw [List.forall₂_map_right_iff, List.forall₂_same]
    exact fun t ht => ⟨hdepth t ht, rfl⟩

theorem compile_error {e : Ensemble} {limits : CompileLimits} {reason : CompileError} :
    e.compile limits = .error reason ↔
      (limits.maxNodes < e.numNodes ∧ reason = .tooLarge e.numNodes limits.maxNodes) ∨
      (e.numNodes ≤ limits.maxNodes ∧ ∃ before t after, e.trees = before ++ t :: after ∧
        (∀ earlier ∈ before, earlier.root.height ≤ limits.maxDepth) ∧
        limits.maxDepth < t.root.height ∧
        reason = .tooDeep t.index t.root.height limits.maxDepth) := by
  rw [compile]
  by_cases hnodes : limits.maxNodes < e.numNodes
  · simp [hnodes, Nat.not_le.mpr hnodes, eq_comm]
  · rw [if_neg hnodes, Outcome.map_error, Outcome.mapM_error]
    simp only [Tree.exists_compile, Tree.compile_error, hnodes, false_and, false_or,
      Nat.not_lt.mp hnodes, true_and]

theorem compile_outcome (e : Ensemble) (limits : CompileLimits) :
    let nodes := (e.trees.map fun t => t.root.size).sum
    (∀ reason, e.compile limits = .error reason ↔
      (limits.maxNodes < nodes ∧ reason = .tooLarge nodes limits.maxNodes) ∨
      (nodes ≤ limits.maxNodes ∧ ∃ before t after, e.trees = before ++ t :: after ∧
        (∀ earlier ∈ before, earlier.root.height ≤ limits.maxDepth) ∧
        limits.maxDepth < t.root.height ∧
        reason = .tooDeep t.index t.root.height limits.maxDepth)) ∧
    (∀ x, e.compile limits = .ok x ↔ nodes ≤ limits.maxNodes ∧
      ∃ states, x = .compiled states ∧ List.Forall₂ (fun (t : Tree) (state : CompiledNode) =>
        state = .ofNode t.categories t.root ∧ state.nesting = t.root.height ∧
          state.nesting ≤ limits.maxDepth) e.trees states) ∧
    ∀ t ∈ e.trees, t.compile? limits = some (t.compile limits) := by
  intro nodes
  have hnodes : e.numNodes = nodes := e.numNodes_eq
  refine ⟨fun reason => ?_, fun x => ?_, fun t ht => ?_⟩
  · rw [compile_error, hnodes]
  · have hstate : ∀ (t : Tree) (state : CompiledNode), t.compile limits = .ok state ↔
        state = .ofNode t.categories t.root ∧ state.nesting = t.root.height ∧
          state.nesting ≤ limits.maxDepth := by
      intro t state
      rw [Tree.compile_ok]
      constructor
      · rintro ⟨hdepth, rfl⟩
        have hnesting := CompiledNode.nesting_ofNode t.categories t.root
        exact ⟨rfl, hnesting, hnesting ▸ hdepth⟩
      · rintro ⟨rfl, hnesting, hdepth⟩
        exact ⟨hnesting ▸ hdepth, rfl⟩
    simp only [compile_ok, hnodes, hstate]
  · exact Tree.compile?_eq_compile (e.rangeOutside?_eq_none ht) limits

def growingTrees : EnsembleDraft where
  numClasses := 1
  treesPerIteration := 1
  maxFeature := 1
  objectiveName := "regression"
  objectiveConfig := ""
  trees := [
    ⟨1, .split 0 (.categorical ⟨0, 1⟩) (.leaf 1) (.leaf 2), ⟨#[6]⟩⟩,
    ⟨2, .split 1 (.numeric 0.5 .zero .left) (.leaf 3)
      (.split 0 (.numeric 2 .nan .right) (.leaf 4) (.leaf 5)), .empty⟩,
    ⟨0, .split 0 (.numeric 0 .nothing .left)
      (.split 1 (.numeric 1 .nan .left)
        (.split 0 (.numeric (-2) .zero .right) (.leaf 6) (.leaf 7)) (.leaf 8)) (.leaf 9), .empty⟩]

theorem growingTrees_outcomes :
    ∃ e t, ofDraft growingTrees = .ok e ∧
      e.compile ⟨3, 14⟩ = .error (.tooLarge 15 14) ∧
      e.compile ⟨1, 15⟩ = .error (.tooDeep 2 2 1) ∧
      (∃ states, e.compile ⟨3, 15⟩ = .ok (.compiled states) ∧
        states.map CompiledNode.nesting = [1, 2, 3]) ∧
      t ∈ e.trees ∧ t.compile? ⟨0, 15⟩ = some (.error (.tooDeep 1 1 0)) := by
  obtain ⟨e, he⟩ := Outcome.exists_ok (x := ofDraft growingTrees) (by decide +kernel)
  have htrees : e.trees = growingTrees.trees := congrArg EnsembleDraft.trees (ofDraft_ok he)
  have hnodes : (e.trees.map fun t => t.root.size).sum = 15 := by rw [htrees]; rfl
  obtain ⟨hlarge, -, -⟩ := compile_outcome e ⟨3, 14⟩
  obtain ⟨hdeep, -, -⟩ := compile_outcome e ⟨1, 15⟩
  obtain ⟨-, hok, -⟩ := compile_outcome e ⟨3, 15⟩
  obtain ⟨-, -, hinside⟩ := compile_outcome e ⟨0, 15⟩
  simp only [hnodes] at hlarge hdeep hok
  have hfirst : growingTrees.trees[0] ∈ e.trees := by
    rw [htrees]
    exact List.getElem_mem _
  have hrefused : growingTrees.trees[0].compile ⟨0, 15⟩ = .error (.tooDeep 1 1 0) :=
    Tree.compile_error.mpr ⟨by decide, rfl⟩
  refine ⟨e, growingTrees.trees[0], he, (hlarge _).mpr (.inl ⟨by decide, rfl⟩),
    (hdeep _).mpr (.inr ⟨by decide, [growingTrees.trees[0]], growingTrees.trees[1],
      [growingTrees.trees[2]], htrees, ?_, by decide, rfl⟩),
    ⟨growingTrees.trees.map fun t => .ofNode t.categories t.root,
      (hok _).mpr ⟨by decide, _, rfl, ?_⟩, rfl⟩, hfirst, hrefused ▸ hinside _ hfirst⟩
  · rintro earlier hearlier
    obtain rfl := List.mem_singleton.mp hearlier
    decide
  · rw [htrees]
    exact .cons ⟨rfl, rfl, by decide⟩
      (.cons ⟨rfl, rfl, by decide⟩ (.cons ⟨rfl, rfl, by decide⟩ .nil))

end Ensemble

end BoostedTrees
