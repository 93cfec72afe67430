import BoostedTrees.Proofs.Ensemble.Acceptance
import BoostedTrees.Proofs.Registry.Strategies
import BoostedTrees.Proofs.Routine.Heads

namespace BoostedTrees.Routine

theorem length_kinds_treeLines (t : Tree) :
    (kinds (treeLines t)).length = t.root.written.length := by
  have hlength := congrArg List.length (Expr.heads_ofNode t.categories t.root)
  rw [List.length_map, List.length_map] at hlength
  rw [kinds_treeLines, List.length_map, Expr.ofTree, hlength]

theorem length_lines_ofNode_le (store : CategorySet) (n : Node) (level : Nat) :
    ((Expr.ofNode store n).lines level).length + 9 ≤ 10 * n.written.length := by
  -- a leaf has one line and a split at most ten of its own, so the bound is met with nine to spare
  induction n generalizing level with
  | leaf value => simp [Expr.ofNode, Expr.lines, Node.written]
  | split feature test l r ihl ihr =>
      have hl := ihl (level + 2)
      have hr := ihr (level + 2)
      have hl' := ihl (level + 1)
      have hr' := ihr (level + 1)
      rcases test with ⟨threshold, _ | _ | _, _ | _⟩ | range <;>
        simp [Expr.ofNode, Expr.ofTest, Expr.side, Expr.lines, enclosed, Node.written,
          SplitTest.length_again, SplitTest.repeats, SplitTest.repeated?] <;> omega

structure Repetition (t : Tree) : Prop where
  paths : t.root.paths.length = t.numNodes
  complete : ∀ path, path ∈ t.root.written ↔ (t.root.at? path).isSome = true
  count : ∀ path ∈ t.root.paths, t.root.written.count path = 2 ^ t.root.doublings path
  heads : (Expr.ofTree t).heads.map some = t.root.written.map (Head.at? t.categories t.root)
  lines : kinds (treeLines t) = (Expr.ofTree t).heads.map Head.kind
  total : (kinds (treeLines t)).length =
    (t.root.paths.map fun path => 2 ^ t.root.doublings path).sum
  atLeast : t.numNodes ≤ (kinds (treeLines t)).length
  atMost : (kinds (treeLines t)).length ≤ 2 ^ t.depth * t.numNodes
  text : (treeLines t).length ≤ 10 * (kinds (treeLines t)).length
  twice : (∀ path ∈ t.root.paths, t.root.written.count path ≤ 2) ↔
    ∀ path ∈ t.root.paths, t.root.doublings path ≤ 1
  ofTwice : (∀ path ∈ t.root.paths, t.root.doublings path ≤ 1) →
    (kinds (treeLines t)).length ≤ 2 * t.numNodes

theorem treeLines_repeat (t : Tree) : Repetition t where
  paths := by rw [Node.length_paths, Tree.numNodes, Node.numNodes_eq_size]
  complete path := by
    rw [← Node.mem_paths]
    refine ⟨Node.mem_paths_of_mem_written, fun hpath => List.count_pos_iff.mp ?_⟩
    rw [Node.count_written hpath]
    exact Nat.two_pow_pos _
  count _ hpath := Node.count_written hpath
  heads := Expr.heads_ofNode t.categories t.root
  lines := kinds_treeLines t
  total := by rw [length_kinds_treeLines, Node.length_written]
  atLeast := by
    rw [length_kinds_treeLines, Tree.numNodes, Node.numNodes_eq_size]
    exact t.root.size_le_length_written
  atMost := by
    rw [length_kinds_treeLines, Tree.numNodes, Node.numNodes_eq_size, Tree.depth,
      Node.depth_eq_height]
    exact Node.length_written_le fun path _ => t.root.doublings_le_height path
  text := by
    have hbody := length_lines_ofNode_le t.categories t.root 1
    rw [length_kinds_treeLines, treeLines, List.length_append, List.length_cons, Expr.ofTree,
      List.length_singleton]
    omega
  twice := forall₂_congr fun path hpath => by
    rw [Node.count_written hpath]
    exact Nat.pow_le_pow_iff_right (m := 1) Nat.one_lt_two
  ofTwice h := by
    rw [length_kinds_treeLines, Tree.numNodes, Node.numNodes_eq_size]
    exact Node.length_written_le h

def repeatedLeaves : Tree where
  index := 0
  root := .split 3 (.numeric 0.25 .nan .left) (.leaf (-1.5))
    (.split 1 (.numeric 0.5 .zero .right) (.leaf 2) (.leaf 3))

theorem repeatedLeaves_repeat :
    (∀ path ∈ repeatedLeaves.root.paths, repeatedLeaves.root.doublings path ≤ 1) ∧
      (∀ path ∈ repeatedLeaves.root.paths, repeatedLeaves.root.written.count path ≤ 2) ∧
      (kinds (treeLines repeatedLeaves)).length ≤ 2 * repeatedLeaves.numNodes := by
  have htwice : ∀ path ∈ repeatedLeaves.root.paths, repeatedLeaves.root.doublings path ≤ 1 := by
    decide +kernel
  have hrepeat := treeLines_repeat repeatedLeaves
  exact ⟨htwice, hrepeat.twice.mpr htwice, hrepeat.ofTwice htwice⟩

def threeDefaults : EnsembleDraft where
  numClasses := 1
  treesPerIteration := 1
  maxFeature := 2
  objectiveName := "regression"
  objectiveConfig := ""
  trees := [⟨0, .split 0 (.numeric 0.5 .nan .right) (.leaf 1)
    (.split 1 (.numeric 0.5 .nan .right) (.leaf 2)
      (.split 2 (.numeric 0.5 .nan .right) (.leaf 3) (.leaf 4))), .empty⟩]

theorem threeDefaults_outgrown :
    ∃ e, Ensemble.ofDraft threeDefaults = .ok e ∧
      (¬ ∀ t ∈ e.trees, ∀ path ∈ t.root.paths, t.root.written.count path ≤ 2) ∧
      (¬ ∀ t ∈ e.trees, (kinds (treeLines t)).length ≤ 2 * t.numNodes) ∧
      ¬ ∀ t ∈ e.trees, (kinds (treeLines t)).count .number ≤ 2 * t.numNodes := by
  obtain ⟨e, he⟩ := Outcome.exists_ok (x := Ensemble.ofDraft threeDefaults) (by decide +kernel)
  refine ⟨e, he, ?_⟩
  rw [Ensemble.ofDraft_ok he]
  simp only [kinds_treeLines]
  decide +kernel

def defaultChain : Nat → Node
  | 0 => .leaf 0
  | n + 1 => .split 0 (.numeric 0 .nan .right) (.leaf 0) (defaultChain n)

theorem size_defaultChain (n : Nat) : (defaultChain n).size = 2 * n + 1 := by
  induction n with
  | zero => rfl
  | succ n ih =>
      rw [defaultChain, Node.size, Node.size, ih]
      omega

theorem height_defaultChain (n : Nat) : (defaultChain n).height = n := by
  induction n with
  | zero => rfl
  | succ n ih =>
      rw [defaultChain, Node.height, Node.height, ih]
      omega

theorem length_written_defaultChain (n : Nat) :
    (defaultChain n).written.length + 2 = 3 * 2 ^ n := by
  induction n with
  | zero => rfl
  | succ n ih =>
      have hlength : (defaultChain (n + 1)).written.length =
          2 * (defaultChain n).written.length + 2 := by
        simp [defaultChain, Node.written, SplitTest.length_again, SplitTest.repeats,
          SplitTest.repeated?]
        omega
      rw [hlength, pow_succ]
      omega

theorem hasSplit_defaultChain {n feature : Nat} {test : SplitTest}
    (h : (defaultChain n).HasSplit feature test) :
    feature = 0 ∧ test = .numeric 0 .nan .right := by
  induction n with
  | zero => exact absurd h Node.not_hasSplit_leaf
  | succ n ih =>
      rcases Node.hasSplit_split.mp h with h | h | h
      · exact h
      · exact absurd h Node.not_hasSplit_leaf
      · exact ih h

def chainDraft (n : Nat) : EnsembleDraft where
  numClasses := 1
  treesPerIteration := 1
  maxFeature := 0
  objectiveName := "regression"
  objectiveConfig := ""
  trees := [⟨0, defaultChain n, .empty⟩]

theorem wellFormed_chainDraft (n : Nat) : (chainDraft n).WellFormed where
  trees := List.cons_ne_nil _ _
  classes := Nat.one_pos
  treesPerIteration := Nat.one_pos
  objective := by simp [chainDraft, Objective.supportedNames]
  indices := List.Perm.refl _
  features t ht feature test hsplit := by
    obtain rfl := List.mem_singleton.mp ht
    exact Nat.le_of_eq (hasSplit_defaultChain hsplit).1
  ranges t ht feature range hsplit := by
    obtain rfl := List.mem_singleton.mp ht
    exact absurd (hasSplit_defaultChain hsplit).2 (by simp)

theorem exists_chain {n : Nat} {limits : CompileLimits} (hdepth : n ≤ limits.maxDepth)
    (hnodes : 2 * n + 1 ≤ limits.maxNodes) :
    ∃ e x, Ensemble.ofDraft (chainDraft n) = .ok e ∧ e.compile limits = .ok x ∧
      e.trees = [⟨0, defaultChain n, .empty⟩] := by
  obtain ⟨e, he⟩ := Ensemble.exists_ofDraft.mpr
    (EnsembleDraft.wellFormed_iff.mp (wellFormed_chainDraft n))
  have htrees : e.trees = [⟨0, defaultChain n, .empty⟩] := by
    rw [Ensemble.ofDraft_ok he]
    rfl
  have hcompile : ∃ x, e.compile limits = .ok x := by
    rw [Ensemble.exists_compile, htrees]
    refine ⟨?_, fun t ht => ?_⟩
    · rw [List.map_singleton, List.sum_singleton, size_defaultChain]
      exact hnodes
    · obtain rfl := List.mem_singleton.mp ht
      rw [height_defaultChain]
      exact hdepth
  obtain ⟨x, hx⟩ := hcompile
  exact ⟨e, x, he, hx, htrees⟩

theorem length_kinds_chain (n : Nat) (limits : CompileLimits) (hdepth : n ≤ limits.maxDepth)
    (hnodes : 2 * n + 1 ≤ limits.maxNodes) :
    ∃ e x, Ensemble.ofDraft (chainDraft n) = .ok e ∧ e.compile limits = .ok x ∧
      ∃ t, e.trees = [t] ∧ t.numNodes = 2 * n + 1 ∧
        (kinds (treeLines t)).length + 2 = 3 * 2 ^ n := by
  obtain ⟨e, x, he, hx, htrees⟩ := exists_chain hdepth hnodes
  refine ⟨e, x, he, hx, _, htrees, ?_⟩
  rw [Tree.numNodes, Node.numNodes_eq_size, length_kinds_treeLines]
  exact ⟨size_defaultChain n, length_written_defaultChain n⟩

end BoostedTrees.Routine
