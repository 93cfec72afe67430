import BoostedTrees.Tree.Basic

namespace BoostedTrees

namespace Node

def nodes (depth : Nat) : Node → List (Nat × Node)
  | .leaf value => [(depth, .leaf value)]
  | .split feature test l r =>
      (depth, .split feature test l r) :: (l.nodes (depth + 1) ++ r.nodes (depth + 1))

def pendingSize (pending : List (Nat × Node)) : Nat :=
  pending.foldr (fun p total => p.2.size + total) 0

def visitPending {σ : Type} (f : σ → Nat → Node → σ) (state : σ) : List (Nat × Node) → σ
  | [] => state
  | (depth, .leaf value) :: rest => visitPending f (f state depth (.leaf value)) rest
  | (depth, .split feature test l r) :: rest =>
      visitPending f (f state depth (.split feature test l r))
        ((depth + 1, l) :: (depth + 1, r) :: rest)
termination_by pending => pendingSize pending
decreasing_by all_goals simp [pendingSize, size] <;> omega

def visitNodes {σ : Type} (f : σ → Nat → Node → σ) (state : σ) (root : Node) : σ :=
  visitPending f state [(0, root)]

def visit {σ : Type} (f : σ → Nat → NodeLabel → σ) (state : σ) (root : Node) : σ :=
  root.visitNodes (fun state depth n => f state depth n.label) state

theorem visitPending_eq_foldl {σ : Type} (f : σ → Nat → Node → σ) (state : σ)
    (pending : List (Nat × Node)) :
    visitPending f state pending =
      (pending.flatMap fun p => p.2.nodes p.1).foldl (fun s p => f s p.1 p.2) state := by
  fun_induction visitPending f state pending with
  | case1 => rfl
  | case2 state depth value rest ih => simp [ih, nodes]
  | case3 state depth feature test l r rest ih => simp [ih, nodes]

theorem visitNodes_eq_foldl {σ : Type} (f : σ → Nat → Node → σ) (state : σ) (root : Node) :
    root.visitNodes f state = (root.nodes 0).foldl (fun s p => f s p.1 p.2) state := by
  simp [visitNodes, visitPending_eq_foldl]

theorem labels_eq_map (root : Node) (depth : Nat) :
    root.labels depth = (root.nodes depth).map fun p => (p.1, p.2.label) := by
  induction root generalizing depth with
  | leaf value => rfl
  | split feature test l r ihl ihr => simp [labels, nodes, label, ihl, ihr]

theorem visit_eq_foldl {σ : Type} (f : σ → Nat → NodeLabel → σ) (state : σ) (root : Node) :
    root.visit f state = (root.labels 0).foldl (fun s p => f s p.1 p.2) state := by
  rw [visit, visitNodes_eq_foldl, labels_eq_map, List.foldl_map]

def preorder (root : Node) : Array (Nat × NodeLabel) :=
  root.visit (fun found depth label => found.push (depth, label)) #[]

def numNodes (root : Node) : Nat := root.visit (fun count _ _ => count + 1) 0

theorem length_labels (root : Node) (depth : Nat) : (root.labels depth).length = root.size := by
  induction root generalizing depth with
  | leaf value => rfl
  | split feature test l r ihl ihr => simp [labels, size, ihl, ihr]; omega

theorem numNodes_eq_size (root : Node) : root.numNodes = root.size := by
  simp [numNodes, visit_eq_foldl, length_labels]

def depth (root : Node) : Nat := root.visit (fun deepest depth _ => max deepest depth) 0

theorem foldl_max_labels (root : Node) (depth deepest : Nat) :
    (root.labels depth).foldl (fun m p => max m p.1) deepest =
      max deepest (depth + root.height) := by
  induction root generalizing depth deepest with
  | leaf value => simp [labels, height]
  | split feature test l r ihl ihr =>
      simp only [labels, height, List.foldl_cons, List.foldl_append, List.cons_append, ihl, ihr]
      omega

theorem depth_eq_height (root : Node) : root.depth = root.height := by
  rw [depth, visit_eq_foldl, foldl_max_labels]
  omega

instance : BEq Node := ⟨fun a b => a.preorder == b.preorder⟩

end Node

namespace Tree

def numNodes (t : Tree) : Nat := t.root.numNodes

def depth (t : Tree) : Nat := t.root.depth

def hasCategorical (t : Tree) : Bool :=
  t.root.visit
    (fun found _ label => match label with
      | .leaf _ => found
      | .split _ test => found || test.isCategorical)
    false

def maxFeature (greatest : Option Nat) (feature : Nat) : Option Nat :=
  match greatest with
  | none => some feature
  | some g => some (max g feature)

def maxSplitFeature (t : Tree) : Option Nat :=
  t.root.visit
    (fun greatest _ label => match label with
      | .leaf _ => greatest
      | .split feature _ => maxFeature greatest feature)
    none

def rangeOutside? (t : Tree) : Option CategoryRange :=
  t.root.visit
    (fun found _ label => match found, label with
      | none, .split _ (.categorical range) =>
          if t.categories.Inside range then none else some range
      | _, _ => found)
    none

def beq (a b : Tree) : Bool :=
  a.index == b.index && a.root == b.root && a.categories == b.categories

instance : BEq Tree := ⟨beq⟩

end Tree

end BoostedTrees
