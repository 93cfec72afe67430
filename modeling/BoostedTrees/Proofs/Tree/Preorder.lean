import BoostedTrees.Proofs.Tree.Paths
import Mathlib.Data.List.Forall2

namespace BoostedTrees

def Direction.Before (d d' : Direction) : Prop := d = .left ∧ d' = .right

namespace Node

variable {store : CategorySet} {range : CategoryRange}

theorem ascending_paths (n : Node) : n.paths.Pairwise (List.Lex Direction.Before) := by
  induction n with
  | leaf value => exact List.pairwise_singleton _ _
  | split feature test l r ihl ihr =>
      rw [paths, List.pairwise_cons, List.pairwise_append, List.pairwise_map, List.pairwise_map]
      refine ⟨?_, ihl.imp .cons, ihr.imp .cons, ?_⟩
      · intro path hpath
        rcases List.mem_append.mp hpath with h | h <;>
        · obtain ⟨below, -, rfl⟩ := List.mem_map.mp h
          exact .nil
      · intro path hpath path' hpath'
        obtain ⟨below, -, rfl⟩ := List.mem_map.mp hpath
        obtain ⟨below', -, rfl⟩ := List.mem_map.mp hpath'
        exact .rel ⟨rfl, rfl⟩

theorem located_nodes (n : Node) (depth : Nat) :
    List.Forall₂ (fun path call => call.1 = depth + path.length ∧ n.at? path = some call.2)
      n.paths (n.nodes depth) := by
  induction n generalizing depth with
  | leaf value => exact .cons ⟨rfl, rfl⟩ .nil
  | split feature test l r ihl ihr =>
      -- a path below a side is one longer, and the nodes of the side are one deeper
      refine .cons ⟨rfl, rfl⟩ (List.rel_append (List.forall₂_map_left_iff.mpr ?_)
        (List.forall₂_map_left_iff.mpr ?_))
      · exact (ihl (depth + 1)).imp fun path _ h =>
          ⟨h.1.trans (Nat.add_right_comm depth 1 path.length), h.2⟩
      · exact (ihr (depth + 1)).imp fun path _ h =>
          ⟨h.1.trans (Nat.add_right_comm depth 1 path.length), h.2⟩

structure Preorder (root : Node) (calls : List (Nat × Node)) : Prop where
  located : List.Forall₂ (fun path call => call.1 = path.length ∧ root.at? path = some call.2)
    root.paths calls
  mem_paths : ∀ path, path ∈ root.paths ↔ (root.at? path).isSome = true
  ascending : root.paths.Pairwise (List.Lex Direction.Before)

theorem preorder_nodes (n : Node) : n.Preorder (n.nodes 0) where
  located := (n.located_nodes 0).imp fun path call h => ⟨by rw [h.1, Nat.zero_add], h.2⟩
  mem_paths _ := Node.mem_paths
  ascending := n.ascending_paths

def Misses (store : CategorySet) (range : CategoryRange) (n : Node) : Prop :=
  ∃ feature l r, n = .split feature (.categorical range) l r ∧ ¬ store.Inside range

theorem rangeOutside?_label {n : Node} :
    n.label.rangeOutside? store = some range ↔ n.Misses store range := by
  rcases n with value | ⟨feature, _ | range', l, r⟩
  · simp [label, NodeLabel.rangeOutside?, Misses]
  · simp [label, NodeLabel.rangeOutside?, Misses]
  · by_cases hinside : store.Inside range'
    · simp only [label, NodeLabel.rangeOutside?, if_pos hinside, reduceCtorEq, false_iff]
      rintro ⟨feature', l', r', heq, hout⟩
      cases heq
      exact hout hinside
    · simp only [label, NodeLabel.rangeOutside?, if_neg hinside, Option.some.injEq]
      constructor
      · rintro rfl
        exact ⟨feature, l, r, rfl, hinside⟩
      · rintro ⟨feature', l', r', heq, -⟩
        cases heq
        rfl

end Node

namespace Tree

variable {t : Tree} {range : CategoryRange}

theorem rangeOutside?_eq_some : t.rangeOutside? = some range ↔
    ∃ before call after, t.root.nodes 0 = before ++ call :: after ∧
      call.2.Misses t.categories range ∧
      ∀ earlier ∈ before, ∀ range', ¬ earlier.2.Misses t.categories range' := by
  rw [rangeOutside?_eq, Node.labels_eq_map, List.findSome?_map, List.findSome?_eq_some_iff]
  simp only [Function.comp_apply, Node.rangeOutside?_label, Option.eq_none_iff_forall_ne_some,
    ne_eq]

theorem visits_in_preorder (t : Tree) :
    (∀ (σ : Type) (f : σ → Nat → Node → σ) (state : σ), t.root.visitNodes f state =
      (t.root.nodes 0).foldl (fun state call => f state call.1 call.2) state) ∧
    t.root.Preorder (t.root.nodes 0) ∧
    t.numNodes = t.root.size ∧ t.depth = t.root.height ∧
    t.hasCategorical = t.root.anyCategorical ∧ t.maxSplitFeature = t.root.greatestFeature ∧
    (∀ range, t.rangeOutside? = some range ↔
      ∃ before call after, t.root.nodes 0 = before ++ call :: after ∧
        call.2.Misses t.categories range ∧
        ∀ earlier ∈ before, ∀ range', ¬ earlier.2.Misses t.categories range') ∧
    (t.rangeOutside? = none ↔ ∀ feature range, t.root.HasSplit feature (.categorical range) →
      t.categories.Inside range) :=
  ⟨fun _ f state => t.root.visitNodes_eq_foldl f state, t.root.preorder_nodes,
    t.root.numNodes_eq_size, t.root.depth_eq_height, hasCategorical_eq, maxSplitFeature_eq,
    fun _ => rangeOutside?_eq_some, rangeOutside?_eq_none_iff⟩

end Tree

end BoostedTrees
