import BoostedTrees.Proofs.Tree.Splits

namespace BoostedTrees.Node

variable {n : Node} {store : CategorySet} {row row' : Row}

def at? : Node → List Direction → Option Node
  | n, [] => some n
  | .split _ _ l _, .left :: path => l.at? path
  | .split _ _ _ r, .right :: path => r.at? path
  | .leaf _, _ :: _ => none

def paths : Node → List (List Direction)
  | .leaf _ => [[]]
  | .split _ _ l r => [] :: (l.paths.map (.left :: ·) ++ r.paths.map (.right :: ·))

theorem length_paths (n : Node) : n.paths.length = n.size := by
  induction n with
  | leaf value => rfl
  | split feature test l r ihl ihr =>
      rw [paths, size, List.length_cons, List.length_append, List.length_map, List.length_map, ihl,
        ihr]
      omega

theorem mem_paths {path : List Direction} : path ∈ n.paths ↔ (n.at? path).isSome = true := by
  induction n generalizing path with
  | leaf value => cases path <;> simp [paths, at?]
  | split feature test l r ihl ihr =>
      cases path with
      | nil => simp [paths, at?]
      | cons direction path => cases direction <;> simp [paths, at?, ihl, ihr]

def route (store : CategorySet) (row : Row) : Node → List Direction
  | .leaf _ => []
  | .split feature test l r =>
      match test.direction store (row.feature feature) with
      | .left => .left :: l.route store row
      | .right => .right :: r.route store row

theorem at?_route (n : Node) : n.at? (n.route store row) = some (.leaf (n.eval store row)) := by
  induction n with
  | leaf value => rfl
  | split feature test l r ihl ihr =>
      rw [route, eval]
      cases test.direction store (row.feature feature) with
      | left => rw [at?, ihl, if_pos rfl]
      | right => rw [at?, ihr, if_neg (by decide)]

theorem route_congr (h : ∀ feature test, n.HasSplit feature test →
      test.direction store (row.feature feature) = test.direction store (row'.feature feature)) :
    n.route store row = n.route store row' := by
  induction n with
  | leaf value => rfl
  | split feature test l r ihl ihr =>
      have hl := ihl fun feature test hsplit => h feature test (.left hsplit)
      have hr := ihr fun feature test hsplit => h feature test (.right hsplit)
      rw [route, route, h feature test .here, hl, hr]

theorem eval_of_route (h : n.route store row = n.route store row') :
    n.eval store row = n.eval store row' := by
  have hleaf : some (Node.leaf (n.eval store row)) = some (.leaf (n.eval store row')) := by
    rw [← at?_route, ← at?_route, h]
  exact Node.leaf.inj (Option.some.inj hleaf)

end BoostedTrees.Node
