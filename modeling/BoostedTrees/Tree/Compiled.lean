import BoostedTrees.Tree.Visit
import BoostedTrees.Tree.Decision

namespace BoostedTrees

structure CompileLimits where
  maxDepth : Nat := 256
  maxNodes : Nat := 1048576
  deriving DecidableEq, Repr

inductive CompileError where
  | tooDeep (tree depth limit : Nat)
  | tooLarge (nodes limit : Nat)
  deriving DecidableEq, Repr

def CompileError.message : CompileError → String
  | .tooDeep tree depth limit => s!"tree {tree} has depth {depth}, compile limit is {limit}"
  | .tooLarge nodes limit => s!"model has {nodes} nodes, compile limit is {limit}"

inductive CompiledNode where
  | leaf (value : Float)
  | plain (feature : Nat) (threshold : Float) (left right : CompiledNode)
  | zeroLeft (feature : Nat) (threshold : Float) (left right : CompiledNode)
  | zeroRight (feature : Nat) (threshold : Float) (left right : CompiledNode)
  | nanLeft (feature : Nat) (threshold : Float) (left right : CompiledNode)
  | nanRight (feature : Nat) (threshold : Float) (left right : CompiledNode)
  | categorical (feature : Nat) (set : CategorySet) (left right : CompiledNode)

namespace CompiledNode

def ofTest (store : CategorySet) (feature : Nat) (test : SplitTest) (l r : CompiledNode) :
    CompiledNode :=
  match test with
  | .categorical range => .categorical feature (store.slice range) l r
  | .numeric threshold .nothing _ => .plain feature threshold l r
  | .numeric threshold .zero .left => .zeroLeft feature threshold l r
  | .numeric threshold .zero .right => .zeroRight feature threshold l r
  | .numeric threshold .nan .left => .nanLeft feature threshold l r
  | .numeric threshold .nan .right => .nanRight feature threshold l r

def ofNode (store : CategorySet) : Node → CompiledNode
  | .leaf value => .leaf value
  | .split feature test l r => ofTest store feature test (ofNode store l) (ofNode store r)

def orZero (value : Float) : Float := if value.isNaN then Binary64.zero else value

def eval (row : Row) : CompiledNode → Float
  | .leaf value => value
  | .plain feature threshold l r =>
      if orZero (row.feature feature) ≤ threshold then l.eval row else r.eval row
  | .zeroLeft feature threshold l r =>
      let v := orZero (row.feature feature)
      if isZero v then l.eval row else if v ≤ threshold then l.eval row else r.eval row
  | .zeroRight feature threshold l r =>
      let v := orZero (row.feature feature)
      if isZero v then r.eval row else if v ≤ threshold then l.eval row else r.eval row
  | .nanLeft feature threshold l r =>
      let v := row.feature feature
      if v.isNaN then l.eval row else if v ≤ threshold then l.eval row else r.eval row
  | .nanRight feature threshold l r =>
      let v := row.feature feature
      if v.isNaN then r.eval row else if v ≤ threshold then l.eval row else r.eval row
  | .categorical feature set l r =>
      if (category? (row.feature feature)).any set.contains then l.eval row else r.eval row

theorem eval_ofTest (store : CategorySet) (row : Row) (feature : Nat) (test : SplitTest)
    (l r : CompiledNode) :
    (ofTest store feature test l r).eval row =
      if test.direction store (row.feature feature) = .left then l.eval row else r.eval row := by
  cases test with
  | categorical range =>
      cases h : (category? (row.feature feature)).any (store.slice range).contains <;>
        simp [ofTest, eval, SplitTest.direction, categoricalDirection, h]
  | numeric threshold missing fallback =>
      cases h : (row.feature feature).isNaN <;> cases missing <;> cases fallback <;>
        simp [ofTest, eval, SplitTest.direction, numericDirection, orZero] <;>
        repeat' split <;> simp_all

theorem eval_ofNode (store : CategorySet) (row : Row) (n : Node) :
    (ofNode store n).eval row = n.eval store row := by
  induction n with
  | leaf value => rfl
  | split feature test l r ihl ihr => simp [ofNode, eval_ofTest, Node.eval, ihl, ihr]

def nesting : CompiledNode → Nat
  | .leaf _ => 0
  | .plain _ _ l r | .zeroLeft _ _ l r | .zeroRight _ _ l r | .nanLeft _ _ l r | .nanRight _ _ l r
  | .categorical _ _ l r => 1 + max l.nesting r.nesting

def isLeaf : CompiledNode → Bool
  | .leaf _ => true
  | _ => false

def describe (node : CompiledNode) : String :=
  "CompiledTree \x7b root: " ++ (if node.isLeaf then "\"leaf\"" else "\"split\"") ++ " \x7d"

end CompiledNode

def Tree.compile (t : Tree) (limits : CompileLimits) : Except CompileError CompiledNode :=
  if limits.maxDepth < t.depth then .error (.tooDeep t.index t.depth limits.maxDepth)
  else .ok (.ofNode t.categories t.root)

def Tree.compile? (t : Tree) (limits : CompileLimits) : Option (Except CompileError CompiledNode) :=
  match t.compile limits with
  | .error e => some (.error e)
  | .ok node => if t.rangeOutside?.isSome then none else some (.ok node)

end BoostedTrees
