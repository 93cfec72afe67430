import BoostedTrees.Tree.Decision

namespace BoostedTrees.Routine

inductive Condition where
  | isZero
  | isNan
  | atMost (threshold : Float)
  | member (set : CategorySet) (feature : Nat)

inductive Expr where
  | number (x : Float)
  | bindFeature (feature : Nat) (body : Expr)
  | bindOrZero (body : Expr)
  | ifElse (condition : Condition) (onTrue onFalse : Expr)
  | ifElseIf (first : Condition) (onFirst : Expr) (second : Condition) (onSecond onNeither : Expr)

namespace Expr

def side (l r : Expr) : Direction → Expr
  | .left => l
  | .right => r

def ofTest (store : CategorySet) (feature : Nat) (l r : Expr) : SplitTest → Expr
  | .categorical range => .ifElse (.member (store.slice range) feature) l r
  | .numeric threshold .nothing _ =>
      .bindFeature feature (.bindOrZero (.ifElse (.atMost threshold) l r))
  | .numeric threshold .zero fallback =>
      .bindFeature feature
        (.bindOrZero (.ifElseIf .isZero (side l r fallback) (.atMost threshold) l r))
  | .numeric threshold .nan fallback =>
      .bindFeature feature (.ifElseIf .isNan (side l r fallback) (.atMost threshold) l r)

def ofNode (store : CategorySet) : Node → Expr
  | .leaf value => number value
  | .split feature test l r => ofTest store feature (ofNode store l) (ofNode store r) test

def ofTree (t : Tree) : Expr := ofNode t.categories t.root

end Expr

end BoostedTrees.Routine
