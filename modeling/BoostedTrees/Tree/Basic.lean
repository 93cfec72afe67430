import BoostedTrees.Category

namespace BoostedTrees

inductive Direction where
  | left
  | right
  deriving DecidableEq, Repr

def Direction.ofDefaultLeft (defaultLeft : Bool) : Direction :=
  if defaultLeft then .left else .right

inductive MissingPolicy where
  | nothing
  | zero
  | nan
  deriving DecidableEq, Repr

def MissingPolicy.ofBits (bits : Nat) : MissingPolicy :=
  match bits % 4 with
  | 1 => .zero
  | 2 => .nan
  | _ => .nothing

inductive SplitTest where
  | numeric (threshold : Float) (missing : MissingPolicy) (fallback : Direction)
  | categorical (range : CategoryRange)

def SplitTest.isCategorical : SplitTest → Bool
  | .numeric .. => false
  | .categorical _ => true

def SplitTest.missing : SplitTest → MissingPolicy
  | .numeric _ missing _ => missing
  | .categorical _ => .nothing

def SplitTest.fallback : SplitTest → Direction
  | .numeric _ _ fallback => fallback
  | .categorical _ => .right

def SplitTest.beq : SplitTest → SplitTest → Bool
  | .numeric t m d, .numeric t' m' d' => t == t' && m == m' && d == d'
  | .categorical r, .categorical r' => r == r'
  | _, _ => false

instance : BEq SplitTest := ⟨SplitTest.beq⟩

inductive Node where
  | leaf (value : Float)
  | split (feature : Nat) (test : SplitTest) (left right : Node)

inductive NodeLabel where
  | leaf (value : Float)
  | split (feature : Nat) (test : SplitTest)

def NodeLabel.beq : NodeLabel → NodeLabel → Bool
  | .leaf v, .leaf v' => v == v'
  | .split f t, .split f' t' => f == f' && t == t'
  | _, _ => false

instance : BEq NodeLabel := ⟨NodeLabel.beq⟩

namespace Node

def label : Node → NodeLabel
  | .leaf value => .leaf value
  | .split feature test _ _ => .split feature test

def isLeaf : Node → Bool
  | .leaf _ => true
  | .split .. => false

def size : Node → Nat
  | .leaf _ => 1
  | .split _ _ l r => 1 + l.size + r.size

def height : Node → Nat
  | .leaf _ => 0
  | .split _ _ l r => 1 + max l.height r.height

def labels (depth : Nat) : Node → List (Nat × NodeLabel)
  | .leaf value => [(depth, .leaf value)]
  | .split feature test l r =>
      (depth, .split feature test) :: l.labels (depth + 1) ++ r.labels (depth + 1)

end Node

structure Tree where
  index : Nat
  root : Node
  categories : CategorySet := .empty

end BoostedTrees
