import BoostedTrees.Text.Quoted

namespace BoostedTrees

structure Header where
  version : Option String := none
  numClasses : Int := 0
  treesPerIteration : Int := 0
  maxFeature : Int := 0
  objectiveName : String := ""
  objectiveConfig : String := ""
  featureNames : List String := []
  deriving DecidableEq, Repr

-- a child that is not negative is a split, and child -1 - k is leaf k
structure TreeBlock where
  index : Nat := 0
  numLeaves : Option Nat := none
  numCategorical : Nat := 0
  splitFeature : Array Int := #[]
  decisionType : Array Int := #[]
  threshold : Array Float := #[]
  leftChild : Array Int := #[]
  rightChild : Array Int := #[]
  leafValue : Array Float := #[]
  internalValue : Array Float := #[]
  boundaries : Array Nat := #[]
  words : Array UInt64 := #[]
  deriving BEq

namespace TreeBlock

def numSplits (b : TreeBlock) : Nat := b.leftChild.size

def isSingleLeaf (b : TreeBlock) : Bool :=
  b.leftChild.isEmpty && (match b.numLeaves with | none => true | some n => n ≤ 1)

end TreeBlock

structure Dump where
  header : Option Header := none
  trees : Array TreeBlock := #[]
  deriving BEq

inductive DumpError where
  | invalidEncoding (validUpTo : Nat)
  | malformedLine (number : Nat) (line : String)
  | missingField (tree : Option Nat) (field : String)
  | invalidValue (field token : String)
  | sizeMismatch (field : String) (expected actual : Nat)
  | invalidChild (tree node : Nat) (child : Int)
  | secondHeader (line : Nat)
  deriving DecidableEq, Repr

namespace DumpError

def blockName : Option Nat → String
  | some index => s!"tree {index}"
  | none => "meta block"

def message : DumpError → String
  | .invalidEncoding n => s!"model text is not valid UTF-8 (valid up to byte {n})"
  | .malformedLine number line => s!"malformed key=value line {number}: " ++ Text.quoted line
  | .missingField tree field => blockName tree ++ ": missing required field " ++ field
  | .invalidValue field token => "invalid value for " ++ field ++ ": " ++ Text.quoted token
  | .sizeMismatch field expected actual =>
      "array size mismatch for " ++ field ++ s!": expected {expected}, got {actual}"
  | .invalidChild tree node child =>
      s!"tree {tree}: node {node} has invalid child reference {child}"
  | .secondHeader line => s!"second meta block at line {line}"

end DumpError

end BoostedTrees
