import BoostedTrees.Binary64.Text
import BoostedTrees.Dump.Fields
import BoostedTrees.Text.Line

namespace BoostedTrees

structure TreeDraft where
  numLeaves : Nat
  numCategorical : Nat := 0
  splitFeature : List Int := []
  threshold : List Float := []
  decisionType : List Int := []
  leftChild : List Int := []
  rightChild : List Int := []
  leafValue : List Float
  boundaries : List Nat := []
  words : List UInt64 := []

namespace TreeDraft

def leaf (value : Float) : TreeDraft := { numLeaves := 1, leafValue := [value] }

def stump (feature : Int) (threshold : Float) (decisionType : Int) (left right : Float) :
    TreeDraft where
  numLeaves := 2
  splitFeature := [feature]
  threshold := [threshold]
  decisionType := [decisionType]
  leftChild := [-1]
  rightChild := [-2]
  leafValue := [left, right]

def splits (splitFeature : List Int) (threshold : List Float)
    (decisionType leftChild rightChild : List Int) (leafValue : List Float) : TreeDraft where
  numLeaves := leafValue.length
  splitFeature := splitFeature
  threshold := threshold
  decisionType := decisionType
  leftChild := leftChild
  rightChild := rightChild
  leafValue := leafValue

def withCategories (t : TreeDraft) (numCategorical : Nat) (boundaries : List Nat)
    (words : List UInt64) : TreeDraft :=
  { t with numCategorical, boundaries, words }

def chain (leftward : Bool) (decisionType : Int) (thresholds : List Float)
    (leafValue : List Float) : TreeDraft :=
  let n := thresholds.length
  let leaves : List Int := (List.range n).map fun (k : Nat) => -1 - (k : Int)
  let inner : List Int := (List.range n).map fun (k : Nat) =>
    if k + 1 = n then -1 - (n : Int) else (k : Int) + 1
  splits (List.replicate n 0) thresholds (List.replicate n decisionType)
    (if leftward then inner else leaves) (if leftward then leaves else inner) leafValue

def intText (n : Int) : String := String.ofList (Binary64.intChars n)

def listLine {α : Type} (key : String) (text : α → String) (values : List α) : String :=
  key ++ "=" ++ String.intercalate " " (values.map text)

def natText (n : Nat) : String := String.ofList (Nat.toDigits 10 n)

def splitLines (t : TreeDraft) : List String :=
  if t.leftChild.isEmpty then []
  else
    [listLine "split_feature" intText t.splitFeature,
      listLine "threshold" Binary64.plain t.threshold,
      listLine "decision_type" intText t.decisionType,
      listLine "left_child" intText t.leftChild,
      listLine "right_child" intText t.rightChild]

def lines (t : TreeDraft) (position : Nat) : List String :=
  ["Tree=" ++ natText position, "num_leaves=" ++ natText t.numLeaves,
    "num_cat=" ++ natText t.numCategorical] ++
  t.splitLines ++
  [listLine "leaf_value" Binary64.plain t.leafValue] ++
  (if t.boundaries.isEmpty then [] else [listLine "cat_boundaries" natText t.boundaries]) ++
  (if t.words.isEmpty then [] else [listLine "cat_threshold" (fun w => natText w.toNat) t.words]) ++
  ["shrinkage=1", ""]

def toBlock (t : TreeDraft) (position : Nat) : TreeBlock where
  index := position
  numLeaves := some t.numLeaves
  numCategorical := t.numCategorical
  splitFeature := t.splitFeature.toArray
  decisionType := t.decisionType.toArray
  threshold := t.threshold.toArray
  leftChild := t.leftChild.toArray
  rightChild := t.rightChild.toArray
  leafValue := t.leafValue.toArray
  boundaries := t.boundaries.toArray
  words := t.words.toArray

end TreeDraft

structure DumpDraft where
  objective : String
  numClasses : Nat := 1
  treesPerIteration : Nat := 1
  maxFeature : Nat
  trees : List TreeDraft := []

namespace DumpDraft

def withClasses (d : DumpDraft) (numClasses : Nat) : DumpDraft :=
  { d with numClasses, treesPerIteration := numClasses }

def headerLines (d : DumpDraft) : List String :=
  ["tree", "version=v4", "num_class=" ++ TreeDraft.natText d.numClasses,
    "num_tree_per_iteration=" ++ TreeDraft.natText d.treesPerIteration, "label_index=0",
    "max_feature_idx=" ++ TreeDraft.natText d.maxFeature, "objective=" ++ d.objective, ""]

def trailerLines : List String :=
  ["end of trees", "", "parameters:", "[boosting: gbdt]", "end of parameters"]

def treeLines (d : DumpDraft) : List String :=
  d.trees.zipIdx.flatMap fun entry => entry.1.lines entry.2

def lines (d : DumpDraft) : List String := d.headerLines ++ d.treeLines ++ trailerLines

def text (d : DumpDraft) : String := Text.unlines d.lines

def header (d : DumpDraft) : Header where
  version := some "v4"
  numClasses := d.numClasses
  treesPerIteration := d.treesPerIteration
  maxFeature := d.maxFeature
  objectiveName := String.ofList (splitObjective d.objective.toList).1
  objectiveConfig := String.ofList (splitObjective d.objective.toList).2

def toDump (d : DumpDraft) : Dump where
  header := some d.header
  trees := (d.trees.zipIdx.map fun entry => entry.1.toBlock entry.2).toArray

end DumpDraft

end BoostedTrees
