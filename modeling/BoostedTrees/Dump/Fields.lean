import BoostedTrees.Binary64.Decimal
import BoostedTrees.Dump.Basic
import BoostedTrees.Text.Blank

namespace BoostedTrees

abbrev Fields := List (String × List Char)

namespace Fields

def value? (fs : Fields) (key : String) : Option (List Char) :=
  (fs.lookup key).filter fun v => !v.isEmpty

def ofLine? (line : List Char) : Option (String × List Char) :=
  match line.dropWhile (· != '=') with
  | [] => none
  | _ :: value =>
      if value.contains '=' then none
      else some (String.ofList (Text.trim (line.takeWhile (· != '='))), Text.trim value)

end Fields

def splitObjective (s : List Char) : List Char × List Char :=
  let s := Text.trim s
  (Text.firstWord s, Text.trim (Text.afterWord s))

namespace DumpField

def scalar {α : Type} (read : List Char → Option α) (field : String) (token : List Char) :
    Except DumpError α :=
  match read (Text.trim token) with
  | some value => .ok value
  | none => .error (.invalidValue field (String.ofList token))

def list {α : Type} (read : List Char → Option α) (field : String) (s : List Char) :
    Except DumpError (Array α) :=
  ((Text.words s).mapM (scalar read field)).map List.toArray

def required (fs : Fields) (tree : Option Nat) (field : String) : Except DumpError (List Char) :=
  match fs.value? field with
  | some v => .ok v
  | none => .error (.missingField tree field)

def optional {α : Type} (fs : Fields) (field : String)
    (read : String → List Char → Except DumpError α) : Except DumpError (Option α) :=
  match fs.value? field with
  | some v => (read field v).map some
  | none => .ok none

def optionalList {α : Type} (fs : Fields) (field : String) (read : List Char → Option α) :
    Except DumpError (Array α) :=
  (optional fs field (list read)).map fun values => values.getD #[]

def checkSize {α : Type} (field : String) (values : Array α) (expected : Nat) :
    Except DumpError Unit :=
  if values.size = expected then .ok () else .error (.sizeMismatch field expected values.size)

def sizedList {α : Type} (fs : Fields) (tree : Nat) (field : String) (read : List Char → Option α)
    (expected : Nat) : Except DumpError (Array α) := do
  let values ← list read field (← required fs (some tree) field)
  checkSize field values expected
  return values

def word64? (s : List Char) : Option UInt64 := (Text.natural? 64 s).map UInt64.ofNat

end DumpField

open DumpField

def Header.ofFields (fs : Fields) : Except DumpError Header := do
  let objective ← required fs none "objective"
  let numClasses ← scalar (Text.integer? 64) "num_class" (← required fs none "num_class")
  let treesPerIteration ← scalar (Text.integer? 64) "num_tree_per_iteration"
    (← required fs none "num_tree_per_iteration")
  let maxFeature ← scalar (Text.integer? 64) "max_feature_idx"
    (← required fs none "max_feature_idx")
  let (objectiveName, objectiveConfig) := splitObjective objective
  return {
    version := (fs.value? "version").map String.ofList
    numClasses, treesPerIteration, maxFeature
    objectiveName := String.ofList objectiveName
    objectiveConfig := String.ofList objectiveConfig
    featureNames := (Text.words ((fs.value? "feature_names").getD [])).map String.ofList }

def loneLeaf (fs : Fields) (numLeaves : Option Nat) : Bool :=
  (fs.value? "left_child").isNone && (match numLeaves with | none => true | some n => n ≤ 1)

def TreeBlock.checkLeaves (b : TreeBlock) (leftChild : Array Int) : Except DumpError Unit :=
  match b.numLeaves with
  | some numLeaves => do
      checkSize "left_child" leftChild (numLeaves - 1)
      checkSize "leaf_value" b.leafValue numLeaves
  | none => .ok ()

def TreeBlock.readSplits (fs : Fields) (b : TreeBlock) : Except DumpError TreeBlock := do
  let leftChild ← list (Text.integer? 32) "left_child" (← required fs (some b.index) "left_child")
  let n := leftChild.size
  let rightChild ← sizedList fs b.index "right_child" (Text.integer? 32) n
  let splitFeature ← sizedList fs b.index "split_feature" (Text.integer? 32) n
  let decisionType ← sizedList fs b.index "decision_type" (Text.integer? 32) n
  let threshold ← sizedList fs b.index "threshold" Binary64.read? n
  b.checkLeaves leftChild
  let boundaries ← optionalList fs "cat_boundaries" (Text.natural? 32)
  let words ← optionalList fs "cat_threshold" word64?
  return { b with leftChild, rightChild, splitFeature, decisionType, threshold, boundaries, words }

def TreeBlock.ofFields (index : Nat) (fs : Fields) : Except DumpError TreeBlock := do
  let numLeaves ← optional fs "num_leaves" (scalar (Text.natural? 64))
  let numCategorical ← optional fs "num_cat" (scalar (Text.natural? 64))
  let leafValue ← list Binary64.read? "leaf_value" (← required fs (some index) "leaf_value")
  let internalValue ← optionalList fs "internal_value" Binary64.read?
  let b : TreeBlock :=
    { index, numLeaves, numCategorical := numCategorical.getD 0, leafValue, internalValue }
  if loneLeaf fs numLeaves then
    checkSize "leaf_value" leafValue 1
    return b
  else b.readSplits fs

end BoostedTrees
