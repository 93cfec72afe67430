import BoostedTrees.Objective
import BoostedTrees.Text.Quoted
import BoostedTrees.Tree.Visit

namespace BoostedTrees

inductive EnsembleError where
  | noTrees
  | noHeader
  | classesNotPositive (classes : Int)
  | maxFeatureNegative (feature : Int)
  | treesPerIterationNotPositive (trees : Int)
  | unsupportedObjective (name : String)
  | featureOutOfRange (position feature maxFeature : Nat)
  | indexNotDense (index trees : Nat)
  | rangeOutside (position : Nat) (range : CategoryRange) (words : Nat)
  deriving DecidableEq, Repr

namespace EnsembleError

def message : EnsembleError → String
  | .noTrees => "model contains no trees"
  | .noHeader => "model has no meta block"
  | .classesNotPositive n => s!"num_class must be positive, got {n}"
  | .maxFeatureNegative n => s!"max_feature_idx must not be negative, got {n}"
  | .treesPerIterationNotPositive n => s!"num_tree_per_iteration must be positive, got {n}"
  | .unsupportedObjective name => "unsupported objective type: " ++ Text.quoted name
  | .featureOutOfRange position feature maxFeature =>
      s!"tree {position}: split feature {feature} exceeds max_feature_idx {maxFeature}"
  | .indexNotDense index trees =>
      s!"tree index {index} is duplicated or outside [0, {trees})"
  | .rangeOutside position range words =>
      s!"tree {position}: categorical range [{range.start}, {range.stop}) outside bitset of " ++
        s!"{words} words"

end EnsembleError

structure EnsembleDraft where
  numClasses : Nat
  treesPerIteration : Nat
  maxFeature : Nat
  objectiveName : String
  objectiveConfig : String
  trees : List Tree

namespace EnsembleDraft

def claimIndex (taken : Array Bool) (index : Nat) : Except EnsembleError (Array Bool) :=
  if taken[index]? = some false then .ok (taken.set! index true)
  else .error (.indexNotDense index taken.size)

def checkFeature (maxFeature position : Nat) (t : Tree) : Except EnsembleError Unit :=
  match t.maxSplitFeature with
  | some feature =>
      if maxFeature < feature then .error (.featureOutOfRange position feature maxFeature)
      else .ok ()
  | none => .ok ()

def checkRanges (position : Nat) (t : Tree) : Except EnsembleError Unit :=
  match t.rangeOutside? with
  | some range => .error (.rangeOutside position range t.categories.length)
  | none => .ok ()

def checkTree (maxFeature : Nat) (taken : Array Bool) (entry : Tree × Nat) :
    Except EnsembleError (Array Bool) := do
  let taken ← claimIndex taken entry.1.index
  checkFeature maxFeature entry.2 entry.1
  checkRanges entry.2 entry.1
  return taken

def check (d : EnsembleDraft) : Except EnsembleError Objective := do
  if d.trees.isEmpty then throw .noTrees
  if d.numClasses = 0 then throw (.classesNotPositive 0)
  if d.treesPerIteration = 0 then throw (.treesPerIterationNotPositive 0)
  match Objective.ofName? d.objectiveName d.objectiveConfig with
  | none => throw (.unsupportedObjective d.objectiveName)
  | some objective =>
      let _ ← d.trees.zipIdx.foldlM (checkTree d.maxFeature)
        (Array.replicate d.trees.length false)
      return objective

end EnsembleDraft

structure Ensemble extends EnsembleDraft where
  objective : Objective
  accepted : toEnsembleDraft.check = .ok objective

namespace Ensemble

def ofDraft (d : EnsembleDraft) : Except EnsembleError Ensemble :=
  match h : d.check with
  | .ok objective => .ok ⟨d, objective, h⟩
  | .error e => .error e

def numTrees (e : Ensemble) : Nat := e.trees.length

def numFeatures (e : Ensemble) : Nat := e.maxFeature + 1

def hasCategorical (e : Ensemble) : Bool := e.trees.any Tree.hasCategorical

def numNodes (e : Ensemble) : Nat := e.trees.foldr (fun t total => t.numNodes + total) 0

def treeClass (e : Ensemble) (t : Tree) : Nat := t.index % e.numClasses

def treeClasses (e : Ensemble) : List Nat := e.trees.map e.treeClass

def beq (a b : Ensemble) : Bool :=
  a.numClasses == b.numClasses && a.treesPerIteration == b.treesPerIteration &&
    a.maxFeature == b.maxFeature && a.objectiveName == b.objectiveName &&
    a.objectiveConfig == b.objectiveConfig && a.objective == b.objective && a.trees == b.trees

instance : BEq Ensemble := ⟨beq⟩

end Ensemble

end BoostedTrees
