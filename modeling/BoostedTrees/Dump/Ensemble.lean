import BoostedTrees.Dump.Assembly
import BoostedTrees.Dump.Scan

namespace BoostedTrees

inductive ModelError where
  | dump (e : DumpError)
  | ensemble (e : EnsembleError)
  deriving DecidableEq, Repr

def ModelError.message : ModelError → String
  | .dump e => e.message
  | .ensemble e => "invalid model: " ++ e.message

namespace Dump

def checkHeader (h : Header) : Except EnsembleError Unit :=
  if h.numClasses ≤ 0 then .error (.classesNotPositive h.numClasses)
  else if h.maxFeature < 0 then .error (.maxFeatureNegative h.maxFeature)
  else if h.treesPerIteration ≤ 0 then .error (.treesPerIterationNotPositive h.treesPerIteration)
  else .ok ()

def draft (h : Header) (trees : List Tree) : EnsembleDraft where
  numClasses := h.numClasses.toNat
  treesPerIteration := h.treesPerIteration.toNat
  maxFeature := h.maxFeature.toNat
  objectiveName := h.objectiveName
  objectiveConfig := h.objectiveConfig
  trees := trees

def toEnsemble (d : Dump) : Except ModelError Ensemble :=
  match d.header with
  | none => .error (.ensemble .noHeader)
  | some h => do
      (checkHeader h).mapError .ensemble
      let trees ← (d.trees.toList.mapM TreeBlock.toTree).mapError ModelError.dump
      (Ensemble.ofDraft (draft h trees)).mapError .ensemble

end Dump

namespace Ensemble

def ofLines (ls : List String) : Except ModelError Ensemble :=
  ((Dump.ofLines ls).mapError ModelError.dump).bind Dump.toEnsemble

def ofText (text : String) : Except ModelError Ensemble :=
  ((Dump.ofText text).mapError ModelError.dump).bind Dump.toEnsemble

def ofBytes (bytes : List UInt8) : Except ModelError Ensemble :=
  ((Dump.ofBytes bytes).mapError ModelError.dump).bind Dump.toEnsemble

end Ensemble

end BoostedTrees
