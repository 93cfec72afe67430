import BoostedTrees.Ensemble.Executor

namespace BoostedTrees

inductive PredictError where
  | rowTooLong (length limit : Nat)
  | noRow
  | noRoom (classes : Nat)
  deriving DecidableEq, Repr

def PredictError.message : PredictError → String
  | .rowTooLong length limit =>
      s!"feature vector has {length} values, model accepts at most {limit}"
  | .noRow => "no feature vector supplied"
  | .noRoom classes => s!"no room for {classes} classes"

structure Predictor where
  name : String
  ensemble : Ensemble
  executor : Executor

namespace Predictor

def isCompiled (p : Predictor) : Bool :=
  match p.executor with
  | .interpreted => false
  | .compiled _ => true

def strategy (p : Predictor) : String := if p.isCompiled then "compiled" else "interpreted"

def interpreted (name : String) (e : Ensemble) : Predictor := ⟨name, e, .interpreted⟩

def compiled (name : String) (e : Ensemble) (limits : CompileLimits) :
    Except CompileError Predictor :=
  (e.compile limits).map fun x => ⟨name, e, x⟩

def check (p : Predictor) (row : Row) : Except PredictError Unit :=
  if p.ensemble.numFeatures < row.size then .error (.rowTooLong row.size p.ensemble.numFeatures)
  else .ok ()

def sums? (p : Predictor) (row : Row) : Option (List Float) :=
  (p.ensemble.sums? p.executor row).map Array.toList

def raw (p : Predictor) (row : Row) : Except PredictError (List Float) := do
  p.check row
  match p.sums? row with
  | some sums => return sums
  | none => throw (.noRoom p.ensemble.numClasses)

def predict (p : Predictor) (row : Row) : Except PredictError (List Float) :=
  (p.raw row).map fun sums => (p.ensemble.objective.transform? sums).getD []

def raw? (p : Predictor) : Option Row → Except PredictError (List Float)
  | some row => p.raw row
  | none => .error .noRow

def predict? (p : Predictor) : Option Row → Except PredictError (List Float)
  | some row => p.predict row
  | none => .error .noRow

def batch (p : Predictor) (rows : List Row) : Except PredictError (List (List Float)) :=
  rows.mapM p.predict

def parallelBatch (p : Predictor)
    (collect : List (Except PredictError (List Float)) → Except PredictError (List (List Float)))
    (rows : List Row) : Except PredictError (List (List Float)) :=
  collect (rows.map p.predict)

def traversalName (p : Predictor) : String :=
  if p.isCompiled then "lgbm_infer::inference::gbdt::compiled::CompiledTraversal"
  else "lgbm_infer::inference::gbdt::traversal::StandardTraversal"

def describe (p : Predictor) : String :=
  "LgbPredictor \x7b name: " ++ Text.quoted p.name ++ ", inner: " ++
    (if p.isCompiled then "Compiled" else "Interpreted") ++
    "(Predictor \x7b traversal: " ++ Text.quoted p.traversalName ++
    s!", num_trees: {p.ensemble.numTrees}, num_classes: {p.ensemble.numClasses}" ++
    " \x7d), objective: " ++ p.ensemble.objective.describe ++ " \x7d"

end Predictor

end BoostedTrees
