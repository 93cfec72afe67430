import BoostedTrees.Dump.Ensemble
import BoostedTrees.Predictor
import BoostedTrees.Resource.Loader
import BoostedTrees.Settings

namespace BoostedTrees

def isNameChar (c : Char) : Bool := c.isAlphanum || c == '_'

def isModelName (name : String) : Bool := !name.isEmpty && name.toList.all isNameChar

def artifactName (name : String) : String := "_" ++ name ++ ".rs"

def artifactDirectory (directory : String) : String :=
  FileTree.join (FileTree.join directory "lgbm_infer") "predictor"

def artifactPath (directory name : String) : String :=
  FileTree.join (artifactDirectory directory) (artifactName name)

structure BuildOptions where
  compile : Option Bool := none
  artifactDirectory : Option String := none
  deriving DecidableEq, Repr

inductive GetFailure where
  | invalidName (name : String)
  | load (e : LoadError)
  | dump (e : DumpError)
  | ensemble (e : EnsembleError)
  | aborted
  deriving DecidableEq, Repr

namespace GetFailure

def ofModelError : ModelError → GetFailure
  | .dump e => .dump e
  | .ensemble e => .ensemble e

def message : GetFailure → String
  | .invalidName name => "invalid model name " ++ Text.quoted name ++ ": expected [A-Za-z0-9_]+"
  | .load e => e.message
  | .dump e => "failed to parse model: " ++ e.message
  | .ensemble e => "invalid model: " ++ e.message
  | .aborted => ""

end GetFailure

inductive Event where
  | cacheHit (model : String)
  | evicted (model : String)
  | choosing (model : String) (trees threshold : Nat) (enabled compile : Bool)
  | fallback (model : String) (reason : CompileError)
  | artifactWritten (model path : String)
  | artifactFailed (model path : String)
  | built (model : String) (trees classes : Nat) (strategy : String)
  deriving DecidableEq, Repr

namespace Event

def level : Event → String
  | .built .. => "INFO"
  | .fallback .. | .artifactFailed .. => "WARN"
  | _ => "DEBUG"

def message : Event → String
  | .cacheHit _ => "predictor cache hit"
  | .evicted _ => "evicted released predictor"
  | .choosing .. => "choosing evaluation strategy"
  | .fallback _ reason =>
      "compiled executor unavailable, falling back to interpreter: " ++ reason.message
  | .artifactWritten .. => "wrote compiled artifact"
  | .artifactFailed .. => "failed to write compiled artifact"
  | .built .. => "built predictor"

-- the path of an artifact is in its event, but not among the fields that are shown
def fields : Event → List (String × String)
  | .cacheHit model | .evicted model | .fallback model _ | .artifactWritten model _
  | .artifactFailed model _ => [("model", model)]
  | .choosing model trees threshold enabled compile =>
      [("model", model), ("trees", toString trees), ("threshold", toString threshold),
        ("enabled", toString enabled), ("compile", toString compile)]
  | .built model trees classes strategy =>
      [("model", model), ("trees", toString trees), ("classes", toString classes),
        ("strategy", strategy)]

end Event

end BoostedTrees
