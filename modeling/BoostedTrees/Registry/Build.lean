import BoostedTrees.Registry.Basic
import BoostedTrees.Routine.Printer

namespace BoostedTrees

structure Build where
  predictor : Predictor
  files : FileTree
  events : List Event

namespace Build

def isEnabled (settings : Settings) (options : BuildOptions) : Bool :=
  options.compile.getD settings.compileEnabled

def attemptsCompile (settings : Settings) (options : BuildOptions) (e : Ensemble) : Bool :=
  isEnabled settings options && e.numTrees ≤ settings.generationThreshold

def choosing (settings : Settings) (options : BuildOptions) (name : String) (e : Ensemble) :
    Event :=
  .choosing name e.numTrees settings.generationThreshold (isEnabled settings options)
    (attemptsCompile settings options e)

def builtEvent (p : Predictor) : Event :=
  .built p.name p.ensemble.numTrees p.ensemble.numClasses p.strategy

def writeArtifact (files : FileTree) (current : Place) (directory name : String) (e : Ensemble) :
    FileTree × Event :=
  let path := artifactPath directory name
  let content := (Routine.text e name).toUTF8.toList
  match files.write current (artifactDirectory directory) (artifactName name) content with
  | (files, true) => (files, .artifactWritten name path)
  | (files, false) => (files, .artifactFailed name path)

def persist (files : FileTree) (current : Place) (options : BuildOptions) (name : String)
    (e : Ensemble) : FileTree × List Event :=
  match options.artifactDirectory with
  | some directory =>
      let (files, event) := writeArtifact files current directory name e
      (files, [event])
  | none => (files, [])

def run (settings : Settings) (options : BuildOptions) (name : String) (e : Ensemble)
    (files : FileTree) (current : Place) : Build :=
  let first := choosing settings options name e
  let finish (p : Predictor) (files : FileTree) (events : List Event) : Build :=
    ⟨p, files, first :: events ++ [builtEvent p]⟩
  if attemptsCompile settings options e then
    match Predictor.compiled name e settings.limits with
    | .ok p =>
        let (files, events) := persist files current options name e
        finish p files events
    | .error reason => finish (.interpreted name e) files [.fallback name reason]
  else finish (.interpreted name e) files []

end Build

end BoostedTrees
