import BoostedTrees.Registry.Build

namespace BoostedTrees

structure Instance where
  number : Nat
  predictor : Predictor

structure Registry where
  settings : Settings := {}
  cache : List (String × Nat) := []
  nextNumber : Nat := 0

namespace Registry

def forget (r : Registry) (name : String) : Registry :=
  { r with cache := r.cache.filter fun entry => entry.1 != name }

def remember (r : Registry) (name : String) (number : Nat) : Registry :=
  { r with cache := (name, number) :: r.cache.filter fun entry => entry.1 != name }

def release (r : Registry) (name : String) : Bool × Registry :=
  ((r.cache.lookup name).isSome, r.forget name)

def setThreshold (r : Registry) (threshold : Nat) : Registry :=
  { r with settings := { r.settings with generationThreshold := threshold } }

def setCompileEnabled (r : Registry) (enabled : Bool) : Registry :=
  { r with settings := { r.settings with compileEnabled := enabled } }

def describe (r : Registry) : String :=
  "PredictorFactory \x7b config: " ++ r.settings.describe ++ ", cached: " ++
    toString r.cache.length ++ ", .. \x7d"

end Registry

structure Session where
  registry : Registry := {}
  held : List (String × Instance) := []
  files : FileTree := {}

structure GetResult where
  outcome : Except GetFailure Instance
  session : Session
  events : List Event

namespace Session

def living? (s : Session) (lent : List Instance) (number : Nat) : Option Instance :=
  (lent ++ s.held.map Prod.snd).find? fun i => i.number == number

def load (loader : Loader) (files : FileTree) (locator : String) : Except GetFailure Ensemble :=
  match loader.fetch files locator with
  | .bytes content => (Ensemble.ofBytes content).mapError GetFailure.ofModelError
  | .failed e => .error (.load e)
  | .aborted => .error .aborted

def build (loader : Loader) (current : Place) (s : Session) (name locator : String)
    (options : BuildOptions) (events : List Event) : GetResult :=
  match load loader s.files locator with
  | .error e => ⟨.error e, s, events⟩
  | .ok e =>
      let b := Build.run s.registry.settings options name e s.files current
      let number := s.registry.nextNumber
      let registry := { s.registry.remember name number with nextNumber := number + 1 }
      ⟨.ok ⟨number, b.predictor⟩, { s with registry, files := b.files }, events ++ b.events⟩

-- a predictor lent to a caller lives on without a handle
def get (loader : Loader) (current : Place) (s : Session) (lent : List Instance)
    (name locator : String) (options : BuildOptions) : GetResult :=
  if !isModelName name then ⟨.error (.invalidName name), s, []⟩
  else
    match s.registry.cache.lookup name with
    | none => s.build loader current name locator options []
    | some number =>
        match s.living? lent number with
        | some i => ⟨.ok i, s, [.cacheHit name]⟩
        | none =>
            { s with registry := s.registry.forget name }.build loader current name locator options
              [.evicted name]

def getMany? (loader : Loader) (current : Place) (name locator : String) :
    Nat → Session → List Instance → List Event → Option (List Instance × Session × List Event)
  | 0, s, lent, events => some (lent, s, events)
  | n + 1, s, lent, events =>
      let r := s.get loader current lent name locator {}
      match r.outcome with
      | .error .aborted => none
      | .error _ => getMany? loader current name locator n r.session lent (events ++ r.events)
      | .ok i => getMany? loader current name locator n r.session (i :: lent) (events ++ r.events)

def holding? (s : Session) (handle : String) : Option Instance := s.held.lookup handle

def unhold (s : Session) (handle : String) : Session :=
  { s with held := s.held.filter fun h => h.1 != handle }

def hold (s : Session) (handle : String) (i : Instance) : Session :=
  { s with held := (handle, i) :: (s.unhold handle).held }

def isHeld (s : Session) (number : Nat) : Bool := s.held.any fun h => h.2.number == number

def handlesOf (s : Session) (i : Instance) : List String :=
  ((s.held.filter fun h => h.2.number == i.number).map Prod.fst).mergeSort fun a b => decide (a ≤ b)

def evict (s : Session) : Session :=
  { s with registry :=
      { s.registry with cache := s.registry.cache.filter fun entry => s.isHeld entry.2 } }

def liveNames (s : Session) : List String :=
  (s.evict.registry.cache.map Prod.fst).mergeSort fun a b => decide (a ≤ b)

def artifact? (s : Session) (current : Place) (directory name : String) : Option String :=
  match s.files.read current (artifactPath directory name) with
  | .ok bytes =>
      match Text.Utf8.decode bytes with
      | .ok text => some text
      | .error _ => none
  | .error _ => none

end Session

end BoostedTrees
