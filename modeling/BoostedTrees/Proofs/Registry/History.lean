import BoostedTrees.Registry.Session

namespace BoostedTrees

inductive Request where
  | get (loader : Loader) (current : Place) (name locator : String) (options : BuildOptions)
      (handle : Option String)
  | release (name : String)
  | names
  | setThreshold (threshold : Nat)
  | setCompileEnabled (enabled : Bool)
  | drop (handle : String)
  | share (handle copy : String)

inductive Reply where
  | given (outcome : Except GetFailure Instance)
  | released (present : Bool)
  | names (names : List String)
  | done

def Request.configure (r : Request) (settings : Settings) : Settings :=
  match r with
  | .setThreshold threshold => { settings with generationThreshold := threshold }
  | .setCompileEnabled enabled => { settings with compileEnabled := enabled }
  | _ => settings

structure Exchange where
  request : Request
  reply : Reply

namespace Exchange

def gives? (x : Exchange) (name : String) : Option Instance :=
  match x.request, x.reply with
  | .get _ _ asked _ _ _, .given (.ok i) => if asked = name then some i else none
  | _, _ => none

def releases (x : Exchange) (name : String) : Bool :=
  match x.request with
  | .release released => released == name
  | _ => false

theorem releases_of_gives {x : Exchange} {asked name : String} {i : Instance}
    (hgives : x.gives? asked = some i) : x.releases name = false := by
  unfold gives? at hgives
  unfold releases
  split at hgives
  · rename_i hrequest _
    rw [hrequest]
  · exact absurd hgives (by simp)

end Exchange

abbrev History := List Exchange

namespace History

def latest? (h : History) (name : String) : Option Instance := h.findSome? fun x => x.gives? name

def releasedSince : History → String → Bool
  | [], _ => false
  | x :: earlier, name => (x.gives? name).isNone && (x.releases name || releasedSince earlier name)

def Gave (h : History) (i : Instance) : Prop := ∃ x ∈ h, ∃ name, x.gives? name = some i

variable {h : History} {x : Exchange} {name : String} {i : Instance}

theorem latest?_of_gives (hgives : x.gives? name = some i) : latest? (x :: h) name = some i := by
  rw [latest?, List.findSome?_cons, hgives]

theorem latest?_of_gives_none (hgives : x.gives? name = none) :
    latest? (x :: h) name = h.latest? name := by
  rw [latest?, List.findSome?_cons, hgives]
  rfl

theorem releasedSince_of_gives (hgives : x.gives? name = some i) :
    releasedSince (x :: h) name = false := by
  rw [releasedSince, hgives]
  rfl

theorem releasedSince_of_gives_none (hgives : x.gives? name = none) :
    releasedSince (x :: h) name = (x.releases name || h.releasedSince name) := by
  rw [releasedSince, hgives]
  rfl

theorem gave_cons : Gave (x :: h) i ↔ (∃ name, x.gives? name = some i) ∨ h.Gave i := by
  simp [Gave]

theorem gave_of_latest? (hlatest : h.latest? name = some i) : h.Gave i := by
  obtain ⟨x, hx, hgives⟩ := List.exists_of_findSome?_eq_some hlatest
  exact ⟨x, hx, name, hgives⟩

end History

namespace Session

def Holds (s : Session) (i : Instance) : Prop := ∃ handle, (handle, i) ∈ s.held

def keep (s : Session) (handle : Option String) (outcome : Except GetFailure Instance) : Session :=
  match handle, outcome with
  | some handle, .ok i => s.hold handle i
  | _, _ => s

def share (s : Session) (handle copy : String) : Session :=
  match s.holding? handle with
  | some i => s.hold copy i
  | none => s

def answer (s : Session) : Request → Reply × Session
  | .get loader current name locator options handle =>
      let r := s.get loader current [] name locator options
      (.given r.outcome, r.session.keep handle r.outcome)
  | .release name =>
      let (present, registry) := s.registry.release name
      (.released present, { s with registry })
  | .names => (.names s.liveNames, s.evict)
  | .setThreshold threshold => (.done, { s with registry := s.registry.setThreshold threshold })
  | .setCompileEnabled enabled =>
      (.done, { s with registry := s.registry.setCompileEnabled enabled })
  | .drop handle => (.done, s.unhold handle)
  | .share handle copy => (.done, s.share handle copy)

end Session

structure Trace where
  session : Session
  history : History

namespace Trace

def start (settings : Settings) (files : FileTree) : Trace :=
  ⟨{ registry := { settings }, files }, []⟩

def step (t : Trace) (request : Request) : Trace :=
  let (reply, session) := t.session.answer request
  ⟨session, ⟨request, reply⟩ :: t.history⟩

def run (settings : Settings) (files : FileTree) (requests : List Request) : Trace :=
  requests.foldl step (start settings files)

structure Live (t : Trace) (name : String) (i : Instance) : Prop where
  latest : t.history.latest? name = some i
  held : t.session.Holds i
  kept : t.history.releasedSince name = false

end Trace

end BoostedTrees
