import BoostedTrees.Resource.FileTree
import BoostedTrees.Text.Quoted

namespace BoostedTrees

inductive LoadError where
  | notFound (locator : String)
  | unreadable (locator : String) (reason : PathError)
  deriving DecidableEq, Repr

namespace LoadError

def message : LoadError → String
  | .notFound locator => "resource not found: " ++ locator
  | .unreadable locator reason => "failed to read resource " ++ locator ++ ": " ++ reason.reason

def locator : LoadError → String
  | .notFound locator => locator
  | .unreadable locator _ => locator

end LoadError

inductive LoadResult where
  | bytes (content : List UInt8)
  | failed (e : LoadError)
  | aborted

structure Loader where
  fetch : FileTree → String → LoadResult

structure MemoryStore where
  resources : List (String × List UInt8) := []

namespace MemoryStore

def insert (m : MemoryStore) (locator : String) (bytes : List UInt8) : MemoryStore :=
  ⟨(locator, bytes) :: m.resources.filter fun r => r.1 != locator⟩

def ofList (resources : List (String × List UInt8)) : MemoryStore :=
  resources.foldl (fun m r => m.insert r.1 r.2) {}

def length (m : MemoryStore) : Nat := m.resources.length

def isEmpty (m : MemoryStore) : Bool := m.resources.isEmpty

def locators (m : MemoryStore) : List String :=
  (m.resources.map Prod.fst).mergeSort fun a b => decide (a ≤ b)

def describe (m : MemoryStore) : String :=
  "MemoryLoader \x7b locators: " ++ Text.bracketed (m.locators.map Text.quoted) ++ " \x7d"

def open? (m : MemoryStore) (locator : String) : LoadResult :=
  match m.resources.lookup locator with
  | some bytes => .bytes bytes
  | none => .failed (.notFound locator)

end MemoryStore

namespace Loader

def memory (m : MemoryStore) : Loader := ⟨fun _ locator => m.open? locator⟩

def abortingAt (trap : String) (m : MemoryStore) : Loader :=
  ⟨fun _ locator => if locator = trap then .aborted else m.open? locator⟩

def pathOf (root : Option String) (locator : String) : String :=
  match root with
  | some root => FileTree.join root locator
  | none => locator

def files (root : Option String) (current : Place) : Loader :=
  ⟨fun t locator =>
    match t.read current (pathOf root locator) with
    | .ok bytes => .bytes bytes
    | .error .notFound => .failed (.notFound locator)
    | .error reason => .failed (.unreadable locator reason)⟩

end Loader

end BoostedTrees
