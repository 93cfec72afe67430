import BoostedTrees.Json.Value
import BoostedTrees.Text.Integer
import BoostedTrees.Tree.Compiled

namespace BoostedTrees

structure Settings where
  generationThreshold : Nat := 300
  compileEnabled : Bool := true
  limits : CompileLimits := {}
  deriving DecidableEq, Repr

namespace Json

def Value.size? : Value → Option Nat
  | .number s => if s.all isDigit then Text.natural? 64 s else none
  | _ => none

def Value.bool? : Value → Option Bool
  | .bool b => some b
  | _ => none

structure Field (α : Type) where
  name : String
  put : Value → α → Option α

def putItems {α : Type} : List (Field α) → List Value → α → Option α
  | _, [], a => some a
  | f :: fs, v :: vs, a => (f.put v a).bind (putItems fs vs)
  | [], _ :: _, _ => none

def putMembers {α : Type} (fields : List (Field α)) (seen : List String) :
    List (Option String × Value) → α → Option α
  | [], a => some a
  | (none, _) :: _, _ => none
  | (some key, v) :: rest, a =>
      match fields.find? fun f => f.name == key with
      | none => putMembers fields seen rest a
      | some f =>
          if seen.contains key then none
          else (f.put v a).bind (putMembers fields (key :: seen) rest)

def record? {α : Type} (fields : List (Field α)) (defaults : α) : Value → Option α
  | .list items => putItems fields items defaults
  | .object members => putMembers fields [] members defaults
  | _ => none

end Json

namespace CompileLimits

def fields : List (Json.Field CompileLimits) := [
  ⟨"max_depth", fun v l => v.size?.map fun n => { l with maxDepth := n }⟩,
  ⟨"max_nodes", fun v l => v.size?.map fun n => { l with maxNodes := n }⟩]

def ofValue? (v : Json.Value) : Option CompileLimits := Json.record? fields {} v

def read? (document : String) : Option CompileLimits := (Json.value? document.toList).bind ofValue?

def text (l : CompileLimits) : String :=
  "\x7b\"max_depth\":" ++ toString l.maxDepth ++ ",\"max_nodes\":" ++ toString l.maxNodes ++ "\x7d"

def describe (l : CompileLimits) : String :=
  "CompileLimits \x7b max_depth: " ++ toString l.maxDepth ++ ", max_nodes: " ++
    toString l.maxNodes ++ " \x7d"

end CompileLimits

namespace Settings

def fields : List (Json.Field Settings) := [
  ⟨"generation_threshold", fun v s => v.size?.map fun n => { s with generationThreshold := n }⟩,
  ⟨"enable_compiled_executor", fun v s => v.bool?.map fun b => { s with compileEnabled := b }⟩,
  ⟨"compile_limits", fun v s => (CompileLimits.ofValue? v).map fun l => { s with limits := l }⟩]

def ofValue? (v : Json.Value) : Option Settings := Json.record? fields {} v

def read? (document : String) : Option Settings := (Json.value? document.toList).bind ofValue?

def text (s : Settings) : String :=
  "\x7b\"generation_threshold\":" ++ toString s.generationThreshold ++
    ",\"enable_compiled_executor\":" ++ toString s.compileEnabled ++
    ",\"compile_limits\":" ++ s.limits.text ++ "\x7d"

def describe (s : Settings) : String :=
  "FactoryConfig \x7b generation_threshold: " ++ toString s.generationThreshold ++
    ", enable_compiled_executor: " ++ toString s.compileEnabled ++
    ", compile_limits: " ++ s.limits.describe ++ " \x7d"

end Settings

end BoostedTrees
