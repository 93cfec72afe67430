import BoostedTrees.Ensemble.Basic
import BoostedTrees.Tree.Compiled

namespace BoostedTrees

inductive Executor where
  | interpreted
  | compiled (nodes : List CompiledNode)

namespace Ensemble

def compile (e : Ensemble) (limits : CompileLimits) : Except CompileError Executor :=
  if limits.maxNodes < e.numNodes then .error (.tooLarge e.numNodes limits.maxNodes)
  else (e.trees.mapM fun (t : Tree) => t.compile limits).map .compiled

def treeValues (e : Ensemble) (row : Row) : Executor → List Float
  | .interpreted => e.trees.map fun t => t.eval row
  | .compiled nodes => nodes.map fun node => node.eval row

def addTo (slots : Array Float) (entry : Nat × Float) : Array Float :=
  slots.modify entry.1 (· + entry.2)

def sumsInto? (e : Ensemble) (x : Executor) (row : Row) (buffer : Array Float) :
    Option (Array Float) :=
  if buffer.size = e.numClasses then
    some ((e.treeClasses.zip (e.treeValues row x)).foldl addTo (buffer.map fun _ => Binary64.zero))
  else none

-- a slot has eight bytes, and the bytes of a buffer are counted by a signed word of 64 bits
def maxSlots : Nat := (Nat.pow 2 63 - 1) / 8

def newBuffer? (e : Ensemble) : Option (Array Float) :=
  if e.numClasses ≤ maxSlots then some (Array.replicate e.numClasses Binary64.zero) else none

def sums? (e : Ensemble) (x : Executor) (row : Row) : Option (Array Float) :=
  e.newBuffer?.bind (e.sumsInto? x row)

def sumsOfRows? (e : Ensemble) (x : Executor) (rows : List Row) (buffer : Array Float) :
    Option (List (Array Float)) :=
  match rows with
  | [] => some []
  | row :: rest =>
      match e.sumsInto? x row buffer with
      | none => none
      | some buffer => (e.sumsOfRows? x rest buffer).map (buffer :: ·)

end Ensemble

end BoostedTrees
