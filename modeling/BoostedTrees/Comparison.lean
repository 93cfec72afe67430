import BoostedTrees.Binary64.Text
import BoostedTrees.Text.Quoted

namespace BoostedTrees.Comparison

def markedList (xs : List UInt64) : String :=
  Text.bracketed (xs.map fun x => Binary64.marked (Float.ofBits x))

def bitsFault? (actual expected : List UInt64) (context : String) : Option String :=
  if actual = expected then none
  else some (context ++ ": " ++ markedList actual ++ " is not bit-identical to " ++
    markedList expected)

def isNear (actual expected tolerance : Float) : Bool :=
  (actual - expected).abs ≤ tolerance

def pairFault? (tolerance : Float) (context : String) (entry : (Float × Float) × Nat) :
    Option String :=
  let (actual, expected) := entry.1
  if actual.isNaN && expected.isNaN then none
  else if isNear actual expected tolerance then none
  else some (context ++ "[" ++ toString entry.2 ++ "]: " ++ Binary64.plain actual ++ " != " ++
    Binary64.plain expected ++ " (diff=" ++ Binary64.plain (actual - expected).abs ++
    ", tolerance=" ++ Binary64.plain tolerance ++ ")")

def nearFault? (actual expected : List Float) (tolerance : Float) (context : String) :
    Option String :=
  if actual.length ≠ expected.length then
    some (context ++ s!": length mismatch - got {actual.length}, expected {expected.length}")
  else (actual.zip expected).zipIdx.findSome? (pairFault? tolerance context)

end BoostedTrees.Comparison
