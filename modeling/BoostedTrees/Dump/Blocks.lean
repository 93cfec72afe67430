import BoostedTrees.Dump.Scan

namespace BoostedTrees

structure LineBlock where
  opening : BlockLine
  number : Nat
  body : List (List Char × Nat)

namespace LineBlock

def endsBlock (line : List Char) : Bool :=
  (Text.trim line).isEmpty || (BlockLine.ofLine? line).isSome

def ofLines : List (List Char × Nat) → List LineBlock
  | [] => []
  | (line, number) :: rest =>
      match BlockLine.ofLine? line with
      | some opening =>
          ⟨opening, number, rest.takeWhile fun entry => !endsBlock entry.1⟩ :: ofLines rest
      | none => ofLines rest

def field (entry : List Char × Nat) : Except DumpError (String × List Char) :=
  match Fields.ofLine? entry.1 with
  | some field => .ok field
  | none => .error (.malformedLine entry.2 (String.ofList entry.1))

def addTo (d : Dump) (b : LineBlock) : Except DumpError Dump := do
  if b.opening = .header ∧ d.header.isSome then throw (.secondHeader b.number)
  let kind ← BlockKind.ofBlockLine b.opening
  let fields ← b.body.mapM field
  d.addBlock ⟨kind, fields.reverse⟩

end LineBlock

def Dump.ofLineBlocks (ls : List (List Char)) : Except DumpError Dump :=
  (LineBlock.ofLines (ls.zipIdx 1)).foldlM LineBlock.addTo {}

end BoostedTrees
