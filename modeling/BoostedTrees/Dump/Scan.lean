import BoostedTrees.Dump.Fields
import BoostedTrees.Text.Line
import BoostedTrees.Text.Utf8

namespace BoostedTrees

inductive BlockLine where
  | header
  | tree (token : List Char)
  deriving DecidableEq, Repr

def headerLine : List Char := ['t', 'r', 'e', 'e']

def treeLineStart : List Char := ['T', 'r', 'e', 'e', '=']

def BlockLine.ofLine? (line : List Char) : Option BlockLine :=
  let line := Text.trimEnd line
  if line = headerLine then some .header
  else if treeLineStart.isPrefixOf line then some (.tree (line.drop treeLineStart.length))
  else none

inductive BlockKind where
  | header
  | tree (index : Nat)
  deriving DecidableEq, Repr

def BlockKind.ofBlockLine : BlockLine → Except DumpError BlockKind
  | .header => .ok .header
  | .tree token => (DumpField.scalar (Text.natural? 64) "Tree" token).map .tree

structure OpenBlock where
  kind : BlockKind
  fields : Fields := []

def Dump.addBlock (d : Dump) (b : OpenBlock) : Except DumpError Dump :=
  match b.kind with
  | .header => (Header.ofFields b.fields).map fun h => { d with header := some h }
  | .tree index =>
      (TreeBlock.ofFields index b.fields).map fun t => { d with trees := d.trees.push t }

structure DumpScan where
  dump : Dump := {}
  block : Option OpenBlock := none

namespace DumpScan

def close (s : DumpScan) : Except DumpError Dump :=
  match s.block with
  | some b => s.dump.addBlock b
  | none => .ok s.dump

def openBlock (d : Dump) (number : Nat) (line : BlockLine) : Except DumpError DumpScan :=
  if line = .header ∧ d.header.isSome then .error (.secondHeader number)
  else (BlockKind.ofBlockLine line).map fun kind => ⟨d, some ⟨kind, []⟩⟩

def addLine (b : OpenBlock) (number : Nat) (line : List Char) : Except DumpError OpenBlock :=
  match Fields.ofLine? line with
  | some field => .ok { b with fields := field :: b.fields }
  | none => .error (.malformedLine number (String.ofList line))

def step (s : DumpScan) (entry : List Char × Nat) : Except DumpError DumpScan :=
  match BlockLine.ofLine? entry.1 with
  | some line => s.close.bind fun d => openBlock d entry.2 line
  | none =>
      if (Text.trim entry.1).isEmpty then s.close.map fun d => ⟨d, none⟩
      else
        match s.block with
        | some b => (addLine b entry.2 entry.1).map fun b => ⟨s.dump, some b⟩
        | none => .ok s

end DumpScan

def Dump.ofCharLines (ls : List (List Char)) : Except DumpError Dump :=
  (((ls.zipIdx 1).foldlM DumpScan.step {}) : Except DumpError DumpScan).bind DumpScan.close

def Dump.ofLines (ls : List String) : Except DumpError Dump := ofCharLines (ls.map String.toList)

def Dump.ofText (text : String) : Except DumpError Dump := ofCharLines (Text.splitLines text.toList)

def Dump.ofBytes (bytes : List UInt8) : Except DumpError Dump :=
  match Text.Utf8.decode bytes with
  | .ok text => ofText text
  | .error validUpTo => .error (.invalidEncoding validUpTo)

end BoostedTrees
