import BoostedTrees.Binary64.Text
import BoostedTrees.Dump.Basic
import BoostedTrees.Ensemble.Basic

namespace BoostedTrees

structure DecisionFlags where
  categorical : Bool
  defaultLeft : Bool
  missing : MissingPolicy
  deriving DecidableEq, Repr

def DecisionFlags.ofBits (bits : Int) : DecisionFlags where
  categorical := bits % 2 != 0
  defaultLeft := bits / 2 % 2 != 0
  missing := .ofBits (bits / 4 % 4).toNat

inductive ChildRef where
  | split (index : Nat)
  | leaf (index : Nat)
  deriving DecidableEq, Repr

inductive SplitProgress where
  | unseen
  | pending
  | expanded
  | built
  deriving DecidableEq, Repr

namespace TreeBlock

def invalidChild (b : TreeBlock) (node : Nat) (child : Int) : DumpError :=
  .invalidChild b.index node child

def childRef (b : TreeBlock) (node : Nat) (child : Int) : Except DumpError ChildRef :=
  if 0 ≤ child then
    if child.toNat < b.numSplits then .ok (.split child.toNat)
    else .error (b.invalidChild node child)
  else if (-1 - child).toNat < b.leafValue.size then .ok (.leaf (-1 - child).toNat)
  else .error (b.invalidChild node child)

-- 2 ^ 32 - 1
def maxCategoryOffset : Float := Float.ofBits 0x41EFFFFFFFE00000

def categoryRange (b : TreeBlock) (threshold : Float) : Except DumpError CategoryRange :=
  let invalid := DumpError.invalidValue "threshold" (Binary64.plain threshold)
  if Binary64.zero ≤ threshold && threshold ≤ maxCategoryOffset then
    let k := Binary64.truncate threshold
    if b.boundaries.isEmpty then .ok ⟨k, min (k + 1) 0xFFFFFFFF⟩
    else
      match b.boundaries[k]?, b.boundaries[k + 1]? with
      | some start, some stop => .ok ⟨start, stop⟩
      | _, _ => .error invalid
  else .error invalid

def leftAt (b : TreeBlock) (node : Nat) : Int := b.leftChild.getD node 0

def rightAt (b : TreeBlock) (node : Nat) : Int := b.rightChild.getD node 0

def buildSplit (b : TreeBlock) (node : Nat) (l r : Node) : Except DumpError Node :=
  let feature := b.splitFeature.getD node 0
  if feature < 0 then .error (.invalidValue "split_feature" (toString feature))
  else
    let flags := DecisionFlags.ofBits (b.decisionType.getD node 0)
    let threshold := b.threshold.getD node Binary64.zero
    if flags.categorical then
      (b.categoryRange threshold).map fun range => .split feature.toNat (.categorical range) l r
    else
      .ok (.split feature.toNat
        (.numeric threshold flags.missing (.ofDefaultLeft flags.defaultLeft)) l r)

end TreeBlock

structure Assembly where
  progress : Array SplitProgress
  built : Array (Option Node)
  stack : List Nat

namespace Assembly

def start (n : Nat) : Assembly where
  progress := (Array.replicate n SplitProgress.unseen).setIfInBounds 0 .pending
  built := Array.replicate n none
  stack := [0]

def pushChild (b : TreeBlock) (node : Nat) (s : Assembly) (child : Int) :
    Except DumpError Assembly :=
  match b.childRef node child with
  | .error e => .error e
  | .ok (.leaf _) => .ok s
  | .ok (.split i) =>
      let ⟨progress, built, stack⟩ := s
      if progress[i]? = some .unseen then .ok ⟨progress.setIfInBounds i .pending, built, i :: stack⟩
      else .error (b.invalidChild node child)

def takeChild (b : TreeBlock) (node : Nat) (built : Array (Option Node)) (child : Int) :
    Except DumpError (Node × Array (Option Node)) :=
  match b.childRef node child with
  | .error e => .error e
  | .ok (.leaf i) => .ok (.leaf (b.leafValue.getD i Binary64.zero), built)
  | .ok (.split i) =>
      match built[i]?.join with
      | some side => .ok (side, built.setIfInBounds i none)
      | none => .error (b.invalidChild node child)

def build (b : TreeBlock) (node : Nat) (s : Assembly) : Except DumpError Assembly := do
  let ⟨progress, built, stack⟩ := s
  let (l, built) ← takeChild b node built (b.leftAt node)
  let (r, built) ← takeChild b node built (b.rightAt node)
  let split ← b.buildSplit node l r
  return ⟨progress.setIfInBounds node .built, built.setIfInBounds node (some split), stack⟩

def step (b : TreeBlock) (s : Assembly) : Except DumpError Assembly :=
  match s with
  | ⟨progress, built, []⟩ => .ok ⟨progress, built, []⟩
  | ⟨progress, built, node :: rest⟩ =>
      match progress[node]? with
      | some .pending => do
          let s ← pushChild b node ⟨progress.setIfInBounds node .expanded, built, node :: rest⟩
            (b.leftAt node)
          pushChild b node s (b.rightAt node)
      | some .expanded => build b node ⟨progress, built, rest⟩
      | _ => .ok ⟨progress, built, rest⟩

def run (b : TreeBlock) : Nat → Assembly → Except DumpError Assembly
  | 0, s => .ok s
  | fuel + 1, s =>
      if s.stack.isEmpty then .ok s
      else
        match step b s with
        | .ok s => run b fuel s
        | .error e => .error e

end Assembly

namespace TreeBlock

def checkSizes (b : TreeBlock) : Except DumpError Unit := do
  let n := b.numSplits
  let sizes := [("right_child", b.rightChild.size), ("split_feature", b.splitFeature.size),
    ("decision_type", b.decisionType.size), ("threshold", b.threshold.size)]
  match sizes.find? fun size => size.2 != n with
  | some (field, size) => .error (.sizeMismatch field n size)
  | none => .ok ()

def assemble (b : TreeBlock) : Except DumpError Node := do
  let n := b.numSplits
  if n = 0 then throw (.missingField (some b.index) "left_child")
  b.checkSizes
  -- every split is put on the stack once, and two steps take it off again
  let s ← Assembly.run b (2 * n) (.start n)
  match s.built[0]?.join with
  | some root => return root
  | none => throw (b.invalidChild 0 0)

def toTree (b : TreeBlock) : Except DumpError Tree :=
  if b.isSingleLeaf then .ok ⟨b.index, .leaf (b.leafValue.getD 0 Binary64.zero), ⟨b.words⟩⟩
  else b.assemble.map fun root => ⟨b.index, root, ⟨b.words⟩⟩

end TreeBlock

end BoostedTrees
