import BoostedTrees.Tree.Basic

namespace BoostedTrees

abbrev Row := Array Float

def Row.feature (row : Row) (index : Nat) : Float := (row[index]?).getD Binary64.nan

-- the number of single precision nearest to 10 ^ -35
def zeroThreshold : Float := Float.ofBits 0x38AA95A5C0000000

def isZero (value : Float) : Bool := -zeroThreshold ≤ value && value ≤ zeroThreshold

def numericDirection (value threshold : Float) (missing : MissingPolicy) (fallback : Direction) :
    Direction :=
  let value := if value.isNaN && missing != .nan then Binary64.zero else value
  let isMissing :=
    match missing with
    | .nothing => false
    | .zero => isZero value
    | .nan => value.isNaN
  if isMissing then fallback else if value ≤ threshold then .left else .right

section Numeric

variable (value threshold : Float) (fallback : Direction)

theorem numericDirection_nothing :
    numericDirection value threshold .nothing fallback =
      if (if value.isNaN then Binary64.zero else value) ≤ threshold then .left else .right := by
  have hpolicy : (MissingPolicy.nothing != .nan) = true := rfl
  simp only [numericDirection, hpolicy, Bool.and_true, Bool.false_eq_true, if_false]

theorem numericDirection_zero :
    numericDirection value threshold .zero fallback =
      if value.isNaN || isZero value then fallback
      else if value ≤ threshold then .left else .right := by
  have hzero : isZero Binary64.zero = true := by decide
  have hpolicy : (MissingPolicy.zero != .nan) = true := rfl
  simp only [numericDirection, hpolicy, Bool.and_true]
  cases value.isNaN with
  | true => simp only [Bool.true_or, if_true, hzero]
  | false => simp only [Bool.false_or, Bool.false_eq_true, if_false]

theorem numericDirection_nan :
    numericDirection value threshold .nan fallback =
      if value.isNaN then fallback else if value ≤ threshold then .left else .right := by
  have hpolicy : (MissingPolicy.nan != .nan) = false := rfl
  simp only [numericDirection, hpolicy, Bool.and_false, Bool.false_eq_true, if_false]

end Numeric

def categoricalDirection (value : Float) (set : CategorySet) : Direction :=
  if (category? value).any set.contains then .left else .right

def SplitTest.direction (store : CategorySet) (value : Float) : SplitTest → Direction
  | .numeric threshold missing fallback => numericDirection value threshold missing fallback
  | .categorical range => categoricalDirection value (store.slice range)

def Node.eval (store : CategorySet) (row : Row) : Node → Float
  | .leaf value => value
  | .split feature test l r =>
      if test.direction store (row.feature feature) = .left then l.eval store row
      else r.eval store row

def Tree.eval (t : Tree) (row : Row) : Float := t.root.eval t.categories row

def SplitTest.direction? (store : CategorySet) (value : Float) : SplitTest → Option Direction
  | .numeric threshold missing fallback => some (numericDirection value threshold missing fallback)
  | .categorical range => (store.slice? range).map (categoricalDirection value)

def Node.eval? (store : CategorySet) (row : Row) : Node → Option Float
  | .leaf value => some value
  | .split feature test l r =>
      (test.direction? store (row.feature feature)).bind fun direction =>
        if direction = .left then l.eval? store row else r.eval? store row

def Tree.eval? (t : Tree) (row : Row) : Option Float := t.root.eval? t.categories row

end BoostedTrees
