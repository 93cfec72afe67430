import BoostedTrees.Routine.Basic

namespace BoostedTrees.Routine

def wordHolds (word : UInt64) (place : Nat) : Bool := (word >>> UInt64.ofNat place) &&& 1 != 0

def inWords (words : Array UInt64) (value : Float) : Bool :=
  if value.isNaN || Binary64.toInt32 value < 0 then false
  else
    let category := (Binary64.toInt32 value).toNat
    match words[category / 32]? with
    | some word => wordHolds word (category % 32)
    | none => false

theorem wordHolds_eq_testBit (word : UInt64) {place : Nat} (h : place < 64) :
    wordHolds word place = word.toNat.testBit place := by
  rw [wordHolds, Nat.testBit, Bool.eq_iff_iff, bne_iff_ne, bne_iff_ne, ne_eq, ne_eq,
    ← UInt64.toNat_inj, UInt64.toNat_and, UInt64.toNat_shiftRight, Nat.and_comm]
  have : (UInt64.ofNat place).toNat = place := by simp; omega
  rw [this, Nat.mod_eq_of_lt h]
  rfl

theorem inWords_eq (set : CategorySet) (value : Float) :
    inWords set.words value = (category? value).any set.contains := by
  unfold inWords category?
  cases value.isNaN with
  | true => rfl
  | false =>
      by_cases h : Binary64.toInt32 value < 0
      · simp [h]
      · cases hw : set.words[(Binary64.toInt32 value).toNat / 32]? with
        | none => simp [h, hw, CategorySet.contains, CategorySet.categoriesPerWord]
        | some word =>
            simp [h, hw, CategorySet.contains, CategorySet.categoriesPerWord,
              wordHolds_eq_testBit word
                (Nat.lt_of_lt_of_le (Nat.mod_lt _ (by decide)) (by decide : 32 ≤ 64))]

def Condition.holds? (row : Row) (bound : Option Float) : Condition → Option Bool
  | .isZero => bound.map fun v => v ≥ -zeroThreshold && v ≤ zeroThreshold
  | .isNan => bound.map Float.isNaN
  | .atMost threshold => bound.map fun v => v ≤ threshold
  | .member set feature => some (inWords set.words (row.feature feature))

namespace Expr

def eval? (row : Row) (bound : Option Float) : Expr → Option Float
  | .number x => some x
  | .bindFeature feature body => body.eval? row (some (row.feature feature))
  | .bindOrZero body =>
      bound.bind fun v => body.eval? row (some (if v.isNaN then Binary64.zero else v))
  | .ifElse condition onTrue onFalse =>
      (condition.holds? row bound).bind fun holds =>
        if holds then onTrue.eval? row bound else onFalse.eval? row bound
  | .ifElseIf first onFirst second onSecond onNeither =>
      (first.holds? row bound).bind fun holds =>
        if holds then onFirst.eval? row bound
        else
          (second.holds? row bound).bind fun holds =>
            if holds then onSecond.eval? row bound else onNeither.eval? row bound

theorem eval?_ofTest (store : CategorySet) (row : Row) (bound : Option Float) (feature : Nat)
    (test : SplitTest) (l r : Expr) (x y : Float) (hl : ∀ b, l.eval? row b = some x)
    (hr : ∀ b, r.eval? row b = some y) :
    (ofTest store feature l r test).eval? row bound =
      some (if test.direction store (row.feature feature) = .left then x else y) := by
  cases test with
  | categorical range =>
      cases h : (category? (row.feature feature)).any (store.slice range).contains <;>
        simp [ofTest, eval?, Condition.holds?, inWords_eq, SplitTest.direction,
          categoricalDirection, h, hl, hr]
  | numeric threshold missing fallback =>
      cases h : (row.feature feature).isNaN <;> cases missing <;> cases fallback <;>
        simp [ofTest, eval?, Condition.holds?, SplitTest.direction, numericDirection, isZero,
          hl, hr, side] <;>
        repeat' split <;> simp_all

theorem eval?_ofNode (store : CategorySet) (row : Row) (bound : Option Float) (n : Node) :
    (ofNode store n).eval? row bound = some (n.eval store row) := by
  induction n generalizing bound with
  | leaf value => rfl
  | split feature test l r ihl ihr =>
      exact eval?_ofTest store row bound feature test _ _ _ _ ihl ihr

theorem eval?_ofTree (t : Tree) (row : Row) : (ofTree t).eval? row none = some (t.eval row) :=
  eval?_ofNode t.categories row none t.root

end Expr

end BoostedTrees.Routine
