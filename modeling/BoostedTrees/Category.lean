import BoostedTrees.Binary64.Truncation

namespace BoostedTrees

structure CategoryRange where
  start : Nat
  stop : Nat
  deriving DecidableEq, Repr

def CategoryRange.length (r : CategoryRange) : Nat := r.stop - r.start

def CategoryRange.isEmpty (r : CategoryRange) : Bool := r.length == 0

structure CategorySet where
  words : Array UInt64
  deriving DecidableEq, Repr

namespace CategorySet

-- the upper half of a word is not used
def categoriesPerWord : Nat := 32

def empty : CategorySet := ⟨#[]⟩

def length (s : CategorySet) : Nat := s.words.size

def isEmpty (s : CategorySet) : Bool := s.words.isEmpty

def Inside (s : CategorySet) (r : CategoryRange) : Prop :=
  r.start ≤ r.stop ∧ r.stop ≤ s.length

instance (s : CategorySet) (r : CategoryRange) : Decidable (s.Inside r) :=
  inferInstanceAs (Decidable (_ ∧ _))

def slice (s : CategorySet) (r : CategoryRange) : CategorySet :=
  ⟨s.words.extract r.start r.stop⟩

def slice? (s : CategorySet) (r : CategoryRange) : Option CategorySet :=
  if s.Inside r then some (s.slice r) else none

def contains (s : CategorySet) (category : Nat) : Bool :=
  match s.words[category / categoriesPerWord]? with
  | some word => word.toNat.testBit (category % categoriesPerWord)
  | none => false

def bit (category : Nat) : UInt64 := UInt64.ofNat (Nat.pow 2 (category % categoriesPerWord))

def insertInPlace (words : Array UInt64) (category : Nat) : Array UInt64 :=
  words.modify (category / categoriesPerWord) fun word => word ||| bit category

def ofList : List Nat → CategorySet
  | [] => empty
  | c :: cs =>
      let words := (cs.foldl max c) / categoriesPerWord + 1
      ⟨(c :: cs).foldl insertInPlace (Array.replicate words 0)⟩

end CategorySet

def category? (value : Float) : Option Nat :=
  if value.isNaN then none
  else
    let n := Binary64.toInt32 value
    if n < 0 then none else some n.toNat

end BoostedTrees
