import BoostedTrees.Binary64.Basic

namespace BoostedTrees.Binary64

structure Interval where
  lower : Nat
  value : Nat
  upper : Nat
  denominator : Nat
  closed : Bool

def Dyadic.interval (x : Dyadic) : Interval :=
  let m := x.significand
  -- below a power of two the numbers lie twice as close
  let below := if m = Nat.pow 2 52 ∧ leastExponent < x.exponent then 1 else 2
  let e := x.exponent - 2
  let scale := if 0 ≤ e then Nat.pow 2 e.toNat else 1
  { lower := (4 * m - below) * scale
    value := 4 * m * scale
    upper := (4 * m + 2) * scale
    denominator := if 0 ≤ e then 1 else Nat.pow 2 (-e).toNat
    closed := m % 2 == 0 }

def Interval.shift (i : Interval) (power : Int) : Interval :=
  if 0 ≤ power then { i with denominator := i.denominator * Nat.pow 10 power.toNat }
  else
    let f := Nat.pow 10 (-power).toNat
    { i with lower := i.lower * f, value := i.value * f, upper := i.upper * f }

def Interval.contains (i : Interval) (n : Nat) : Bool :=
  let x := n * i.denominator
  if i.closed then i.lower ≤ x && x ≤ i.upper else i.lower < x && x < i.upper

def Interval.nearest? (i : Interval) : Option Nat :=
  let below := i.value / i.denominator
  let above := below + 1
  match i.contains below, i.contains above with
  | true, true =>
      if i.value - below * i.denominator < above * i.denominator - i.value then some below
      else some above
  | true, false => some below
  | false, true => some above
  | false, false => none

def Interval.valueLt (i : Interval) (power : Int) : Bool :=
  let j := i.shift power
  j.value < j.denominator

def Interval.decade (i : Interval) : Int :=
  let e : Int := (Nat.log2 i.value : Int) - Nat.log2 i.denominator
  let estimate := e * 30103 / 100000
  if i.valueLt estimate then estimate
  else if i.valueLt (estimate + 1) then estimate + 1
  else estimate + 2

structure Digits where
  digits : List Char
  point : Int
  deriving DecidableEq, Repr

def Digits.ofNat (n : Nat) (power : Int) : Digits :=
  let ds := Nat.toDigits 10 n
  { digits := (ds.reverse.dropWhile (· == '0')).reverse, point := ds.length + power }

def Interval.search (i : Interval) (decade : Int) (count : Nat) : Nat → Option Digits
  | 0 => none
  | more + 1 =>
      let power := decade - count
      match (i.shift power).nearest? with
      | some n => some (Digits.ofNat n power)
      | none => i.search decade (count + 1) more

def Dyadic.digits (x : Dyadic) : Digits :=
  let i := x.interval
  (i.search i.decade 1 17).getD ⟨['0'], 1⟩

end BoostedTrees.Binary64
