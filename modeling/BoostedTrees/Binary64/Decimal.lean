import BoostedTrees.Text.Integer
import BoostedTrees.Binary64.Rounding

namespace BoostedTrees.Binary64

structure Decimal where
  coefficient : Nat
  exponent : Int
  deriving DecidableEq, Repr

def digitCount (n : Nat) : Nat := if n = 0 then 0 else (Nat.toDigits 10 n).length

def Decimal.magnitude (x : Decimal) : Nat :=
  let leading : Int := x.exponent + digitCount x.coefficient
  if x.coefficient = 0 then 0
  else if 310 < leading then infinityMagnitude
  else if leading < -330 then 0
  else if 0 ≤ x.exponent then roundQuotient (x.coefficient * Nat.pow 10 x.exponent.toNat) 1
  else roundQuotient x.coefficient (Nat.pow 10 (-x.exponent).toNat)

def isDigit (c : Char) : Bool := (Text.digitValue? c).isSome

def power? : List Char → Option Int
  | '-' :: rest => (Text.digits? rest).map fun n => -(n : Int)
  | '+' :: rest => (Text.digits? rest).map fun n => (n : Int)
  | s => (Text.digits? s).map fun n => (n : Int)

def optionalPower? : List Char → Option Int
  | [] => some 0
  | c :: rest => if c = 'e' ∨ c = 'E' then power? rest else none

def Decimal.ofChars? (s : List Char) : Option Decimal :=
  let whole := s.takeWhile isDigit
  let (fraction, rest) :=
    match s.dropWhile isDigit with
    | '.' :: rest => (rest.takeWhile isDigit, rest.dropWhile isDigit)
    | rest => ([], rest)
  (Text.digits? (whole ++ fraction)).bind fun coefficient =>
    (optionalPower? rest).map fun power => ⟨coefficient, power - fraction.length⟩

def magnitude? (s : List Char) : Option Nat :=
  let lower := s.map Char.toLower
  if lower = "inf".toList ∨ lower = "infinity".toList then some infinityMagnitude
  else if lower = "nan".toList then some nanMagnitude
  else (Decimal.ofChars? s).map Decimal.magnitude

def bits? : List Char → Option UInt64
  | '-' :: rest => (magnitude? rest).map (ofMagnitude true)
  | '+' :: rest => (magnitude? rest).map (ofMagnitude false)
  | s => (magnitude? s).map (ofMagnitude false)

def read? (s : List Char) : Option Float := (bits? s).map Float.ofBits

end BoostedTrees.Binary64
