namespace BoostedTrees.Binary64

def signBit : Nat := Nat.pow 2 63

def infinityMagnitude : Nat := 0x7FF0000000000000

def nanMagnitude : Nat := 0x7FF8000000000000

def ofMagnitude (negative : Bool) (magnitude : Nat) : UInt64 :=
  UInt64.ofNat (if negative then signBit + magnitude else magnitude)

-- a Float that is no number has no further content: there is one such value, and all other values
-- are told apart by their bits, so equality of Floats is agreement bit for bit
def nan : Float := Float.ofBits (ofMagnitude false nanMagnitude)

def infinity : Float := Float.ofBits (ofMagnitude false infinityMagnitude)

def zero : Float := Float.ofBits 0

def one : Float := Float.ofBits 0x3FF0000000000000

def isNegative (bits : UInt64) : Bool := signBit ≤ bits.toNat

def magnitude (bits : UInt64) : Nat := bits.toNat % signBit

structure Dyadic where
  significand : Nat
  exponent : Int
  deriving DecidableEq, Repr

def leastExponent : Int := -1074

def Dyadic.ofMagnitude (m : Nat) : Dyadic :=
  if m < Nat.pow 2 52 then ⟨m, leastExponent⟩
  else ⟨Nat.pow 2 52 + m % Nat.pow 2 52, (m / Nat.pow 2 52 : Nat) + leastExponent - 1⟩

inductive Datum where
  | nan
  | infinite (negative : Bool)
  | finite (negative : Bool) (value : Dyadic)

def Datum.ofBits (bits : UInt64) : Datum :=
  let m := Binary64.magnitude bits
  if m < infinityMagnitude then .finite (isNegative bits) (Dyadic.ofMagnitude m)
  else if m = infinityMagnitude then .infinite (isNegative bits)
  else .nan

end BoostedTrees.Binary64
