import BoostedTrees.Binary64.Basic

namespace BoostedTrees.Binary64

def Dyadic.floor (x : Dyadic) : Nat :=
  if 0 ≤ x.exponent then x.significand * Nat.pow 2 x.exponent.toNat
  else x.significand / Nat.pow 2 (-x.exponent).toNat

def int32Min : Int := -2147483648

def int32Max : Int := 2147483647

def clamp32 (n : Int) : Int := max int32Min (min int32Max n)

def Datum.toInt32 : Datum → Int
  | .nan => 0
  | .infinite true => int32Min
  | .infinite false => int32Max
  | .finite true x => clamp32 (-(x.floor : Int))
  | .finite false x => clamp32 x.floor

def toInt32 (x : Float) : Int := (Datum.ofBits x.toBits).toInt32

def Datum.toNat : Datum → Nat
  | .finite false x => x.floor
  | _ => 0

def truncate (x : Float) : Nat := (Datum.ofBits x.toBits).toNat

end BoostedTrees.Binary64
