import BoostedTrees.Binary64.Rounding

namespace BoostedTrees.Binary64

namespace Exp

def fractionBits : Nat := 160

def unit : Nat := Nat.pow 2 fractionBits

-- log 2 as a multiple of 2 ^ -160, rounded down
def logTwo : Nat := 1013035739299659071135698605846798551586536899366

def terms : Nat := 48

def series (r i : Nat) : Nat → Nat
  | 0 => unit
  | more + 1 => unit + r * series r (i + 1) more / (i * unit)

def scaled (negative : Bool) (x : Dyadic) : Int :=
  let e := x.exponent + fractionBits
  let m :=
    if 0 ≤ e then x.significand * Nat.pow 2 e.toNat else x.significand / Nat.pow 2 (-e).toNat
  if negative then -(m : Int) else m

def magnitudeOf (x : Int) : Nat :=
  let k := x / logTwo
  let sum := series (x % logTwo).toNat 1 terms
  if 0 ≤ k then roundQuotient (sum * Nat.pow 2 k.toNat) unit
  else roundQuotient sum (unit * Nat.pow 2 (-k).toNat)

def limit : Int := 800 * unit

def ofDatum : Datum → Nat
  | .nan => nanMagnitude
  | .infinite true => 0
  | .infinite false => infinityMagnitude
  | .finite negative x =>
      let s := scaled negative x
      if limit < s then infinityMagnitude else if s < -limit then 0 else magnitudeOf s

end Exp

def exp (x : Float) : Float :=
  Float.ofBits (ofMagnitude false (Exp.ofDatum (Datum.ofBits x.toBits)))

end BoostedTrees.Binary64
