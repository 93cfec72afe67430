import BoostedTrees.Binary64.Basic

namespace BoostedTrees.Binary64

def inUnits (num den : Nat) (e : Int) : Nat × Nat :=
  if 0 ≤ e then (num, den * Nat.pow 2 e.toNat) else (num * Nat.pow 2 (-e).toNat, den)

def lastPlace (num den : Nat) : Int :=
  let e : Int := (Nat.log2 num : Int) - Nat.log2 den - 53
  let (n, d) := inUnits num den e
  max leastExponent (if n / d < Nat.pow 2 53 then e else e + 1)

def roundToEven (n d : Nat) : Nat :=
  let q := n / d
  let r := n % d
  if d < 2 * r ∨ (2 * r = d ∧ q % 2 = 1) then q + 1 else q

def roundQuotient (num den : Nat) : Nat :=
  if num = 0 then 0
  else
    let e := lastPlace num den
    let (n, d) := inUnits num den e
    min infinityMagnitude ((e - leastExponent).toNat * Nat.pow 2 52 + roundToEven n d)

end BoostedTrees.Binary64
