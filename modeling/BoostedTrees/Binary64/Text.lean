import BoostedTrees.Binary64.Shortest

namespace BoostedTrees.Binary64

structure TextStyle where
  markWhole : Bool
  positional : Int → Bool

def plainStyle : TextStyle := ⟨false, fun _ => true⟩

def markedStyle : TextStyle := ⟨true, fun power => -4 ≤ power && power < 16⟩

def zeros (n : Nat) : List Char := List.replicate n '0'

def Digits.positional (x : Digits) (markWhole : Bool) : List Char :=
  if x.point ≤ 0 then '0' :: '.' :: zeros (-x.point).toNat ++ x.digits
  else if x.digits.length ≤ x.point.toNat then
    x.digits ++ zeros (x.point.toNat - x.digits.length) ++ (if markWhole then ['.', '0'] else [])
  else x.digits.take x.point.toNat ++ '.' :: x.digits.drop x.point.toNat

def intChars (n : Int) : List Char :=
  match n with
  | .ofNat n => Nat.toDigits 10 n
  | .negSucc n => '-' :: Nat.toDigits 10 (n + 1)

def Digits.scientific (x : Digits) : List Char :=
  x.digits.take 1 ++ (if x.digits.length ≤ 1 then [] else '.' :: x.digits.drop 1) ++
    'e' :: intChars (x.point - 1)

def Digits.chars (style : TextStyle) (x : Digits) : List Char :=
  if style.positional (x.point - 1) then x.positional style.markWhole else x.scientific

def Dyadic.chars (style : TextStyle) (x : Dyadic) : List Char :=
  if x.significand = 0 then '0' :: (if style.markWhole then ['.', '0'] else [])
  else x.digits.chars style

def sign (negative : Bool) : List Char := if negative then ['-'] else []

def Datum.chars (style : TextStyle) : Datum → List Char
  | .nan => ['N', 'a', 'N']
  | .infinite negative => sign negative ++ ['i', 'n', 'f']
  | .finite negative x => sign negative ++ x.chars style

def plainChars (x : Float) : List Char := (Datum.ofBits x.toBits).chars plainStyle

def plain (x : Float) : String := String.ofList (plainChars x)

def marked (x : Float) : String := String.ofList ((Datum.ofBits x.toBits).chars markedStyle)

end BoostedTrees.Binary64
