namespace BoostedTrees.Text

def digitValue? (c : Char) : Option Nat :=
  if '0' ≤ c ∧ c ≤ '9' then some (c.toNat - '0'.toNat) else none

def digitsFrom (value : Nat) : List Char → Option Nat
  | [] => some value
  | c :: rest =>
      match digitValue? c with
      | some d => digitsFrom (10 * value + d) rest
      | none => none

def digits? : List Char → Option Nat
  | [] => none
  | s => digitsFrom 0 s

def natural? (width : Nat) (s : List Char) : Option Nat :=
  (digits? (match s with | '+' :: rest => rest | rest => rest)).filter (· < Nat.pow 2 width)

def integer? (width : Nat) : List Char → Option Int
  | '-' :: rest =>
      (digits? rest).bind fun n => if n ≤ Nat.pow 2 (width - 1) then some (-(n : Int)) else none
  | '+' :: rest =>
      (digits? rest).bind fun n => if n < Nat.pow 2 (width - 1) then some (n : Int) else none
  | s => (digits? s).bind fun n => if n < Nat.pow 2 (width - 1) then some (n : Int) else none

end BoostedTrees.Text
