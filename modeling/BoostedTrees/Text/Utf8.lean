namespace BoostedTrees.Text.Utf8

structure Progress where
  chars : List Char := []
  complete : Nat := 0
  partialCode : Nat := 0
  taken : Nat := 0
  owed : Nat := 0
  least : Nat := 0x80
  greatest : Nat := 0xBF

def Progress.lead (p : Progress) (code owed least greatest : Nat) : Progress :=
  { p with partialCode := code, taken := 1, owed, least, greatest }

def Progress.start (p : Progress) (b : Nat) : Option Progress :=
  if b < 0x80 then
    some { p with chars := Char.ofNat b :: p.chars, complete := p.complete + 1 }
  else if 0xC2 ≤ b ∧ b ≤ 0xDF then some (p.lead (b - 0xC0) 1 0x80 0xBF)
  else if b = 0xE0 then some (p.lead 0 2 0xA0 0xBF)
  else if b = 0xED then some (p.lead 0xD 2 0x80 0x9F)
  else if 0xE1 ≤ b ∧ b ≤ 0xEF then some (p.lead (b - 0xE0) 2 0x80 0xBF)
  else if b = 0xF0 then some (p.lead 0 3 0x90 0xBF)
  else if 0xF1 ≤ b ∧ b ≤ 0xF3 then some (p.lead (b - 0xF0) 3 0x80 0xBF)
  else if b = 0xF4 then some (p.lead 4 3 0x80 0x8F)
  else none

def Progress.continue (p : Progress) (b : Nat) : Option Progress :=
  if p.least ≤ b ∧ b ≤ p.greatest then
    let code := p.partialCode * 64 + (b - 0x80)
    if p.owed = 1 then
      some { chars := Char.ofNat code :: p.chars, complete := p.complete + p.taken + 1 }
    else
      some { p with partialCode := code, taken := p.taken + 1, owed := p.owed - 1,
                    least := 0x80, greatest := 0xBF }
  else none

def Progress.step (p : Progress) (b : UInt8) : Except Nat Progress :=
  match if p.owed = 0 then p.start b.toNat else p.continue b.toNat with
  | some q => .ok q
  | none => .error p.complete

def decode (bytes : List UInt8) : Except Nat String := do
  let p ← bytes.foldlM Progress.step {}
  if p.owed = 0 then .ok (String.ofList p.chars.reverse) else .error p.complete

end BoostedTrees.Text.Utf8
