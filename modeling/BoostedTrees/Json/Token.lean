namespace BoostedTrees.Json

inductive Token where
  | openList
  | closeList
  | openObject
  | closeObject
  | comma
  | colon
  | null
  | bool (value : Bool)
  | number (text : List Char)
  | string (text : Option String)
  deriving DecidableEq, Repr

-- characters and code points are held newest first; halves of a pair of escapes are still apart
inductive LexState where
  | between
  | word (chars : List Char)
  | string (points : List Nat)
  | escape (points : List Nat)
  | hex (points : List Nat) (digits value : Nat)
  deriving DecidableEq, Repr

structure Lexer where
  state : LexState := .between
  tokens : List Token := []

def isSpace (c : Char) : Bool := c == ' ' || c == '\t' || c == '\n' || c == '\r'

def isDigit (c : Char) : Bool := '0' ≤ c && c ≤ '9'

def afterDigits? (s : List Char) : Option (List Char) :=
  match s with
  | c :: rest => if isDigit c then some (rest.dropWhile isDigit) else none
  | [] => none

def afterWhole? : List Char → Option (List Char)
  | '0' :: rest => some rest
  | s => afterDigits? s

def afterFraction? : List Char → Option (List Char)
  | '.' :: rest => afterDigits? rest
  | s => some s

def afterPower? : List Char → Option (List Char)
  | 'e' :: '+' :: rest | 'e' :: '-' :: rest | 'E' :: '+' :: rest | 'E' :: '-' :: rest
  | 'e' :: rest | 'E' :: rest => afterDigits? rest
  | s => some s

def isNumber (s : List Char) : Bool :=
  let unsigned := match s with | '-' :: rest => rest | rest => rest
  match ((afterWhole? unsigned).bind afterFraction?).bind afterPower? with
  | some [] => true
  | _ => false

def wordToken? (s : List Char) : Option Token :=
  if s = "null".toList then some .null
  else if s = "true".toList then some (.bool true)
  else if s = "false".toList then some (.bool false)
  else if isNumber s then some (.number s)
  else none

def isHighHalf (n : Nat) : Bool := 0xD800 ≤ n && n < 0xDC00

def isLowHalf (n : Nat) : Bool := 0xDC00 ≤ n && n < 0xE000

def joinHalves : List Nat → Option (List Char)
  | [] => some []
  | [n] => if isHighHalf n || isLowHalf n then none else some [Char.ofNat n]
  | high :: low :: rest =>
      if isHighHalf high then
        if isLowHalf low then
          (joinHalves rest).map
            (Char.ofNat (0x10000 + (high - 0xD800) * 0x400 + (low - 0xDC00)) :: ·)
        else none
      else if isLowHalf high then none
      else (joinHalves (low :: rest)).map (Char.ofNat high :: ·)

def stringToken (points : List Nat) : Token :=
  .string ((joinHalves points.reverse).map String.ofList)

def escaped? (c : Char) : Option Nat :=
  match c with
  | '"' => some 0x22
  | '\\' => some 0x5C
  | '/' => some 0x2F
  | 'b' => some 8
  | 'f' => some 0xC
  | 'n' => some 0xA
  | 'r' => some 0xD
  | 't' => some 9
  | _ => none

def hexValue? (c : Char) : Option Nat :=
  if isDigit c then some (c.toNat - '0'.toNat)
  else if 'a' ≤ c ∧ c ≤ 'f' then some (c.toNat - 'a'.toNat + 10)
  else if 'A' ≤ c ∧ c ≤ 'F' then some (c.toNat - 'A'.toNat + 10)
  else none

def punctuation? (c : Char) : Option Token :=
  match c with
  | '[' => some .openList
  | ']' => some .closeList
  | '\x7b' => some .openObject
  | '\x7d' => some .closeObject
  | ',' => some .comma
  | ':' => some .colon
  | _ => none

def Lexer.outside (tokens : List Token) (c : Char) : Lexer :=
  if isSpace c then ⟨.between, tokens⟩
  else if c = '"' then ⟨.string [], tokens⟩
  else
    match punctuation? c with
    | some token => ⟨.between, token :: tokens⟩
    | none => ⟨.word [c], tokens⟩

def endsWord (c : Char) : Bool := isSpace c || c == '"' || (punctuation? c).isSome

def Lexer.step (l : Lexer) (c : Char) : Option Lexer :=
  match l.state with
  | .between => some (Lexer.outside l.tokens c)
  | .word chars =>
      if endsWord c then (wordToken? chars.reverse).map fun t => Lexer.outside (t :: l.tokens) c
      else some { l with state := .word (c :: chars) }
  | .string points =>
      if c = '"' then some ⟨.between, stringToken points :: l.tokens⟩
      else if c = '\\' then some { l with state := .escape points }
      else if c.toNat < 0x20 then none
      else some { l with state := .string (c.toNat :: points) }
  | .escape points =>
      if c = 'u' then some { l with state := .hex points 0 0 }
      else (escaped? c).map fun n => { l with state := .string (n :: points) }
  | .hex points digits value =>
      (hexValue? c).map fun d =>
        let value := value * 16 + d
        if digits = 3 then { l with state := .string (value :: points) }
        else { l with state := .hex points (digits + 1) value }

def Lexer.finish (l : Lexer) : Option (List Token) :=
  match l.state with
  | .between => some l.tokens.reverse
  | .word chars => (wordToken? chars.reverse).map fun t => (t :: l.tokens).reverse
  | _ => none

def tokens? (s : List Char) : Option (List Token) := (s.foldlM Lexer.step {}).bind Lexer.finish

end BoostedTrees.Json
