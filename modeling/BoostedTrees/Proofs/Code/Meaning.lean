import BoostedTrees.Binary64.Decimal
import BoostedTrees.Binary64.Truncation
import BoostedTrees.Proofs.Code.Reader

namespace BoostedTrees.Code

inductive Value where
  | float (x : Float)
  | single (x : Float)
  | int (n : Int)
  | bool (b : Bool)
  | list (xs : List Value)
  | option (x : Option Value)
  | unit

inductive Exit where
  | stuck
  | left (v : Value)

abbrev Variables := List (String × Value)

structure Globals where
  constant? : String → Option Value
  call? : String → List Value → Option Value

def orStuck {α : Type} : Option α → Except Exit α
  | some a => .ok a
  | none => .error .stuck

def nearestSingle? (num den : Nat) : Option Float :=
  let e : Int := (Nat.log2 num : Int) - Nat.log2 den - 24
  let (n, d) := Binary64.inUnits num den e
  let place := max (-149) (if n / d < Nat.pow 2 24 then e else e + 1)
  let (n, d) := Binary64.inUnits num den place
  let significand := Binary64.roundToEven n d
  let (n, d) := Binary64.inUnits significand 1 (-place)
  if d * Nat.pow 2 128 ≤ n then none
  else some (Float.ofBits (Binary64.ofMagnitude false (Binary64.roundQuotient n d)))

def single? (s : List Char) : Option Float :=
  (Binary64.Decimal.ofChars? s).bind fun x =>
    if 0 ≤ x.exponent then nearestSingle? (x.coefficient * Nat.pow 10 x.exponent.toNat) 1
    else nearestSingle? x.coefficient (Nat.pow 10 (-x.exponent).toNat)

def isNumberChar (c : Char) : Bool := c.isDigit || c == '.' || c == 'e' || c == '-'

def literal? (s : List Char) : Option Value :=
  let number := s.takeWhile isNumberChar
  let type := (s.dropWhile isNumberChar).dropWhile (· == '_')
  if type = [] then
    if number.all Char.isDigit then (Text.digits? number).map fun n => .int n
    else (Binary64.read? number).map .float
  else if type = ['f', '6', '4'] then (Binary64.read? number).map .float
  else if type = ['f', '3', '2'] then (single? number).map .single
  else none

def reserved? : String → Option Value
  | "false" => some (.bool false)
  | "true" => some (.bool true)
  | _ => none

def floatConstant? : List String → Option Value
  | ["f64", "NAN"] => some (.float Binary64.nan)
  | ["f64", "INFINITY"] => some (.float Binary64.infinity)
  | ["f64", "NEG_INFINITY"] => some (.float (-Binary64.infinity))
  | _ => none

def UnaryOperator.value? : UnaryOperator → Value → Option Value
  | .negate, .float x => some (.float (-x))
  | .negate, .int n => some (.int (-n))
  | .refer, v => some v
  | _, _ => none

def Operator.value? : Operator → Value → Value → Option Value
  | .ne, .int a, .int b => some (.bool (a != b))
  | .lt, .int a, .int b => some (.bool (a < b))
  | .le, .int a, .int b => some (.bool (a ≤ b))
  | .ge, .int a, .int b => some (.bool (b ≤ a))
  | .lt, .float a, .float b => some (.bool (a < b))
  | .le, .float a, .float b => some (.bool (a ≤ b))
  | .ge, .float a, .float b => some (.bool (b ≤ a))
  | .bitAnd, .int (.ofNat a), .int (.ofNat b) => some (.int (a &&& b : Nat))
  | .shiftRight, .int (.ofNat a), .int (.ofNat b) => some (.int (a >>> b : Nat))
  | .divide, .int a, .int b => if b = 0 then none else some (.int (a.tdiv b))
  | .remainder, .int a, .int b => if b = 0 then none else some (.int (a.tmod b))
  | _, _, _ => none

def castTo? : String → Value → Option Value
  | "i32", .float x => some (.int (Binary64.toInt32 x))
  | "u32", .int n => some (.int (n % Nat.pow 2 32))
  | "usize", .int n => some (.int (n % Nat.pow 2 64))
  | "f64", .single x => some (.float x)
  | _, _ => none

def method? : String → Value → List Value → Option Value
  | "is_nan", .float x, [] => some (.bool x.isNaN)
  | "get", .list xs, [.int (.ofNat n)] => some (.option xs[n]?)
  | "copied", .option x, [] => some (.option x)
  | "unwrap_or", .option x, [v] => some (x.getD v)
  | _, _, _ => none

def at? : Value → Value → Option Value
  | .list xs, .int (.ofNat n) => xs[n]?
  | _, _ => none

def copies? : Value → Value → Option Value
  | v, .int (.ofNat n) => some (.list (List.replicate n v))
  | _, _ => none

def addAt? : Value → Value → Value → Option Value
  | .list xs, .int (.ofNat n), .float y =>
      match xs[n]? with
      | some (.float x) => some (.list (xs.set n (.float (x + y))))
      | _ => none
  | _, _, _ => none

def changeFirst? (name : String) (f : Value → Option Value) : Variables → Option Variables
  | [] => none
  | (other, v) :: rest =>
      if other = name then (f v).map fun v => (other, v) :: rest
      else (changeFirst? name f rest).map fun rest => (other, v) :: rest

def Globals.name? (g : Globals) (scope : Variables) : List String → Option Value
  | [name] => (reserved? name).or ((scope.lookup name).or (g.constant? name))
  | path => floatConstant? path

mutual

def Term.eval (g : Globals) (scope : Variables) : Term → Except Exit Value
  | .number s => orStuck (literal? s)
  | .name path => orStuck (g.name? scope path)
  | .unary o x => do orStuck (o.value? (← x.eval g scope))
  | .binary .and x y => do
      match ← x.eval g scope with
      | .bool true => y.eval g scope
      | .bool false => .ok (.bool false)
      | _ => .error .stuck
  | .binary .or x y => do
      match ← x.eval g scope with
      | .bool true => .ok (.bool true)
      | .bool false => y.eval g scope
      | _ => .error .stuck
  | .binary o x y => do
      let v ← x.eval g scope
      orStuck (o.value? v (← y.eval g scope))
  | .cast x type => do orStuck (castTo? type (← x.eval g scope))
  | .call function xs => do orStuck (g.call? function (← evalAll g scope xs))
  | .method x name xs => do
      let v ← x.eval g scope
      orStuck (method? name v (← evalAll g scope xs))
  | .items xs => do return .list (← evalAll g scope xs)
  | .copies x count => do
      let v ← x.eval g scope
      orStuck (copies? v (← count.eval g scope))
  | .entry x index => do
      let v ← x.eval g scope
      orStuck (at? v (← index.eval g scope))
  | .block b => b.eval g scope []
  | .choice condition onTrue onFalse => do
      match ← condition.eval g scope with
      | .bool true => onTrue.eval g scope []
      | .bool false => onFalse.eval g scope
      | _ => .error .stuck
  | .selection x name onSome onNone => do
      match ← x.eval g scope with
      | .option (some v) => onSome.eval g ((name, v) :: scope)
      | .option none => onNone.eval g scope
      | _ => .error .stuck

def evalAll (g : Globals) (scope : Variables) : List Term → Except Exit (List Value)
  | [] => .ok []
  | x :: xs => do
      let v ← x.eval g scope
      return v :: (← evalAll g scope xs)

def Block.eval (g : Globals) (outer own : Variables) : Block → Except Exit Value
  | .done => .ok .unit
  | .value x => x.eval g (own ++ outer)
  | .bind name x rest => do
      let v ← x.eval g (own ++ outer)
      rest.eval g outer ((name, v) :: own)
  | .add name index x rest => do
      let i ← index.eval g (own ++ outer)
      let v ← x.eval g (own ++ outer)
      let own ← orStuck (changeFirst? name (addAt? · i v) own)
      rest.eval g outer own
  | .leave x _ => do throw (.left (← x.eval g (own ++ outer)))
  | .guard condition body rest => do
      match ← condition.eval g (own ++ outer) with
      | .bool true =>
          match ← body.eval g (own ++ outer) [] with
          | .unit => rest.eval g outer own
          | _ => .error .stuck
      | .bool false => rest.eval g outer own
      | _ => .error .stuck

end

attribute [simp] Term.eval evalAll Block.eval

def Function.call? (f : Function) (g : Globals) (values : List Value) : Option Value :=
  if values.length = f.parameters.length then
    match f.body.eval g ((f.parameters.map Prod.fst).zip values) [] with
    | .ok v => some v
    | .error (.left v) => some v
    | .error .stuck => none
  else none

namespace Program

def constant? (p : Program) (name : String) : Option Value :=
  (p.constants.lookup name).bind fun x =>
    (x.eval ⟨fun _ => none, fun _ _ => none⟩ []).toOption

def function? (p : Program) (name : String) : Option Function :=
  p.functions.find? fun f => f.name == name

def call? (p : Program) : Nat → String → List Value → Option Value
  | 0, _, _ => none
  | depth + 1, name, values =>
      (p.function? name).bind fun f => f.call? ⟨p.constant?, p.call? depth⟩ values

example : ((ofText? ("fn f(v: f64) -> f64 \x7b\n" ++
    "    let w = if v <= 2.5 \x7b let v = 3.0; v \x7d else \x7b v \x7d;\n" ++
    "    if w <= v \x7b w \x7d else \x7b v \x7d\n\x7d\n").toList).bind fun p =>
      p.call? 1 "f" [.float Binary64.one]) = some (.float Binary64.one) := rfl

end Program

def Value.isFloat : Value → Bool
  | .float _ => true
  | _ => false

mutual

def Term.endsInNumber : Term → Bool
  | .number s => (literal? s).any Value.isFloat
  | .name path => (floatConstant? path).isSome
  | .unary .negate x => x.endsInNumber
  | .block b => b.endsInNumber
  | .choice _ onTrue onFalse => onTrue.endsInNumber && onFalse.endsInNumber
  | _ => false

def Block.endsInNumber : Block → Bool
  | .value x => x.endsInNumber
  | .bind _ _ rest => rest.endsInNumber
  | _ => false

end

section Evaluation

variable {g : Globals} {scope outer own : Variables} {x y : Term} {v w u : Value} {a b : Bool}

theorem eval_variable {name : String} (hname : reserved? name = none)
    (h : scope.lookup name = some v) : (Term.name [name]).eval g scope = .ok v := by
  rw [Term.eval, Globals.name?, hname, h]
  rfl

theorem eval_constant {name : String} (hname : reserved? name = none)
    (hscope : scope.lookup name = none) (h : g.constant? name = some v) :
    (Term.name [name]).eval g scope = .ok v := by
  rw [Term.eval, Globals.name?, hname, hscope, h]
  rfl

theorem eval_unary {o : UnaryOperator} (hx : x.eval g scope = .ok v) (h : o.value? v = some w) :
    (Term.unary o x).eval g scope = .ok w := by
  rw [Term.eval, hx]
  exact congrArg orStuck h

theorem eval_binary {o : Operator} (hand : o ≠ .and) (hor : o ≠ .or) (hx : x.eval g scope = .ok v)
    (hy : y.eval g scope = .ok w) (h : o.value? v w = some u) :
    (Term.binary o x y).eval g scope = .ok u := by
  rw [Term.eval, hx, hy]
  · exact congrArg orStuck h
  · exact hand
  · exact hor

theorem eval_cast {type : String} (hx : x.eval g scope = .ok v) (h : castTo? type v = some w) :
    (Term.cast x type).eval g scope = .ok w := by
  rw [Term.eval, hx]
  exact congrArg orStuck h

theorem eval_call {function : String} {xs : List Term} {vs : List Value}
    (hxs : evalAll g scope xs = .ok vs) (h : g.call? function vs = some w) :
    (Term.call function xs).eval g scope = .ok w := by
  rw [Term.eval, hxs]
  exact congrArg orStuck h

theorem eval_method {name : String} {xs : List Term} {vs : List Value}
    (hx : x.eval g scope = .ok v) (hxs : evalAll g scope xs = .ok vs)
    (h : method? name v vs = some w) : (Term.method x name xs).eval g scope = .ok w := by
  rw [Term.eval, hx, hxs]
  exact congrArg orStuck h

theorem evalAll_cons {xs : List Term} {vs : List Value} (hx : x.eval g scope = .ok v)
    (hxs : evalAll g scope xs = .ok vs) : evalAll g scope (x :: xs) = .ok (v :: vs) := by
  rw [evalAll, hx, hxs]
  rfl

theorem evalAll_map {α : Type} {f : α → Term} {value : α → Value} (xs : List α)
    (h : ∀ a ∈ xs, (f a).eval g scope = .ok (value a)) :
    evalAll g scope (xs.map f) = .ok (xs.map value) := by
  induction xs with
  | nil => rfl
  | cons a xs ih =>
      exact evalAll_cons (h a List.mem_cons_self) (ih fun b hb => h b (List.mem_cons_of_mem a hb))

theorem eval_and (hx : x.eval g scope = .ok (.bool a)) (hy : y.eval g scope = .ok (.bool b)) :
    (Term.binary .and x y).eval g scope = .ok (.bool (a && b)) := by
  rw [Term.eval, hx]
  cases a with
  | false => rfl
  | true => exact hy

theorem eval_or (hx : x.eval g scope = .ok (.bool a)) (hy : y.eval g scope = .ok (.bool b)) :
    (Term.binary .or x y).eval g scope = .ok (.bool (a || b)) := by
  rw [Term.eval, hx]
  cases a with
  | false => exact hy
  | true => rfl

theorem eval_choice {onTrue : Block} (h : x.eval g scope = .ok (.bool a)) :
    (Term.choice x onTrue y).eval g scope =
      if a then onTrue.eval g scope [] else y.eval g scope := by
  rw [Term.eval, h]
  cases a <;> rfl

theorem eval_bind {name : String} {rest : Block} (h : x.eval g (own ++ outer) = .ok v) :
    (Block.bind name x rest).eval g outer own = rest.eval g outer ((name, v) :: own) := by
  rw [Block.eval, h]
  rfl

theorem eval_guard {unread rest : Block} (h : x.eval g (own ++ outer) = .ok (.bool a))
    (hy : y.eval g (own ++ outer) = .ok v) :
    (Block.guard x (.leave y unread) rest).eval g outer own =
      if a then .error (.left v) else rest.eval g outer own := by
  rw [Block.eval, h]
  cases a with
  | false => rfl
  | true =>
      change ((Block.leave y unread).eval g (own ++ outer) [] >>= _) = _
      rw [Block.eval, List.nil_append, hy]
      rfl

variable {f : Function} {values : List Value}

theorem call?_of_ok (hlength : values.length = f.parameters.length)
    (h : f.body.eval g ((f.parameters.map Prod.fst).zip values) [] = .ok v) :
    f.call? g values = some v := by
  rw [Function.call?, if_pos hlength, h]

theorem call?_of_left (hlength : values.length = f.parameters.length)
    (h : f.body.eval g ((f.parameters.map Prod.fst).zip values) [] = .error (.left v)) :
    f.call? g values = some v := by
  rw [Function.call?, if_pos hlength, h]

theorem Program.function?_of_mem {p : Program} (hnames : (p.functions.map Function.name).Nodup)
    (hf : f ∈ p.functions) : p.function? f.name = some f := by
  rw [Program.function?]
  generalize p.functions = fs at hnames hf ⊢
  induction fs with
  | nil => exact absurd hf List.not_mem_nil
  | cons f' fs ih =>
      obtain ⟨hfirst, hnames⟩ := List.nodup_cons.mp hnames
      rw [List.find?_cons]
      rcases List.mem_cons.mp hf with rfl | hf
      · rw [beq_self_eq_true]
      · have hne : (f'.name == f.name) = false := by
          rw [beq_eq_false_iff_ne]
          intro heq
          exact hfirst (heq ▸ List.mem_map_of_mem hf)
        rw [hne]
        exact ih hnames hf

theorem Program.call?_of_function {p : Program} {name : String} (h : p.function? name = some f)
    (depth : Nat) :
    p.call? (depth + 1) name values = f.call? ⟨p.constant?, p.call? depth⟩ values := by
  rw [Program.call?, h]
  rfl

theorem Program.constant?_of_eval {p : Program} {name : String}
    (h : p.constants.lookup name = some x) (hx : ∀ g scope, x.eval g scope = .ok v) :
    p.constant? name = some v := by
  rw [Program.constant?, h, Option.bind_some, hx]
  rfl

end Evaluation

end BoostedTrees.Code
