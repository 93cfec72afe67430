import BoostedTrees.Proofs.Code.Syntax

namespace BoostedTrees.Code

def Operator.precedence : Operator → Nat
  | .or => 1
  | .and => 2
  | .ne => 3
  | .lt => 3
  | .le => 3
  | .ge => 3
  | .bitAnd => 4
  | .shiftRight => 5
  | .divide => 6
  | .remainder => 6

def castPrecedence : Nat := 7

inductive Statement where
  | bind (name : String) (x : Term)
  | add (name : String) (index x : Term)
  | leave (x : Term)
  | guard (condition : Term) (body : Block)

def Statement.before (b : Block) : Statement → Block
  | .bind name x => .bind name x b
  | .add name index x => .add name index x b
  | .leave x => .leave x b
  | .guard condition body => .guard condition body b

def Block.behind (statements : List Statement) (b : Block) : Block :=
  statements.foldl Statement.before b

inductive Frame where
  | unary (o : UnaryOperator)
  | binary (o : Operator) (x : Term)
  | group
  | arguments (function : String) (xs : List Term)
  | methodArguments (x : Term) (name : String) (xs : List Term)
  | items (xs : List Term)
  | copies (x : Term)
  | entry (x : Term)
  | condition
  | onTrue (condition : Term)
  | onFalse (condition : Term) (onTrue : Block)
  | subject
  | onSome (x : Term) (name : String)
  | onNone (x : Term) (name : String) (onSome : Term)
  | statement
  | block (statements : List Statement)
  | binding (name : String)
  | adding (name : String) (index : Term)
  | leaving
  | constant (name : String)
  | body (name : String) (parameters : List (String × List Token)) (result : List Token)

inductive Focus where
  | item
  | exported
  | constantName
  | constantType (name : String)
  | functionName
  | parameter (function : String) (done : List (String × List Token))
  | parameterType (function : String) (done : List (String × List Token)) (name : String)
      (type : List Token)
  | result (function : String) (parameters : List (String × List Token)) (type : List Token)
  | statement
  | bindingName
  | operand
  | ended (x : Term)
  | closed (x : Term)
  | path (names : List String)
  | methodName (x : Term)
  | castType (x : Term)
  | afterTrue (condition : Term) (onTrue : Block)
  | afterElse (condition : Term) (onTrue : Block)
  | someName (x : Term)
  | lastArm (x : Term)
  | await (t : Token) (ts : List Token) (next : Focus)

structure Reader where
  program : Program
  focus : Focus
  stack : List Frame

namespace Reader

def complete (precedence : Nat) (x : Term) : List Frame → Term × List Frame
  | .unary o :: stack => complete precedence (.unary o x) stack
  | .binary o y :: stack =>
      if precedence ≤ o.precedence then complete precedence (.binary o y x) stack
      else (x, .binary o y :: stack)
  | stack => (x, stack)

def finish (p : Program) (x : Term) : List Frame → Reader
  | .onFalse condition onTrue :: stack => finish p (.choice condition onTrue x) stack
  | .statement :: stack => ⟨p, .closed x, stack⟩
  | stack => ⟨p, .ended x, stack⟩

def closeBlock (p : Program) (b : Block) : List Frame → Reader
  | .onTrue condition :: stack => ⟨p, .afterTrue condition b, stack⟩
  | .body name parameters result :: stack =>
      ⟨{ p with functions := p.functions ++ [⟨name, parameters, result, b⟩] }, .item, stack⟩
  | stack => finish p (.block b) stack

def operand (p : Program) (stack : List Frame) : Token → Option Reader
  | .number s => some ⟨p, .ended (.number s), stack⟩
  | .name s => some ⟨p, .ended (.name [s]), stack⟩
  | .minus => some ⟨p, .operand, .unary .negate :: stack⟩
  | .operator .bitAnd => some ⟨p, .operand, .unary .refer :: stack⟩
  | .opening .round => some ⟨p, .operand, .group :: stack⟩
  | .opening .square => some ⟨p, .operand, .items [] :: stack⟩
  | .opening .curly => some ⟨p, .statement, .block [] :: stack⟩
  | .keyword .condition => some ⟨p, .operand, .condition :: stack⟩
  | .keyword .selection => some ⟨p, .operand, .subject :: stack⟩
  | .closing .round =>
      match stack with
      | .arguments function xs :: stack => some ⟨p, .ended (.call function xs.reverse), stack⟩
      | .methodArguments x name xs :: stack =>
          some ⟨p, .ended (.method x name xs.reverse), stack⟩
      | _ => none
  | .closing .square =>
      match stack with
      | .items xs :: stack => some ⟨p, .ended (.items xs.reverse), stack⟩
      | _ => none
  | _ => none

def statement (p : Program) (stack : List Frame) : Token → Option Reader
  | .closing .curly =>
      match stack with
      | .block statements :: stack => some (closeBlock p (Block.done.behind statements) stack)
      | _ => none
  | .keyword .binding => some ⟨p, .bindingName, stack⟩
  | .keyword .leave => some ⟨p, .operand, .leaving :: stack⟩
  | .keyword .condition => some ⟨p, .operand, .condition :: .statement :: stack⟩
  | .keyword .selection => some ⟨p, .operand, .subject :: .statement :: stack⟩
  | .opening .curly => some ⟨p, .statement, .block [] :: .statement :: stack⟩
  | t => operand p stack t

def comma (p : Program) (x : Term) : List Frame → Option Reader
  | .arguments function xs :: stack => some ⟨p, .operand, .arguments function (x :: xs) :: stack⟩
  | .methodArguments y name xs :: stack =>
      some ⟨p, .operand, .methodArguments y name (x :: xs) :: stack⟩
  | .items xs :: stack => some ⟨p, .operand, .items (x :: xs) :: stack⟩
  | .onSome y name :: stack =>
      some ⟨p, .await (.name "None") [.doubleArrow] .operand, .onNone y name x :: stack⟩
  | .onNone y name onSome :: stack => some ⟨p, .lastArm (.selection y name onSome x), stack⟩
  | _ => none

def semicolon (p : Program) (x : Term) : List Frame → Option Reader
  | .binding name :: .block statements :: stack =>
      some ⟨p, .statement, .block (.bind name x :: statements) :: stack⟩
  | .adding name index :: .block statements :: stack =>
      some ⟨p, .statement, .block (.add name index x :: statements) :: stack⟩
  | .leaving :: .block statements :: stack =>
      some ⟨p, .statement, .block (.leave x :: statements) :: stack⟩
  | .items [] :: stack => some ⟨p, .operand, .copies x :: stack⟩
  | .constant name :: stack =>
      some ⟨{ p with constants := p.constants ++ [(name, x)] }, .item, stack⟩
  | _ => none

def closing (p : Program) (x : Term) (b : Bracket) : List Frame → Option Reader
  | .group :: stack => if b = .round then some ⟨p, .ended x, stack⟩ else none
  | .arguments function xs :: stack =>
      if b = .round then some ⟨p, .ended (.call function (x :: xs).reverse), stack⟩ else none
  | .methodArguments y name xs :: stack =>
      if b = .round then some ⟨p, .ended (.method y name (x :: xs).reverse), stack⟩ else none
  | .items xs :: stack =>
      if b = .square then some ⟨p, .ended (.items (x :: xs).reverse), stack⟩ else none
  | .copies y :: stack => if b = .square then some ⟨p, .ended (.copies y x), stack⟩ else none
  | .entry y :: stack => if b = .square then some ⟨p, .ended (.entry y x), stack⟩ else none
  | .block statements :: stack =>
      if b = .curly then some (closeBlock p ((Block.value x).behind statements) stack) else none
  | _ => none

def ended (p : Program) (x : Term) (stack : List Frame) : Token → Option Reader
  | .twoColons =>
      match x with
      | .name path => some ⟨p, .path path, stack⟩
      | _ => none
  | .dot => some ⟨p, .methodName x, stack⟩
  | .opening .round =>
      match x with
      | .name [function] => some ⟨p, .operand, .arguments function [] :: stack⟩
      | _ => none
  | .opening .square => some ⟨p, .operand, .entry x :: stack⟩
  | .keyword .cast =>
      let (x, stack) := complete castPrecedence x stack
      some ⟨p, .castType x, stack⟩
  | .operator o =>
      let (x, stack) := complete o.precedence x stack
      some ⟨p, .operand, .binary o x :: stack⟩
  | .opening .curly =>
      let (x, stack) := complete 0 x stack
      match stack with
      | .condition :: stack => some ⟨p, .statement, .block [] :: .onTrue x :: stack⟩
      | .subject :: stack => some ⟨p, .await (.name "Some") [.opening .round] (.someName x), stack⟩
      | _ => none
  | .addAssign =>
      match x, stack with
      | .entry (.name [name]) index, .block statements :: stack =>
          some ⟨p, .operand, .adding name index :: .block statements :: stack⟩
      | _, _ => none
  | .comma =>
      let (x, stack) := complete 0 x stack
      comma p x stack
  | .semicolon =>
      let (x, stack) := complete 0 x stack
      semicolon p x stack
  | .closing b =>
      let (x, stack) := complete 0 x stack
      closing p x b stack
  | _ => none

def isTypeToken : Token → Bool
  | .name _ => true
  | .operator .bitAnd => true
  | .opening .square => true
  | .closing .square => true
  | .semicolon => true
  | _ => false

def step (r : Reader) (t : Token) : Option Reader :=
  let p := r.program
  let stack := r.stack
  match r.focus with
  | .item =>
      match t with
      | .hash =>
          some ⟨p, .await (.opening .square) [.name "inline", .opening .round, .name "always",
            .closing .round, .closing .square] .item, stack⟩
      | .keyword .exported => some ⟨p, .exported, stack⟩
      | .keyword .constant => some ⟨p, .constantName, stack⟩
      | .keyword .function => some ⟨p, .functionName, stack⟩
      | _ => none
  | .exported =>
      match t with
      | .keyword .constant => some ⟨p, .constantName, stack⟩
      | .keyword .function => some ⟨p, .functionName, stack⟩
      | _ => none
  | .constantName =>
      match t with
      | .name s => some ⟨p, .await .colon [] (.constantType s), stack⟩
      | _ => none
  | .constantType name =>
      if t = .assign then some ⟨p, .operand, .constant name :: stack⟩
      else if isTypeToken t then some r
      else none
  | .functionName =>
      match t with
      | .name s => some ⟨p, .await (.opening .round) [] (.parameter s []), stack⟩
      | _ => none
  | .parameter function done =>
      match t with
      | .name s => some ⟨p, .await .colon [] (.parameterType function done s []), stack⟩
      | _ => none
  | .parameterType function done name type =>
      if t = .comma then some ⟨p, .parameter function ((name, type.reverse) :: done), stack⟩
      else if t = .closing .round then
        some
          ⟨p, .await .arrow [] (.result function ((name, type.reverse) :: done).reverse []), stack⟩
      else if isTypeToken t then some ⟨p, .parameterType function done name (t :: type), stack⟩
      else none
  | .result function parameters type =>
      if t = .opening .curly then
        some ⟨p, .statement, .block [] :: .body function parameters type.reverse :: stack⟩
      else if isTypeToken t then some ⟨p, .result function parameters (t :: type), stack⟩
      else none
  | .statement => statement p stack t
  | .bindingName =>
      match t with
      | .name s => some ⟨p, .await .assign [] .operand, .binding s :: stack⟩
      | .keyword .mutable => some r
      | _ => none
  | .operand => operand p stack t
  | .ended x => ended p x stack t
  | .closed x =>
      match t, stack with
      | .closing .curly, .block statements :: stack =>
          some (closeBlock p ((Block.value x).behind statements) stack)
      | _, _ => none
  | .path names =>
      match t with
      | .name s => some ⟨p, .ended (.name (names ++ [s])), stack⟩
      | _ => none
  | .methodName x =>
      match t with
      | .name s => some ⟨p, .await (.opening .round) [] .operand, .methodArguments x s [] :: stack⟩
      | _ => none
  | .castType x =>
      match t with
      | .name s => some ⟨p, .ended (.cast x s), stack⟩
      | _ => none
  | .afterTrue condition onTrue =>
      if t = .keyword .otherwise then some ⟨p, .afterElse condition onTrue, stack⟩
      else
        match stack with
        | .statement :: .block statements :: stack =>
            statement p (.block (.guard condition onTrue :: statements) :: stack) t
        | _ => none
  | .afterElse condition onTrue =>
      match t with
      | .keyword .condition => some ⟨p, .operand, .condition :: .onFalse condition onTrue :: stack⟩
      | .opening .curly =>
          some ⟨p, .statement, .block [] :: .onFalse condition onTrue :: stack⟩
      | _ => none
  | .someName x =>
      match t with
      | .name s =>
          some ⟨p, .await (.closing .round) [.doubleArrow] .operand, .onSome x s :: stack⟩
      | _ => none
  | .lastArm x => if t = .closing .curly then some (finish p x stack) else none
  | .await expected ts next =>
      if t = expected then
        match ts with
        | [] => some ⟨p, next, stack⟩
        | expected :: ts => some ⟨p, .await expected ts next, stack⟩
      else none

def start : Reader := ⟨{}, .item, []⟩

end Reader

def read? (ts : List Token) : Option Program :=
  (ts.foldlM Reader.step Reader.start).bind fun r =>
    match r.focus, r.stack with
    | .item, [] => some r.program
    | _, _ => none

def Program.ofText? (s : List Char) : Option Program := (tokens? s).bind read?

example : Program.ofText? "fn f(v: f64) -> f64 \x7b\n    v\n".toList = none := rfl

end BoostedTrees.Code
