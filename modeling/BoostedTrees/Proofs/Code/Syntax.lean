import BoostedTrees.Proofs.Code.Token

namespace BoostedTrees.Code

inductive UnaryOperator where
  | negate
  | refer
  deriving DecidableEq, Repr

mutual

inductive Term where
  | number (text : List Char)
  | name (path : List String)
  | unary (o : UnaryOperator) (x : Term)
  | binary (o : Operator) (x y : Term)
  | cast (x : Term) (type : String)
  | call (function : String) (arguments : List Term)
  | method (x : Term) (name : String) (arguments : List Term)
  | items (xs : List Term)
  | copies (x count : Term)
  | entry (x index : Term)
  | block (b : Block)
  | choice (condition : Term) (onTrue : Block) (onFalse : Term)
  | selection (x : Term) (name : String) (onSome onNone : Term)

inductive Block where
  | done
  | value (x : Term)
  | bind (name : String) (x : Term) (rest : Block)
  | add (name : String) (index x : Term) (rest : Block)
  | leave (x : Term) (rest : Block)
  | guard (condition : Term) (body rest : Block)

end

structure Function where
  name : String
  parameters : List (String × List Token)
  result : List Token
  body : Block

structure Program where
  constants : List (String × Term) := []
  functions : List Function := []

end BoostedTrees.Code
