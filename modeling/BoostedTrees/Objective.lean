import BoostedTrees.Text.Blank
import BoostedTrees.Binary64.Decimal
import BoostedTrees.Binary64.Exp
import BoostedTrees.Binary64.Text

namespace BoostedTrees

inductive Objective where
  | binary (sigmoid : Float)
  | multiclass
  | regression
  | regressionSqrt
  | exponential
  | passthrough

namespace Objective

def sigmoidScale (config : String) : Float :=
  match config.toList.dropWhile (· != ':') with
  | _ :: rest =>
      match Text.words rest with
      | word :: _ => (Binary64.read? word).getD Binary64.zero
      | [] => Binary64.zero
  | [] => Binary64.zero

def ofName? (name config : String) : Option Objective :=
  if name = "binary" then some (.binary (sigmoidScale config))
  else if name = "multiclass" then some .multiclass
  else if name ∈ ["regression", "regression_l1", "quantile", "huber", "fair", "mape"] then
    some (if config = "sqrt" then .regressionSqrt else .regression)
  else if name ∈ ["poisson", "gamma", "tweedie"] then some .exponential
  else if name ∈ ["cross_entropy", "cross_entropy_lambda"] then some .passthrough
  else none

def isSupported (name : String) : Bool := (ofName? name "").isSome

def beq : Objective → Objective → Bool
  | .binary s, .binary s' => s == s'
  | .multiclass, .multiclass => true
  | .regression, .regression => true
  | .regressionSqrt, .regressionSqrt => true
  | .exponential, .exponential => true
  | .passthrough, .passthrough => true
  | _, _ => false

instance : BEq Objective := ⟨beq⟩

def describe : Objective → String
  | .binary sigmoid => "Binary \x7b sigmoid: " ++ Binary64.marked sigmoid ++ " \x7d"
  | .multiclass => "Multiclass"
  | .regression => "Regression"
  | .regressionSqrt => "RegressionSqrt"
  | .exponential => "Exponential"
  | .passthrough => "Passthrough"

def scaledSigmoid (x scale : Float) : Float :=
  Binary64.one / (Binary64.one + Binary64.exp (-scale * x))

def signedSquare (x : Float) : Float :=
  if x.isNaN then x
  else x * x * (if Binary64.zero ≤ x then Binary64.one else -Binary64.one)

def greatest (first : Float) (rest : List Float) : Float :=
  rest.foldl (fun m x => if m < x then x else m) first

def softmax (first : Float) (rest : List Float) : List Float :=
  let m := greatest first rest
  let powers := (first :: rest).map fun x => Binary64.exp (x - m)
  let total := powers.foldl (· + ·) Binary64.zero
  if total == Binary64.zero then powers else powers.map (· / total)

def transform (first : Float) (rest : List Float) : Objective → List Float
  | .binary sigmoid => [scaledSigmoid first sigmoid]
  | .multiclass => softmax first rest
  | .regression | .passthrough => [first]
  | .regressionSqrt => [signedSquare first]
  | .exponential => [Binary64.exp first]

def transform? (o : Objective) : List Float → Option (List Float)
  | [] => none
  | first :: rest => some (o.transform first rest)

end Objective

end BoostedTrees
