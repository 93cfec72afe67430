import BoostedTrees.Ensemble.Basic
import BoostedTrees.Routine.Basic
import BoostedTrees.Text.Line

namespace BoostedTrees.Routine

def indent (level : Nat) : String := String.ofList (List.replicate (4 * level) ' ')

def literal (x : Float) : String :=
  if x.isNaN then "f64::NAN"
  else if x == Binary64.infinity then "f64::INFINITY"
  else if x == -Binary64.infinity then "f64::NEG_INFINITY"
  else Binary64.marked x

def Condition.text : Condition → String
  | .isZero => "is_zero(v)"
  | .isNan => "v.is_nan()"
  | .atMost threshold => "v <= " ++ literal threshold
  | .member set feature =>
      "in_bitset(&" ++ Text.bracketed (set.words.toList.map fun w => toString w.toNat) ++
        ", feature(f, " ++ toString feature ++ "))"

def enclosed (level : Nat) (lines : List String) : List String :=
  (indent (level + 1) ++ "\x7b") :: lines ++ [indent (level + 1) ++ "\x7d"]

def Expr.lines (level : Nat) : Expr → List String
  | .number x => [indent level ++ literal x]
  | .bindFeature feature body =>
      (indent level ++ "let v = feature(f, " ++ toString feature ++ ");") :: body.lines level
  | .bindOrZero body =>
      (indent level ++ "let v = if v.is_nan() \x7b 0.0 \x7d else \x7b v \x7d;") :: body.lines level
  | .ifElse condition onTrue onFalse =>
      (indent level ++ "if " ++ condition.text ++ " \x7b") ::
        enclosed level (onTrue.lines (level + 2)) ++
        (indent level ++ "\x7d else \x7b") ::
        enclosed level (onFalse.lines (level + 2)) ++
        [indent level ++ "\x7d"]
  | .ifElseIf first onFirst second onSecond onNeither =>
      (indent level ++ "if " ++ first.text ++ " \x7b") ::
        onFirst.lines (level + 1) ++
        (indent level ++ "\x7d else if " ++ second.text ++ " \x7b") ::
        enclosed level (onSecond.lines (level + 2)) ++
        (indent level ++ "\x7d else \x7b") ::
        enclosed level (onNeither.lines (level + 2)) ++
        [indent level ++ "\x7d"]

def treeName (t : Tree) : String := "tree_" ++ toString t.index

def treeLines (t : Tree) : List String :=
  ("pub fn " ++ treeName t ++ "(f: &[f64]) -> f64 \x7b") :: (Expr.ofTree t).lines 1 ++ ["\x7d"]

def featureLines : List String := [
  "#[inline(always)]",
  "fn feature(f: &[f64], i: usize) -> f64 \x7b",
  "    f.get(i).copied().unwrap_or(f64::NAN)",
  "\x7d"]

def isZeroLines : List String := [
  "#[inline(always)]",
  "fn is_zero(v: f64) -> bool \x7b",
  "    v >= -ZERO_THRESHOLD && v <= ZERO_THRESHOLD",
  "\x7d"]

def inBitsetLines : List String := [
  "#[inline(always)]",
  "fn in_bitset(words: &[u64], v: f64) -> bool \x7b",
  "    if v.is_nan() || (v as i32) < 0 \x7b",
  "        return false;",
  "    \x7d",
  "    let c = v as i32 as u32;",
  "    match words.get((c / 32) as usize) \x7b",
  "        Some(w) => (w >> (c % 32)) & 1 != 0,",
  "        None => false,",
  "    \x7d",
  "\x7d"]

def helperLines : List String :=
  featureLines ++ "" :: isZeroLines ++ "" :: inBitsetLines ++
    ["", "const ZERO_THRESHOLD: f64 = 1e-35_f32 as f64;"]

def headLines (e : Ensemble) (name : String) : List String := [
  "//! Specialised predictor for model `" ++ name ++ "`.",
  "//! objective: " ++ e.objectiveName ++ " " ++ e.objectiveConfig,
  "",
  "pub const NUM_CLASSES: usize = " ++ toString e.numClasses ++ ";",
  "pub const NUM_FEATURES: usize = " ++ toString e.numFeatures ++ ";",
  ""]

def addLine (e : Ensemble) (t : Tree) : String :=
  indent 1 ++ "raw[" ++ toString (e.treeClass t) ++ "] += " ++ treeName t ++ "(f);"

def sumLines (e : Ensemble) : List String :=
  "pub fn predict_raw(f: &[f64]) -> [f64; NUM_CLASSES] \x7b" ::
    "    let mut raw = [0.0f64; NUM_CLASSES];" ::
    e.trees.map (addLine e) ++ ["    raw", "\x7d"]

def lines (e : Ensemble) (name : String) : List String :=
  headLines e name ++ helperLines ++ (e.trees.flatMap fun t => "" :: treeLines t) ++
    "" :: sumLines e

def text (e : Ensemble) (name : String) : String := Text.unlines (lines e name)

end BoostedTrees.Routine
