import BoostedTrees.Proofs.Routine.Reading

namespace BoostedTrees.Routine

open Code

def listType (type : String) : List Token :=
  [.operator .bitAnd, .opening .square, .name type, .closing .square]

def featureFunction : Function where
  name := "feature"
  parameters := [("f", listType "f64"), ("i", [.name "usize"])]
  result := [.name "f64"]
  body := .value (.method (.method (.method (.name ["f"]) "get" [.name ["i"]]) "copied" [])
    "unwrap_or" [.name ["f64", "NAN"]])

def isZeroFunction : Function where
  name := "is_zero"
  parameters := [("v", [.name "f64"])]
  result := [.name "bool"]
  body := .value (.binary .and
    (.binary .ge (.name ["v"]) (.unary .negate (.name ["ZERO_THRESHOLD"])))
    (.binary .le (.name ["v"]) (.name ["ZERO_THRESHOLD"])))

def truncationTerm : Term := .cast (.name ["v"]) "i32"

def bitTerm : Term :=
  .binary .ne
    (.binary .bitAnd
      (.binary .shiftRight (.name ["w"]) (.binary .remainder (.name ["c"]) (.number ['3', '2'])))
      (.number ['1']))
    (.number ['0'])

def lookupTerm : Term :=
  .selection
    (.method (.name ["words"]) "get"
      [.cast (.binary .divide (.name ["c"]) (.number ['3', '2'])) "usize"])
    "w" bitTerm (.name ["false"])

def inBitsetFunction : Function where
  name := "in_bitset"
  parameters := [("words", listType "u64"), ("v", [.name "f64"])]
  result := [.name "bool"]
  body :=
    .guard
      (.binary .or (.method (.name ["v"]) "is_nan" []) (.binary .lt truncationTerm (.number ['0'])))
      (.leave (.name ["false"]) .done)
      (.bind "c" (.cast truncationTerm "u32") (.value lookupTerm))

def zeroThresholdTerm : Term := .cast (.number "1e-35_f32".toList) "f64"

def helpers : List Function := [featureFunction, isZeroFunction, inBitsetFunction]

section Reading

variable (constants : List (String × Term)) (functions : List Function)

theorem reads_featureLines : ReadsLines featureLines ⟨⟨constants, functions⟩, .item, []⟩
    ⟨⟨constants, functions ++ [featureFunction]⟩, .item, []⟩ :=
  reads_of_run rfl

theorem reads_isZeroLines : ReadsLines isZeroLines ⟨⟨constants, functions⟩, .item, []⟩
    ⟨⟨constants, functions ++ [isZeroFunction]⟩, .item, []⟩ :=
  reads_of_run rfl

theorem reads_inBitsetLines : ReadsLines inBitsetLines ⟨⟨constants, functions⟩, .item, []⟩
    ⟨⟨constants, functions ++ [inBitsetFunction]⟩, .item, []⟩ := by
  unfold inBitsetLines
  repeat refine readsLines_cons (reads_of_run rfl) ?_
  exact readsLines_nil _

theorem reads_helperLines : ReadsLines helperLines ⟨⟨constants, []⟩, .item, []⟩
    ⟨⟨constants ++ [("ZERO_THRESHOLD", zeroThresholdTerm)], helpers⟩, .item, []⟩ := by
  have hblank : ∀ p, ReadsLines [""] ⟨p, .item, []⟩ ⟨p, .item, []⟩ := fun p => reads_of_run rfl
  have hthreshold : ReadsLines ["const ZERO_THRESHOLD: f64 = 1e-35_f32 as f64;"]
      ⟨⟨constants, helpers⟩, .item, []⟩
      ⟨⟨constants ++ [("ZERO_THRESHOLD", zeroThresholdTerm)], helpers⟩, .item, []⟩ :=
    reads_of_run rfl
  exact ((reads_featureLines constants []).append ((hblank _).append
    (reads_isZeroLines constants [featureFunction]))).append ((hblank _).append
      (reads_inBitsetLines constants [featureFunction, isZeroFunction])) |>.append
        ((hblank _).append hthreshold)

end Reading

end BoostedTrees.Routine
