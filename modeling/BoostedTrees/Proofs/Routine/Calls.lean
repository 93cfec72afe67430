import BoostedTrees.Proofs.Routine.Helpers
import BoostedTrees.Routine.Evaluation

namespace BoostedTrees.Routine

open Code

def rowValue (row : Row) : Value := .list (row.toList.map .float)

def wordValue (word : UInt64) : Value := .int word.toNat

variable (g : Globals)

theorem call?_feature (row : Row) (i : Nat) :
    featureFunction.call? g [rowValue row, .int i] = some (.float (row.feature i)) := by
  have hrun : featureFunction.call? g [rowValue row, .int i] =
      some ((row.toList.map Value.float)[i]?.getD (.float Binary64.nan)) := rfl
  rw [hrun, Row.feature]
  simp

theorem call?_isZero (h : g.constant? "ZERO_THRESHOLD" = some (.float zeroThreshold)) (x : Float) :
    isZeroFunction.call? g [.float x] =
      some (.bool (x ≥ -zeroThreshold && x ≤ zeroThreshold)) := by
  have hv : (Term.name ["v"]).eval g [("v", .float x)] = .ok (.float x) := eval_variable rfl rfl
  have hthreshold : (Term.name ["ZERO_THRESHOLD"]).eval g [("v", .float x)] =
      .ok (.float zeroThreshold) := eval_constant rfl rfl h
  have hnegated : (Term.unary .negate (.name ["ZERO_THRESHOLD"])).eval g [("v", .float x)] =
      .ok (.float (-zeroThreshold)) := eval_unary hthreshold rfl
  have hlow := eval_binary (o := .ge) (by decide) (by decide) hv hnegated rfl
  have hhigh := eval_binary (o := .le) (by decide) (by decide) hv hthreshold rfl
  exact call?_of_ok rfl (eval_and hlow hhigh)

theorem toInt32_le (x : Float) : Binary64.toInt32 x ≤ Binary64.int32Max := by
  rw [Binary64.toInt32]
  cases Binary64.Datum.ofBits x.toBits with
  | nan => decide
  | infinite negative => cases negative <;> decide
  | finite negative x =>
      have hclamp : ∀ n, Binary64.clamp32 n ≤ Binary64.int32Max :=
        fun n => max_le (by decide) (min_le_left _ _)
      cases negative
      · exact hclamp _
      · exact hclamp _

theorem eval_bitTerm (scope : Variables) (word : UInt64) (category : Nat)
    (hw : scope.lookup "w" = some (wordValue word)) (hc : scope.lookup "c" = some (.int category)) :
    bitTerm.eval g scope = .ok (.bool (wordHolds word (category % 32))) := by
  have h32 : (Term.number ['3', '2']).eval g scope = .ok (.int 32) := rfl
  have h1 : (Term.number ['1']).eval g scope = .ok (.int 1) := rfl
  have h0 : (Term.number ['0']).eval g scope = .ok (.int 0) := rfl
  have hplace := eval_binary (o := .remainder) (by decide) (by decide) (eval_variable rfl hc) h32
    (u := .int (category % 32 : Nat)) rfl
  have hshift := eval_binary (o := .shiftRight) (by decide) (by decide) (eval_variable rfl hw)
    hplace (u := .int (word.toNat >>> (category % 32) : Nat)) rfl
  have hbit := eval_binary (o := .bitAnd) (by decide) (by decide) hshift h1
    (u := .int (word.toNat >>> (category % 32) &&& 1 : Nat)) rfl
  refine eval_binary (by decide) (by decide) hbit h0 ?_
  have hzero : ∀ k : Nat, ((k : Int) != 0) = (k != 0) := fun k => by
    rw [Bool.eq_iff_iff, bne_iff_ne, bne_iff_ne, ne_eq, ne_eq, Int.natCast_eq_zero]
  rw [wordHolds_eq_testBit word (by omega), Nat.testBit, Nat.and_comm]
  exact congrArg (fun b => some (Value.bool b)) (hzero _)

theorem eval_lookupTerm (scope : Variables) (words : Array UInt64) (category : Nat)
    (hcategory : category < Nat.pow 2 31)
    (hwords : scope.lookup "words" = some (.list (words.toList.map wordValue)))
    (hc : scope.lookup "c" = some (.int category)) :
    lookupTerm.eval g scope = .ok (.bool
      (match words[category / 32]? with
        | some word => wordHolds word (category % 32)
        | none => false)) := by
  have h32 : (Term.number ['3', '2']).eval g scope = .ok (.int 32) := rfl
  have hindex := eval_binary (o := .divide) (by decide) (by decide) (eval_variable rfl hc) h32
    (u := .int (category / 32 : Nat)) rfl
  have hcast : castTo? "usize" (.int (category / 32 : Nat)) =
      some (.int (category / 32 : Nat)) := by
    have hsmall : category / 32 % Nat.pow 2 64 = category / 32 := Nat.mod_eq_of_lt (by
      have : Nat.pow 2 31 < Nat.pow 2 64 := by decide
      omega)
    change some (Value.int ((category / 32 % Nat.pow 2 64 : Nat))) = _
    rw [hsmall]
  have hfound : (Term.method (.name ["words"]) "get"
      [.cast (.binary .divide (.name ["c"]) (.number ['3', '2'])) "usize"]).eval g scope =
      .ok (.option (words.toList.map wordValue)[category / 32]?) :=
    eval_method (eval_variable rfl hwords) (evalAll_cons (eval_cast hindex hcast) rfl) rfl
  rw [List.getElem?_map, Array.getElem?_toList] at hfound
  rw [lookupTerm, Term.eval, hfound]
  cases words[category / 32]? with
  | none => rfl
  | some word => exact eval_bitTerm g (("w", wordValue word) :: scope) word category rfl hc

theorem call?_inBitset (words : Array UInt64) (x : Float) :
    inBitsetFunction.call? g [.list (words.toList.map wordValue), .float x] =
      some (.bool (inWords words x)) := by
  let scope : Variables := [("words", .list (words.toList.map wordValue)), ("v", .float x)]
  have hv : (Term.name ["v"]).eval g scope = .ok (.float x) := eval_variable rfl rfl
  have htruncation : truncationTerm.eval g scope = .ok (.int (Binary64.toInt32 x)) :=
    eval_cast hv rfl
  have hnan : (Term.method (.name ["v"]) "is_nan" []).eval g scope = .ok (.bool x.isNaN) :=
    eval_method hv rfl rfl
  have hnegative : (Term.binary .lt truncationTerm (.number ['0'])).eval g scope =
      .ok (.bool (Binary64.toInt32 x < 0)) :=
    eval_binary (by decide) (by decide) htruncation rfl rfl
  have hguard : inBitsetFunction.body.eval g scope [] =
      if x.isNaN || Binary64.toInt32 x < 0 then .error (.left (.bool false))
      else (Block.bind "c" (.cast truncationTerm "u32") (.value lookupTerm)).eval g scope [] :=
    eval_guard (eval_or hnan hnegative) rfl
  by_cases h : (x.isNaN || Binary64.toInt32 x < 0) = true
  · rw [inWords, if_pos h]
    rw [if_pos h] at hguard
    exact call?_of_left rfl hguard
  · rw [inWords, if_neg h]
    rw [if_neg h] at hguard
    have hnonneg : 0 ≤ Binary64.toInt32 x := by
      by_contra hlow
      exact h (by simp [Int.not_le.mp hlow])
    obtain ⟨category, hcategory⟩ := Int.eq_ofNat_of_zero_le hnonneg
    have hle := toInt32_le x
    rw [hcategory] at htruncation hle ⊢
    have hsmall : category < Nat.pow 2 31 := by
      change (category : Int) ≤ 2147483647 at hle
      change category < 2147483648
      omega
    have hcast : castTo? "u32" (.int category) = some (.int category) := by
      change some (Value.int ((category % Nat.pow 2 32 : Nat))) = _
      rw [Nat.mod_eq_of_lt (Nat.lt_trans hsmall (by decide))]
    refine call?_of_ok rfl (hguard.trans ?_)
    rw [eval_bind (eval_cast htruncation hcast)]
    exact eval_lookupTerm g (("c", .int category) :: scope) words category hsmall rfl rfl

end BoostedTrees.Routine
