import BoostedTrees.Proofs.Routine.Calls

namespace BoostedTrees.Routine

open Code

structure Helps (g : Globals) : Prop where
  feature : ∀ (row : Row) (i : Nat),
    g.call? "feature" [rowValue row, .int i] = some (.float (row.feature i))
  isZero : ∀ x, g.call? "is_zero" [.float x] =
    some (.bool (x ≥ -zeroThreshold && x ≤ zeroThreshold))
  inBitset : ∀ (words : Array UInt64) x,
    g.call? "in_bitset" [.list (words.toList.map wordValue), .float x] =
      some (.bool (inWords words x))

structure Binds (scope : Variables) (row : Row) (bound : Option Float) : Prop where
  row : scope.lookup "f" = some (rowValue row)
  last : ∀ x, bound = some x → scope.lookup "v" = some (.float x)

variable {g : Globals} {scope outer own : Variables} {row : Row} {bound : Option Float}

theorem Binds.bind (h : Binds scope row bound) (x : Float) :
    Binds (("v", .float x) :: scope) row (some x) where
  row := h.row
  last y hy := by
    cases hy
    rfl

theorem eval_numberTerm (n : Nat) : (numberTerm n).eval g scope = .ok (.int n) := by
  rw [numberTerm, Term.eval, literal?_digits]
  rfl

theorem eval_featureTerm (hg : Helps g) (h : Binds scope row bound) (feature : Nat) :
    (featureTerm feature).eval g scope = .ok (.float (row.feature feature)) :=
  eval_call (evalAll_cons (eval_variable rfl h.row) (evalAll_cons (eval_numberTerm feature) rfl))
    (hg.feature row feature)

theorem eval_isNan {x : Float} (h : scope.lookup "v" = some (.float x)) :
    (Term.method (.name ["v"]) "is_nan" []).eval g scope = .ok (.bool x.isNaN) :=
  eval_method (eval_variable rfl h) rfl rfl

theorem eval_orZeroTerm {x : Float} (h : scope.lookup "v" = some (.float x)) :
    orZeroTerm.eval g scope = .ok (.float (if x.isNaN then Binary64.zero else x)) := by
  rw [orZeroTerm, eval_choice (eval_isNan h)]
  split
  · rfl
  · exact eval_variable rfl h

theorem Condition.eval_term (hg : Helps g) (h : Binds scope row bound) {c : Condition}
    {holds : Bool} (hc : c.holds? row bound = some holds) :
    c.term.eval g scope = .ok (.bool holds) := by
  cases c with
  | isZero =>
      obtain ⟨x, hx, rfl⟩ := Option.map_eq_some_iff.mp hc
      exact eval_call (evalAll_cons (eval_variable rfl (h.last x hx)) rfl) (hg.isZero x)
  | isNan =>
      obtain ⟨x, hx, rfl⟩ := Option.map_eq_some_iff.mp hc
      exact eval_isNan (h.last x hx)
  | atMost threshold =>
      obtain ⟨x, hx, rfl⟩ := Option.map_eq_some_iff.mp hc
      exact eval_binary (by decide) (by decide) (eval_variable rfl (h.last x hx))
        (eval_literalTerm threshold g scope) rfl
  | member set feature =>
      obtain rfl := Option.some.inj hc
      have hwords : (Term.items (set.words.toList.map wordTerm)).eval g scope =
          .ok (.list (set.words.toList.map wordValue)) := by
        have hword : ∀ w ∈ set.words.toList, (wordTerm w).eval g scope = .ok (wordValue w) :=
          fun w _ => eval_numberTerm w.toNat
        rw [Term.eval, evalAll_map _ hword]
        rfl
      exact eval_call (evalAll_cons (eval_unary hwords rfl)
        (evalAll_cons (eval_featureTerm hg h feature) rfl)) (hg.inBitset set.words _)

namespace Expr

theorem eval_enclosedBlock (b : Block) :
    (enclosedBlock b).eval g outer own = b.eval g (own ++ outer) [] := by
  rw [enclosedBlock, Block.eval, Term.eval]

theorem eval_block (hg : Helps g) {e : Expr} {x : Float} (h : Binds (own ++ outer) row bound)
    (he : e.eval? row bound = some x) : e.block.eval g outer own = .ok (.float x) := by
  -- a block inside another one starts with no variables of its own, and sees all that are in scope
  induction e generalizing bound outer own with
  | number y =>
      obtain rfl := Option.some.inj he
      exact eval_literalTerm y g _
  | bindFeature feature body ih =>
      rw [block, eval_bind (eval_featureTerm hg h feature)]
      exact ih (h.bind _) he
  | bindOrZero body ih =>
      obtain ⟨v, hv, he⟩ := Option.bind_eq_some_iff.mp he
      rw [block, eval_bind (eval_orZeroTerm (h.last v hv))]
      exact ih (h.bind _) he
  | ifElse condition onTrue onFalse ihTrue ihFalse =>
      obtain ⟨holds, hholds, he⟩ := Option.bind_eq_some_iff.mp he
      rw [block, Block.eval, eval_choice (condition.eval_term hg h hholds), Term.eval,
        eval_enclosedBlock, eval_enclosedBlock]
      split at he
      · next htrue =>
          rw [if_pos htrue]
          exact ihTrue h he
      · next hfalse =>
          rw [if_neg hfalse]
          exact ihFalse h he
  | ifElseIf first onFirst second onSecond onNeither ihFirst ihSecond ihNeither =>
      obtain ⟨holds, hholds, he⟩ := Option.bind_eq_some_iff.mp he
      rw [block, Block.eval, eval_choice (first.eval_term hg h hholds)]
      split at he
      · next htrue =>
          rw [if_pos htrue]
          exact ihFirst h he
      · next hfalse =>
          obtain ⟨holds, hholds, he⟩ := Option.bind_eq_some_iff.mp he
          rw [if_neg hfalse, eval_choice (second.eval_term hg h hholds), Term.eval,
            eval_enclosedBlock, eval_enclosedBlock]
          split at he
          · next htrue =>
              rw [if_pos htrue]
              exact ihSecond h he
          · next hfalse =>
              rw [if_neg hfalse]
              exact ihNeither h he

theorem endsInNumber_block (e : Expr) : e.block.endsInNumber = true := by
  induction e with
  | number x => exact endsInNumber_literalTerm x
  | bindFeature _ body ih => exact ih
  | bindOrZero body ih => exact ih
  | ifElse _ onTrue onFalse ihTrue ihFalse => exact Bool.and_eq_true_iff.mpr ⟨ihTrue, ihFalse⟩
  | ifElseIf _ onFirst _ onSecond onNeither ihFirst ihSecond ihNeither =>
      exact Bool.and_eq_true_iff.mpr ⟨ihFirst, Bool.and_eq_true_iff.mpr ⟨ihSecond, ihNeither⟩⟩

end Expr

end BoostedTrees.Routine
