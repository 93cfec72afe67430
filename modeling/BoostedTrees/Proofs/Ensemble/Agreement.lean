import BoostedTrees.Proofs.Ensemble.Sums
import BoostedTrees.Proofs.Tree.Paths

namespace BoostedTrees

namespace Row

def SameReading (v w : Float) : Prop := (v.isNaN = true ∧ w.isNaN = true) ∨ v = w

theorem feature_of_lt {row : Row} {i : Nat} (h : i < row.size) : row.feature i = row[i] := by
  rw [feature, Array.getElem?_eq_getElem h, Option.getD_some]

theorem isNaN_feature_of_le {row : Row} {i : Nat} (h : row.size ≤ i) :
    (row.feature i).isNaN = true := by
  rw [feature, Array.getElem?_eq_none h, Option.getD_none]
  decide

theorem sameReading_append {row tail : Row} (h : ∀ v ∈ tail, v.isNaN = true) (i : Nat) :
    SameReading (Row.feature (row ++ tail) i) (row.feature i) := by
  by_cases hrow : i < row.size
  · refine .inr ?_
    rw [feature, feature, Array.getElem?_append_left hrow]
  · refine .inl ⟨?_, isNaN_feature_of_le (Nat.not_lt.mp hrow)⟩
    by_cases htail : i < (row ++ tail).size
    · rw [feature_of_lt htail, Array.getElem_append_right (Nat.not_lt.mp hrow)]
      exact h _ (Array.getElem_mem _)
    · exact isNaN_feature_of_le (Nat.not_lt.mp htail)

theorem feature_set {row : Row} {j : Nat} (hj : j < row.size) (v : Float) (i : Nat) :
    Row.feature (row.set j v) i = if j = i then v else row.feature i := by
  rw [feature, feature, Array.getElem?_set hj]
  by_cases hi : j = i
  · rw [if_pos hi, if_pos hi, Option.getD_some]
  · rw [if_neg hi, if_neg hi]

end Row

theorem numericDirection_of_isNaN {v : Float} (hv : v.isNaN = true) (threshold : Float)
    {missing : MissingPolicy} (hmissing : missing ≠ .nan) (fallback : Direction) :
    numericDirection v threshold missing fallback =
      numericDirection Binary64.zero threshold missing fallback := by
  have hpolicy : (missing != .nan) = true := bne_iff_ne.mpr hmissing
  simp only [numericDirection, hv, hpolicy, Bool.and_self, if_true, ite_self]

theorem category?_of_isNaN {v : Float} (hv : v.isNaN = true) : category? v = none := by
  rw [category?, hv, if_pos rfl]

theorem SplitTest.direction_of_sameReading (store : CategorySet) (test : SplitTest) {v w : Float}
    (h : Row.SameReading v w) : test.direction store v = test.direction store w := by
  rcases h with ⟨hv, hw⟩ | rfl
  · cases test with
    | numeric threshold missing fallback =>
        rw [direction, direction]
        by_cases hmissing : missing = .nan
        · rw [hmissing, numericDirection_nan, numericDirection_nan, if_pos hv, if_pos hw]
        · rw [numericDirection_of_isNaN hv _ hmissing, numericDirection_of_isNaN hw _ hmissing]
    | categorical range =>
        rw [direction, direction, categoricalDirection, categoricalDirection,
          category?_of_isNaN hv, category?_of_isNaN hw]
  · rfl

theorem SplitTest.direction_nan_eq_zero (store : CategorySet) {test : SplitTest} {v : Float}
    (hv : v.isNaN = true) (hnumeric : test.isCategorical = false) (hmissing : test.missing ≠ .nan) :
    test.direction store v = test.direction store Binary64.zero := by
  cases test with
  | numeric threshold missing fallback =>
      exact numericDirection_of_isNaN hv threshold hmissing fallback
  | categorical range => exact absurd hnumeric (by simp [isCategorical])

namespace Ensemble

def HasSplit (e : Ensemble) (feature : Nat) (test : SplitTest) : Prop :=
  ∃ t ∈ e.trees, t.root.HasSplit feature test

structure Alike (e : Ensemble) (x : Executor) (row row' : Row) : Prop where
  route : ∀ t ∈ e.trees, t.root.route t.categories row = t.root.route t.categories row'
  eval : ∀ t ∈ e.trees, t.eval row = t.eval row'
  treeValues : e.treeValues row x = e.treeValues row' x
  sums : e.sums? x row = e.sums? x row'
  sumsInto : ∀ buffer, e.sumsInto? x row buffer = e.sumsInto? x row' buffer

variable {e : Ensemble} {x : Executor} {row row' : Row}

theorem Runs.alike (hx : e.Runs x)
    (h : ∀ store feature test, e.HasSplit feature test →
      test.direction store (row.feature feature) = test.direction store (row'.feature feature)) :
    e.Alike x row row' := by
  have hroute : ∀ t ∈ e.trees, t.root.route t.categories row = t.root.route t.categories row' :=
    fun t ht => Node.route_congr fun feature test hsplit => h _ feature test ⟨t, ht, hsplit⟩
  have heval : ∀ t ∈ e.trees, t.eval row = t.eval row' :=
    fun t ht => Node.eval_of_route (hroute t ht)
  have hvalues : e.treeValues row x = e.treeValues row' x := by
    rw [hx.treeValues_eq, hx.treeValues_eq]
    exact List.map_congr_left heval
  have hinto : e.sumsInto? x row = e.sumsInto? x row' := by
    funext buffer
    rw [sumsInto?, sumsInto?, hvalues]
  exact ⟨hroute, heval, hvalues, by rw [sums?, sums?, hinto], congrFun hinto⟩

theorem alike_of_sameReadings (e : Ensemble) (x : Executor) (hx : e.Runs x) :
    (∀ row row' : Row,
      (∀ feature test, e.HasSplit feature test →
        Row.SameReading (row.feature feature) (row'.feature feature)) → e.Alike x row row') ∧
    ∀ row tail : Row, (∀ v ∈ tail, v.isNaN = true) → e.Alike x (row ++ tail) row := by
  have hreadings : ∀ row row' : Row,
      (∀ feature test, e.HasSplit feature test →
        Row.SameReading (row.feature feature) (row'.feature feature)) → e.Alike x row row' :=
    fun row row' h => hx.alike fun store feature test hsplit =>
      test.direction_of_sameReading store (h feature test hsplit)
  exact ⟨hreadings, fun row tail htail =>
    hreadings _ _ fun feature _ _ => Row.sameReading_append htail feature⟩

def mixedPolicies : EnsembleDraft where
  numClasses := 1
  treesPerIteration := 1
  maxFeature := 4
  objectiveName := "regression"
  objectiveConfig := ""
  trees := [
    ⟨0, .split 0 (.numeric (-0.5) .zero .right)
      (.leaf 1) (.split 0 (.numeric 0 .nothing .left) (.leaf 2) (.leaf 3)), .empty⟩,
    ⟨1, .split 1 (.numeric 0.5 .nan .left) (.leaf 4) (.leaf 5), .empty⟩,
    ⟨2, .split 3 (.categorical ⟨0, 1⟩) (.leaf 6) (.leaf 7), ⟨#[6]⟩⟩]

theorem exists_mixedPolicies :
    ∃ e x, ofDraft mixedPolicies = .ok e ∧ e.compile {} = .ok x ∧ e.Runs x := by
  obtain ⟨e, x, he, hx⟩ := Outcome.exists_both_ok (x := ofDraft mixedPolicies)
    (f := fun e => e.compile {}) (by decide +kernel)
  exact ⟨e, x, he, hx, .inr ⟨{}, hx⟩⟩

theorem hasSplit_mixedPolicies (he : e.toEnsembleDraft = mixedPolicies) {feature : Nat}
    {test : SplitTest} (h : e.HasSplit feature test) :
    (feature = 0 ∧ test.isCategorical = false ∧ test.missing ≠ .nan) ∨
      feature = 1 ∨ feature = 3 := by
  obtain ⟨t, ht, hsplit⟩ := h
  rw [he] at ht
  simp only [mixedPolicies, List.mem_cons, List.not_mem_nil, or_false] at ht
  rcases ht with rfl | rfl | rfl <;>
    simp only [Node.hasSplit_split, Node.not_hasSplit_leaf, or_false, false_or] at hsplit
  · rcases hsplit with ⟨rfl, rfl⟩ | ⟨rfl, rfl⟩ <;> exact .inl ⟨rfl, rfl, by decide⟩
  · exact .inr (.inl hsplit.1)
  · exact .inr (.inr hsplit.1)

theorem mixedPolicies_sameReadings :
    ∃ e x, ofDraft mixedPolicies = .ok e ∧ e.compile {} = .ok x ∧ e.Runs x ∧
      (∀ feature test, e.HasSplit feature test →
        Row.SameReading (Row.feature #[0.25, Binary64.nan, 9, Binary64.nan] feature)
          (Row.feature #[0.25] feature)) ∧
      e.Alike x #[0.25, Binary64.nan, 9, Binary64.nan] #[0.25] ∧
      (∀ v ∈ #[Binary64.nan, Binary64.nan], v.isNaN = true) ∧
      e.Alike x (#[0.25] ++ #[Binary64.nan, Binary64.nan]) #[0.25] := by
  obtain ⟨e, x, he, hx, hruns⟩ := exists_mixedPolicies
  obtain ⟨hreadings, htail⟩ := alike_of_sameReadings e x hruns
  have hsame : ∀ feature test, e.HasSplit feature test →
      Row.SameReading (Row.feature #[0.25, Binary64.nan, 9, Binary64.nan] feature)
        (Row.feature #[0.25] feature) := by
    intro feature test h
    rcases hasSplit_mixedPolicies (ofDraft_ok he) h with ⟨rfl, -⟩ | rfl | rfl
    · exact .inr (by decide)
    · exact .inl ⟨by decide, by decide⟩
    · exact .inl ⟨by decide, by decide⟩
  exact ⟨e, x, he, hx, hruns, hsame, hreadings _ _ hsame, by decide,
    htail #[0.25] #[Binary64.nan, Binary64.nan] (by decide)⟩

theorem alike_nan_zero (e : Ensemble) (x : Executor) (hx : e.Runs x) (j : Nat)
    (hj : ∀ test, e.HasSplit j test → test.isCategorical = false ∧ test.missing ≠ .nan)
    (row : Row) (hrow : j < row.size) (v : Float) (hv : v.isNaN = true) :
    e.Alike x (row.set j v) (row.set j Binary64.zero) := by
  refine hx.alike fun store feature test hsplit => ?_
  rw [Row.feature_set hrow, Row.feature_set hrow]
  by_cases hfeature : j = feature
  · subst hfeature
    obtain ⟨hnumeric, hmissing⟩ := hj test hsplit
    rw [if_pos rfl, if_pos rfl, SplitTest.direction_nan_eq_zero store hv hnumeric hmissing]
  · rw [if_neg hfeature, if_neg hfeature]

theorem mixedPolicies_nan_zero :
    ∃ e x, ofDraft mixedPolicies = .ok e ∧ e.compile {} = .ok x ∧ e.Runs x ∧
      (∀ test, e.HasSplit 0 test → test.isCategorical = false ∧ test.missing ≠ .nan) ∧
      e.Alike x #[Binary64.nan, 0.25] #[Binary64.zero, 0.25] := by
  obtain ⟨e, x, he, hx, hruns⟩ := exists_mixedPolicies
  have hzero : ∀ test, e.HasSplit 0 test → test.isCategorical = false ∧ test.missing ≠ .nan := by
    intro test h
    rcases hasSplit_mixedPolicies (ofDraft_ok he) h with ⟨-, htest⟩ | h | h
    · exact htest
    · exact absurd h (by decide)
    · exact absurd h (by decide)
  exact ⟨e, x, he, hx, hruns, hzero, alike_nan_zero e x hruns 0 hzero #[7, 0.25] (by decide)
    Binary64.nan (by decide)⟩

end Ensemble

end BoostedTrees
