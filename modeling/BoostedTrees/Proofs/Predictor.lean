import BoostedTrees.Proofs.Dump.Walk
import BoostedTrees.Proofs.Ensemble.Sums

namespace BoostedTrees

namespace Objective

def width (classes : Nat) : Objective → Nat
  | .multiclass => classes
  | _ => 1

theorem length_softmax (first : Float) (rest : List Float) :
    (softmax first rest).length = rest.length + 1 := by
  simp only [softmax]
  split <;> simp

theorem length_transform (first : Float) (rest : List Float) (o : Objective) :
    (o.transform first rest).length = o.width (rest.length + 1) := by
  cases o with
  | multiclass => exact length_softmax first rest
  | binary | regression | regressionSqrt | exponential | passthrough => rfl

theorem transform?_of_pos {sums : List Float} (h : 0 < sums.length) (o : Objective) :
    ∃ out, o.transform? sums = some out ∧ out.length = o.width sums.length := by
  cases sums with
  | nil => exact absurd h (Nat.lt_irrefl 0)
  | cons first rest => exact ⟨_, rfl, length_transform first rest o⟩

end Objective

namespace Ensemble

def checkedSums? (e : Ensemble) (x : Executor) (row : Row) : Option (Array Float) :=
  e.newBuffer?.bind (e.checkedSumsInto? x row)

theorem checkedSums?_eq (e : Ensemble) (x : Executor) (row : Row) :
    e.checkedSums? x row = e.sums? x row :=
  congrArg e.newBuffer?.bind (funext (e.checkedSumsInto?_eq x row))

end Ensemble

structure CollectsInOrder {ε α : Type} (collect : List (Except ε α) → Except ε (List α)) :
    Prop where
  all_ok : ∀ values : List α, collect (values.map .ok) = .ok values
  some_error : ∀ results e, .error e ∈ results →
    ∃ e', .error e' ∈ results ∧ collect results = .error e'

namespace CollectsInOrder

variable {ε α β : Type} {collect : List (Except ε β) → Except ε (List β)}

theorem map_ok (hcollect : CollectsInOrder collect) {f : α → Except ε β} {xs : List α}
    {ys : List β} : collect (xs.map f) = .ok ys ↔ xs.mapM f = .ok ys := by
  have hforward : ∀ ys, xs.mapM f = .ok ys → collect (xs.map f) = .ok ys := by
    intro ys h
    have hmap : xs.map f = ys.map .ok :=
      List.forall₂_eq_eq_eq ▸ List.forall₂_map_left_iff.mpr
        (List.forall₂_map_right_iff.mpr (Outcome.mapM_ok.mp h))
    rw [hmap, hcollect.all_ok]
  refine ⟨fun h => ?_, hforward ys⟩
  cases hmapM : xs.mapM f with
  | ok zs => rw [← hforward zs hmapM, h]
  | error e =>
      -- the first error is among the results, so one of them is kept
      obtain ⟨before, x, after, rfl, -, hx⟩ := Outcome.mapM_error.mp hmapM
      have hmem : .error e ∈ (before ++ x :: after).map f := by simp [hx]
      obtain ⟨e', -, herror⟩ := hcollect.some_error _ e hmem
      exact absurd (h.symm.trans herror) (by simp)

theorem sequential : CollectsInOrder fun results : List (Except ε β) => results.mapM id where
  all_ok values := by
    refine Outcome.mapM_ok.mpr (List.forall₂_map_left_iff.mpr ?_)
    exact List.forall₂_same.mpr fun _ _ => rfl
  some_error results e he := by
    cases hmapM : results.mapM id with
    | ok values =>
        obtain ⟨value, hvalue⟩ := Outcome.exists_mapM_ok.mp ⟨values, hmapM⟩ _ he
        exact absurd hvalue (by simp)
    | error e' =>
        obtain ⟨before, x, after, rfl, -, hx⟩ := Outcome.mapM_error.mp hmapM
        exact ⟨e', by simp [← hx], rfl⟩

end CollectsInOrder

namespace Predictor

variable {p : Predictor} {row : Row}

theorem raw_of_long (h : p.ensemble.numFeatures < row.size) :
    p.raw row = .error (.rowTooLong row.size p.ensemble.numFeatures) := by
  rw [raw, check, if_pos h]
  rfl

theorem raw_of_fits (hx : p.ensemble.Runs p.executor) (h : row.size ≤ p.ensemble.numFeatures) :
    p.raw row = if p.ensemble.numClasses ≤ Ensemble.maxSlots then
      .ok (p.ensemble.classSums row).toList else .error (.noRoom p.ensemble.numClasses) := by
  rw [raw, check, if_neg (not_lt.mpr h), sums?, hx.sums?_eq]
  by_cases hroom : p.ensemble.numClasses ≤ Ensemble.maxSlots
  · rw [if_pos hroom, if_pos hroom]
    rfl
  · rw [if_neg hroom, if_neg hroom]
    rfl

theorem raw_ok (hx : p.ensemble.Runs p.executor) {sums : List Float} :
    p.raw row = .ok sums ↔ row.size ≤ p.ensemble.numFeatures ∧
      p.ensemble.numClasses ≤ Ensemble.maxSlots ∧ sums = (p.ensemble.classSums row).toList := by
  by_cases h : row.size ≤ p.ensemble.numFeatures
  · rw [raw_of_fits hx h]
    split <;> simp [*, eq_comm]
  · rw [raw_of_long (not_le.mp h)]
    simp [h]

theorem raw_error (hx : p.ensemble.Runs p.executor) {e : PredictError} :
    p.raw row = .error e ↔
      (p.ensemble.numFeatures < row.size ∧ e = .rowTooLong row.size p.ensemble.numFeatures) ∨
      (row.size ≤ p.ensemble.numFeatures ∧ Ensemble.maxSlots < p.ensemble.numClasses ∧
        e = .noRoom p.ensemble.numClasses) := by
  by_cases h : row.size ≤ p.ensemble.numFeatures
  · rw [raw_of_fits hx h]
    by_cases hroom : p.ensemble.numClasses ≤ Ensemble.maxSlots
    · simp [hroom, not_lt.mpr h, not_lt.mpr hroom]
    · simp [h, hroom, not_lt.mpr h, not_le.mp hroom, eq_comm]
  · rw [raw_of_long (not_le.mp h)]
    simp [h, not_le.mp h, eq_comm]

theorem raw_tooLong (hx : p.ensemble.Runs p.executor) {length limit : Nat} :
    p.raw row = .error (.rowTooLong length limit) ↔ p.ensemble.numFeatures < row.size ∧
      length = row.size ∧ limit = p.ensemble.numFeatures := by
  simp [raw_error hx]

theorem predict_error {e : PredictError} : p.predict row = .error e ↔ p.raw row = .error e :=
  Outcome.map_error

theorem exists_predict (hx : p.ensemble.Runs p.executor) :
    (∃ out, p.predict row = .ok out) ↔
      row.size ≤ p.ensemble.numFeatures ∧ p.ensemble.numClasses ≤ Ensemble.maxSlots := by
  simp [predict, Outcome.map_ok, raw_ok hx]

theorem raw?_noRow (hx : p.ensemble.Runs p.executor) {row? : Option Row} :
    p.raw? row? = .error .noRow ↔ row? = none := by
  cases row? with
  | none => simp [raw?]
  | some row => simp [raw?, raw_error hx]

theorem predict?_noRow (hx : p.ensemble.Runs p.executor) {row? : Option Row} :
    p.predict? row? = .error .noRow ↔ row? = none := by
  cases row? with
  | none => simp [predict?]
  | some row => simp [predict?, predict_error, raw_error hx]

theorem predict_of_fits (hx : p.ensemble.Runs p.executor)
    (h : row.size ≤ p.ensemble.numFeatures) (hroom : p.ensemble.numClasses ≤ Ensemble.maxSlots) :
    ∃ sums out, p.ensemble.checkedSums? p.executor row = some sums ∧
      p.raw row = .ok sums.toList ∧ sums.size = p.ensemble.numClasses ∧
      p.ensemble.objective.transform? sums.toList = some out ∧ p.predict row = .ok out ∧
      out.length = p.ensemble.objective.width p.ensemble.numClasses := by
  have hraw := (raw_ok hx).mpr ⟨h, hroom, rfl⟩
  have hsize : (p.ensemble.classSums row).size = p.ensemble.numClasses := Array.size_ofFn
  have hlength : (p.ensemble.classSums row).toList.length = p.ensemble.numClasses := by
    rw [Array.length_toList, hsize]
  obtain ⟨out, hout, hwidth⟩ := Objective.transform?_of_pos (hlength ▸ p.ensemble.numClasses_pos)
    p.ensemble.objective
  refine ⟨p.ensemble.classSums row, out, ?_, hraw, hsize, hout, ?_, hlength ▸ hwidth⟩
  · rw [Ensemble.checkedSums?_eq, hx.sums?_eq, if_pos hroom]
  · rw [predict, hraw, Except.map, hout, Option.getD_some]

theorem batch_ok {rows : List Row} {outs : List (List Float)} : p.batch rows = .ok outs ↔
    List.Forall₂ (fun row out => p.predict row = .ok out) rows outs :=
  Outcome.mapM_ok

theorem batch_error {rows : List Row} {e : PredictError} : p.batch rows = .error e ↔
    ∃ before row after, rows = before ++ row :: after ∧
      (∀ r ∈ before, ∃ out, p.predict r = .ok out) ∧ p.predict row = .error e :=
  Outcome.mapM_error

structure Contract (p : Predictor) : Prop where
  limit_lt : p.ensemble.maxFeature + 1 < Nat.pow 2 64
  raw_tooLong : ∀ row length limit, p.raw row = .error (.rowTooLong length limit) ↔
    p.ensemble.maxFeature + 1 < row.size ∧ length = row.size ∧ limit = p.ensemble.maxFeature + 1
  predict_tooLong : ∀ row length limit, p.predict row = .error (.rowTooLong length limit) ↔
    p.ensemble.maxFeature + 1 < row.size ∧ length = row.size ∧ limit = p.ensemble.maxFeature + 1
  raw?_noRow : ∀ row?, p.raw? row? = .error .noRow ↔ row? = none
  predict?_noRow : ∀ row?, p.predict? row? = .error .noRow ↔ row? = none
  raw?_some : ∀ row, p.raw? (some row) = p.raw row
  predict?_some : ∀ row, p.predict? (some row) = p.predict row
  fits : ∀ row : Row, row.size ≤ p.ensemble.maxFeature + 1 →
    p.ensemble.numClasses ≤ Ensemble.maxSlots →
    ∃ sums out, p.ensemble.checkedSums? p.executor row = some sums ∧
      p.raw row = .ok sums.toList ∧ sums.size = p.ensemble.numClasses ∧
      p.ensemble.objective.transform? sums.toList = some out ∧ p.predict row = .ok out ∧
      out.length = p.ensemble.objective.width p.ensemble.numClasses
  noRoom : ∀ row : Row, row.size ≤ p.ensemble.maxFeature + 1 →
    Ensemble.maxSlots < p.ensemble.numClasses →
    p.raw row = .error (.noRoom p.ensemble.numClasses) ∧
      p.predict row = .error (.noRoom p.ensemble.numClasses)
  batch_ok : ∀ rows outs, p.batch rows = .ok outs ↔
    List.Forall₂ (fun row out => p.predict row = .ok out) rows outs
  batch_error : ∀ rows e, p.batch rows = .error e ↔
    ∃ before row after, rows = before ++ row :: after ∧
      (∀ r ∈ before, ∃ out, p.predict r = .ok out) ∧ p.predict row = .error e
  batch_accepts : ∀ rows, p.ensemble.numClasses ≤ Ensemble.maxSlots →
    ((∃ outs, p.batch rows = .ok outs) ↔ ∀ row ∈ rows, row.size ≤ p.ensemble.maxFeature + 1)
  parallelBatch_ok : ∀ collect, CollectsInOrder collect → ∀ rows outs,
    p.parallelBatch collect rows = .ok outs ↔ p.batch rows = .ok outs

theorem contract_of_ofLines (ls : List String) (name : String) (e : Ensemble) (x : Executor)
    (h : Ensemble.ofLines ls = .ok e) (hx : e.Runs x) : Contract ⟨name, e, x⟩ where
  limit_lt := Ensemble.numFeatures_lt h
  raw_tooLong _ _ _ := raw_tooLong hx
  predict_tooLong _ _ _ := predict_error.trans (raw_tooLong hx)
  raw?_noRow _ := raw?_noRow hx
  predict?_noRow _ := predict?_noRow hx
  raw?_some _ := rfl
  predict?_some _ := rfl
  fits _ := predict_of_fits hx
  noRoom row hfits hroom := by
    have hraw := (raw_error hx).mpr (.inr ⟨hfits, hroom, rfl⟩)
    exact ⟨hraw, predict_error.mpr hraw⟩
  batch_ok _ _ := batch_ok
  batch_error _ _ := batch_error
  batch_accepts rows hroom := by
    refine Outcome.exists_mapM_ok.trans (forall₂_congr fun row _ => ?_)
    exact (exists_predict hx).trans (and_iff_left hroom)
  parallelBatch_ok _ hcollect _ _ := hcollect.map_ok

theorem leafAndSplits_contract :
    ∃ e x, Ensemble.ofLines Ensemble.leafAndSplits = .ok e ∧ e.compile {} = .ok x ∧ e.Runs x ∧
      Contract ⟨"m", e, x⟩ ∧
      batch ⟨"m", e, x⟩ [#[0, 2], #[], #[1, 2, 3], #[]] = .error (.rowTooLong 3 2) ∧
      ∃ outs, parallelBatch ⟨"m", e, x⟩ (fun results => results.mapM id) [#[0, 2], #[]] =
        .ok outs := by
  obtain ⟨e, x, he, hx⟩ := Outcome.exists_both_ok (x := Ensemble.ofLines Ensemble.leafAndSplits)
    (f := fun e => e.compile {}) (by decide +kernel)
  have hruns : e.Runs x := .inr ⟨{}, hx⟩
  have hnumbers : (Ensemble.ofLines Ensemble.leafAndSplits).map
      (fun e => (e.numClasses, e.maxFeature)) = .ok (1, 1) := by decide +kernel
  rw [he] at hnumbers
  obtain ⟨hclasses, hfeature⟩ := Prod.mk.inj (Except.ok.inj hnumbers)
  have hroom : e.numClasses ≤ Ensemble.maxSlots := by rw [hclasses]; decide
  have hcontract := contract_of_ofLines Ensemble.leafAndSplits "m" e x he hruns
  have hshort : ∀ row ∈ [#[0, 2], (#[] : Row)], row.size ≤ e.maxFeature + 1 := by
    rw [hfeature]
    simp
  refine ⟨e, x, he, hx, hruns, hcontract, ?_, ?_⟩
  · refine (hcontract.batch_error _ _).mpr ⟨[#[0, 2], #[]], #[1, 2, 3], [#[]], rfl, ?_, ?_⟩
    · intro row hrow
      obtain ⟨_, out, -, -, -, -, hout, -⟩ := hcontract.fits row (hshort row hrow) hroom
      exact ⟨out, hout⟩
    · exact (hcontract.predict_tooLong _ _ _).mpr (by simp [hfeature])
  · obtain ⟨outs, houts⟩ := (hcontract.batch_accepts _ hroom).mpr hshort
    exact ⟨outs, (hcontract.parallelBatch_ok _ CollectsInOrder.sequential _ _).mpr houts⟩

def endlessLines : List String :=
  ["tree", "num_class=1152921504606846976", "num_tree_per_iteration=1", "max_feature_idx=1",
    "objective=regression", "", "Tree=0", "num_leaves=1", "leaf_value=1"]

theorem endlessLines_no_prediction :
    ∃ e, Ensemble.ofLines endlessLines = .ok e ∧ e.Runs .interpreted ∧
      (#[] : Row).size ≤ e.maxFeature + 1 ∧
      (∀ sums, (interpreted "m" e).raw #[] ≠ .ok sums) ∧
      (interpreted "m" e).batch [#[]] = .error (.noRoom (2 ^ 60)) := by
  obtain ⟨e, he⟩ := Outcome.exists_ok (x := Ensemble.ofLines endlessLines) (by decide +kernel)
  have hruns : e.Runs .interpreted := .inl rfl
  have hclasses : (Ensemble.ofLines endlessLines).map (fun e => e.numClasses) = .ok (2 ^ 60) := by
    decide +kernel
  rw [he] at hclasses
  have hclasses : e.numClasses = 2 ^ 60 := Except.ok.inj hclasses
  have hraw : (interpreted "m" e).raw #[] = .error (.noRoom (2 ^ 60)) := by
    refine (raw_error hruns).mpr (.inr ⟨Nat.zero_le _, ?_, ?_⟩)
    · exact hclasses ▸ by decide
    · exact congrArg PredictError.noRoom hclasses.symm
  refine ⟨e, he, hruns, Nat.zero_le _, fun sums => ?_, ?_⟩
  · rw [hraw]
    exact nofun
  · exact batch_error.mpr ⟨[], #[], [], rfl, nofun, predict_error.mpr hraw⟩

end Predictor

end BoostedTrees
