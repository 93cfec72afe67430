import BoostedTrees.Proofs.Ensemble.Classes
import BoostedTrees.Proofs.Ensemble.Executors

namespace BoostedTrees

namespace Ensemble

def Runs (e : Ensemble) (x : Executor) : Prop :=
  x = .interpreted ∨ ∃ limits, e.compile limits = .ok x

def classSum (e : Ensemble) (row : Row) (c : Nat) : Float :=
  ((e.trees.filter fun t => t.index % e.numClasses == c).map fun t => t.eval row).foldl (· + ·)
    Binary64.zero

def classSums (e : Ensemble) (row : Row) : Array Float :=
  Array.ofFn fun c : Fin e.numClasses => e.classSum row c

variable {e : Ensemble} {x : Executor}

theorem Runs.treeValues_eq (hx : e.Runs x) (row : Row) :
    e.treeValues row x = e.trees.map fun t => t.eval row := by
  rcases hx with rfl | ⟨limits, hx⟩
  · rfl
  · obtain ⟨-, nodes, rfl, hnodes⟩ := compile_ok.mp hx
    exact treeValues_compiled hnodes row

theorem Runs.sumsInto?_eq (hx : e.Runs x) (row : Row) {buffer : Array Float}
    (hsize : buffer.size = e.numClasses) : e.sumsInto? x row buffer = some (e.classSums row) := by
  rw [sumsInto?, if_pos hsize, hx.treeValues_eq, treeClasses, List.zip_map']
  congr 1
  apply Array.ext_getElem?
  intro c
  rw [foldl_addTo, classSums, Array.getElem?_ofFn, Array.getElem?_map]
  by_cases hc : c < e.numClasses
  · rw [Array.getElem?_eq_getElem (hsize ▸ hc), dif_pos hc, List.filter_map, List.map_map]
    rfl
  · rw [Array.getElem?_eq_none (by omega), dif_neg hc]
    rfl

theorem Runs.sumsOfRows?_eq (hx : e.Runs x) (rows : List Row) {buffer : Array Float}
    (hsize : buffer.size = e.numClasses) :
    e.sumsOfRows? x rows buffer = some (rows.map e.classSums) := by
  induction rows generalizing buffer with
  | nil => rfl
  | cons row rows ih =>
      rw [sumsOfRows?, hx.sumsInto?_eq row hsize]
      change (e.sumsOfRows? x rows (e.classSums row)).map (e.classSums row :: ·) = _
      rw [ih (by rw [classSums, Array.size_ofFn])]
      rfl

theorem Runs.sums?_eq (hx : e.Runs x) (row : Row) :
    e.sums? x row = if e.numClasses ≤ maxSlots then some (e.classSums row) else none := by
  rw [sums?, newBuffer?]
  by_cases hroom : e.numClasses ≤ maxSlots
  · rw [if_pos hroom, if_pos hroom, Option.bind_some, hx.sumsInto?_eq row Array.size_replicate]
  · rw [if_neg hroom, if_neg hroom, Option.bind_none]

section Checked

def addTo? (slots : Array Float) (entry : Nat × Float) : Option (Array Float) :=
  if entry.1 < slots.size then some (addTo slots entry) else none

def treeValues? (e : Ensemble) (row : Row) : Executor → Option (List Float)
  | .interpreted => e.trees.mapM fun t => t.eval? row
  | .compiled nodes => some (nodes.map fun node => node.eval row)

def checkedSumsInto? (e : Ensemble) (x : Executor) (row : Row) (buffer : Array Float) :
    Option (Array Float) :=
  if buffer.size = e.numClasses then
    (e.treeValues? row x).bind fun values =>
      (e.treeClasses.zip values).foldlM addTo? (buffer.map fun _ => Binary64.zero)
  else none

theorem foldlM_addTo? {entries : List (Nat × Float)} {slots : Array Float}
    (h : ∀ entry ∈ entries, entry.1 < slots.size) :
    entries.foldlM addTo? slots = some (entries.foldl addTo slots) := by
  induction entries generalizing slots with
  | nil => rfl
  | cons entry entries ih =>
      obtain ⟨hentry, hrest⟩ := List.forall_mem_cons.mp h
      rw [List.foldlM_cons, addTo?, if_pos hentry]
      refine ih fun later hlater => ?_
      rw [addTo, Array.size_modify]
      exact hrest later hlater

theorem treeValues?_eq (e : Ensemble) (row : Row) (x : Executor) :
    e.treeValues? row x = some (e.treeValues row x) := by
  cases x with
  | interpreted =>
      have hvalue : ∀ t ∈ e.trees, t.eval? row = some (t.eval row) :=
        fun t ht => Tree.eval?_eq_eval (e.rangeOutside?_eq_none ht) row
      change e.trees.mapM (fun t => t.eval? row) = some (e.trees.map fun t => t.eval row)
      generalize e.trees = trees at hvalue ⊢
      induction trees with
      | nil => rfl
      | cons t ts ih =>
          obtain ⟨ht, hts⟩ := List.forall_mem_cons.mp hvalue
          rw [List.mapM_cons, ht, ih hts]
          rfl
  | compiled nodes => rfl

theorem checkedSumsInto?_eq (e : Ensemble) (x : Executor) (row : Row) (buffer : Array Float) :
    e.checkedSumsInto? x row buffer = e.sumsInto? x row buffer := by
  rw [checkedSumsInto?, sumsInto?, treeValues?_eq]
  by_cases hsize : buffer.size = e.numClasses
  · rw [if_pos hsize, if_pos hsize, Option.bind_some, foldlM_addTo?]
    intro entry hentry
    obtain ⟨t, -, hclass⟩ := List.mem_map.mp (List.of_mem_zip hentry).1
    rw [Array.size_map, hsize, ← hclass]
    exact Nat.mod_lt _ e.numClasses_pos
  · rw [if_neg hsize, if_neg hsize]

end Checked

theorem sums_eq_classSums (e : Ensemble) (x : Executor) (hx : e.Runs x) :
    (∀ (rows : List Row) (buffer : Array Float), buffer.size = e.numClasses →
      e.sumsOfRows? x rows buffer = some (rows.map e.classSums)) ∧
    (∀ row, e.sums? x row = if e.numClasses ≤ maxSlots then some (e.classSums row) else none) ∧
    (∀ row, (e.classSums row).size = e.numClasses) ∧
    (∀ row buffer, e.checkedSumsInto? x row buffer = e.sumsInto? x row buffer) ∧
    ∀ t ∈ e.trees, ∀ limits, t.compile? limits = some (t.compile limits) :=
  ⟨fun rows _ hsize => hx.sumsOfRows?_eq rows hsize, hx.sums?_eq, fun _ => Array.size_ofFn,
    e.checkedSumsInto?_eq x,
    fun _ ht limits => Tree.compile?_eq_compile (e.rangeOutside?_eq_none ht) limits⟩

def interleavedTrees : EnsembleDraft where
  numClasses := 2
  treesPerIteration := 2
  maxFeature := 1
  objectiveName := "multiclass"
  objectiveConfig := "num_class:2"
  trees := [
    ⟨2, .split 1 (.categorical ⟨1, 2⟩) (.leaf 0.5) (.leaf 1e300), ⟨#[1, 6]⟩⟩,
    ⟨1, .split 0 (.numeric 0.5 .zero .left) (.leaf 1) (.leaf 2), .empty⟩,
    ⟨0, .leaf (-0.25), .empty⟩]

theorem interleavedTrees_sums :
    ∃ e x, ofDraft interleavedTrees = .ok e ∧ e.compile {} = .ok x ∧ e.Runs x ∧
      #[Binary64.nan, 7].size = e.numClasses ∧
      e.sumsOfRows? x [#[0.25, 2], #[]] #[Binary64.nan, 7] =
        some [e.classSums #[0.25, 2], e.classSums #[]] ∧
      e.sums? x #[] = some (e.classSums #[]) := by
  obtain ⟨e, x, he, hx⟩ := Outcome.exists_both_ok (x := ofDraft interleavedTrees)
    (f := fun e => e.compile {}) (by decide +kernel)
  have hruns : e.Runs x := .inr ⟨{}, hx⟩
  have hclasses : e.numClasses = 2 := congrArg EnsembleDraft.numClasses (ofDraft_ok he)
  obtain ⟨hrows, hfresh, -⟩ := sums_eq_classSums e x hruns
  refine ⟨e, x, he, hx, hruns, hclasses.symm, hrows _ _ hclasses.symm, ?_⟩
  rw [hfresh, if_pos (by rw [hclasses]; decide)]

def endlessClasses : EnsembleDraft where
  numClasses := 2 ^ 60
  treesPerIteration := 1
  maxFeature := 1
  objectiveName := "regression"
  objectiveConfig := ""
  trees := [⟨0, .leaf 1, .empty⟩]

theorem endlessClasses_no_sums :
    ∃ e, ofDraft endlessClasses = .ok e ∧ e.Runs .interpreted ∧ e.sums? .interpreted #[] = none ∧
      (Predictor.interpreted "m" e).raw #[] = .error (.noRoom (2 ^ 60)) := by
  obtain ⟨e, he⟩ := Outcome.exists_ok (x := ofDraft endlessClasses) (by decide +kernel)
  have hclasses : e.numClasses = 2 ^ 60 := congrArg EnsembleDraft.numClasses (ofDraft_ok he)
  have hruns : e.Runs .interpreted := .inl rfl
  have hsums : e.sums? .interpreted #[] = none := by
    rw [hruns.sums?_eq, if_neg (by rw [hclasses]; decide)]
  refine ⟨e, he, hruns, hsums, ?_⟩
  have hcheck : (Predictor.interpreted "m" e).check #[] = .ok () := if_neg (Nat.not_lt_zero _)
  rw [Predictor.raw, hcheck, Predictor.sums?]
  simp only [Predictor.interpreted, hsums, hclasses]
  rfl

end Ensemble

end BoostedTrees
