import BoostedTrees.Predictor
import BoostedTrees.Proofs.Ensemble.Accepted

namespace BoostedTrees

namespace Ensemble

variable {e : Ensemble} {limits : CompileLimits}

theorem compile_ok {x : Executor} :
    e.compile limits = .ok x ↔ e.numNodes ≤ limits.maxNodes ∧
      ∃ nodes, x = .compiled nodes ∧
        List.Forall₂ (fun (t : Tree) node => t.compile limits = .ok node) e.trees nodes := by
  unfold compile
  by_cases hnodes : limits.maxNodes < e.numNodes
  · rw [if_pos hnodes]
    constructor
    · intro h
      exact absurd h (by simp)
    · rintro ⟨hle, -⟩
      omega
  · rw [if_neg hnodes, Outcome.map_ok]
    constructor
    · rintro ⟨nodes, hcompile, rfl⟩
      exact ⟨by omega, nodes, rfl, Outcome.mapM_ok.mp hcompile⟩
    · rintro ⟨-, nodes, rfl, hcompile⟩
      exact ⟨nodes, Outcome.mapM_ok.mpr hcompile, rfl⟩

theorem eval_of_compile {t : Tree} {node : CompiledNode} (h : t.compile limits = .ok node)
    (row : Row) : node.eval row = t.eval row := by
  unfold Tree.compile at h
  split at h
  · exact absurd h (by simp)
  · obtain rfl := Except.ok.inj h
    exact CompiledNode.eval_ofNode t.categories row t.root

theorem treeValues_compiled {nodes : List CompiledNode}
    (h : List.Forall₂ (fun (t : Tree) node => t.compile limits = .ok node) e.trees nodes)
    (row : Row) : e.treeValues row (.compiled nodes) = e.treeValues row .interpreted := by
  simp only [treeValues]
  generalize e.trees = trees at h ⊢
  induction h with
  | nil => rfl
  | cons hnode _ ih => rw [List.map_cons, List.map_cons, eval_of_compile hnode, ih]

theorem sums?_compiled {nodes : List CompiledNode}
    (h : List.Forall₂ (fun (t : Tree) node => t.compile limits = .ok node) e.trees nodes)
    (row : Row) : e.sums? (.compiled nodes) row = e.sums? .interpreted row := by
  have hinto : e.sumsInto? (.compiled nodes) row = e.sumsInto? .interpreted row := by
    funext buffer
    rw [sumsInto?, sumsInto?, treeValues_compiled h row]
  rw [sums?, sums?, hinto]

end Ensemble

namespace Predictor

theorem compiled_agrees_with_interpreted (name : String) (e : Ensemble) (limits : CompileLimits)
    (p : Predictor) (h : Predictor.compiled name e limits = .ok p) (row : Row) :
    (∃ nodes, p = ⟨name, e, .compiled nodes⟩ ∧
      List.Forall₂ (fun (t : Tree) (node : CompiledNode) =>
        t.compile? limits = some (.ok node) ∧ t.eval? row = some (t.eval row) ∧
          node.eval row = t.eval row) e.trees nodes) ∧
    p.sums? row = (interpreted name e).sums? row ∧
    p.raw row = (interpreted name e).raw row ∧
    p.predict row = (interpreted name e).predict row := by
  obtain ⟨x, hx, rfl⟩ := Outcome.map_ok.mp h
  obtain ⟨-, nodes, rfl, hnodes⟩ := Ensemble.compile_ok.mp hx
  have hsums : sums? ⟨name, e, .compiled nodes⟩ row = (interpreted name e).sums? row := by
    rw [sums?, sums?]
    exact congrArg (Option.map Array.toList) (Ensemble.sums?_compiled hnodes row)
  have hraw : raw ⟨name, e, .compiled nodes⟩ row = (interpreted name e).raw row := by
    rw [raw, raw, hsums]
    rfl
  refine ⟨⟨nodes, rfl, ?_⟩, hsums, hraw, ?_⟩
  · rw [List.forall₂_iff_get] at hnodes ⊢
    obtain ⟨hlength, hnodes⟩ := hnodes
    refine ⟨hlength, fun i hi hi' => ?_⟩
    have hinside := e.rangeOutside?_eq_none (List.get_mem e.trees ⟨i, hi⟩)
    have hcompile := hnodes i hi hi'
    exact ⟨by rw [Tree.compile?_eq_compile hinside, hcompile], Tree.eval?_eq_eval hinside row,
      Ensemble.eval_of_compile hcompile row⟩
  · rw [predict, predict, hraw]
    rfl

def twoTrees : EnsembleDraft where
  numClasses := 1
  treesPerIteration := 1
  maxFeature := 1
  objectiveName := "binary"
  objectiveConfig := "sigmoid:1"
  trees := [
    ⟨1, .split 0 (.numeric 0.5 .zero .left) (.leaf 1)
      (.split 1 (.numeric (-2) .nan .right) (.leaf 2) (.leaf 3)), .empty⟩,
    ⟨0, .split 1 (.categorical ⟨0, 1⟩) (.leaf 4) (.leaf 5), ⟨#[6]⟩⟩]

theorem compiled_agrees_on_twoTrees :
    ∃ e p, Ensemble.ofDraft twoTrees = .ok e ∧ Predictor.compiled "m" e {} = .ok p ∧
      p.sums? #[Binary64.nan] = (interpreted "m" e).sums? #[Binary64.nan] ∧
      p.predict #[0, 2] = (interpreted "m" e).predict #[0, 2] := by
  obtain ⟨e, p, he, hp⟩ := Outcome.exists_both_ok (x := Ensemble.ofDraft twoTrees)
    (f := fun e => Predictor.compiled "m" e {}) (by decide +kernel)
  exact ⟨e, p, he, hp, (compiled_agrees_with_interpreted "m" e {} p hp _).2.1,
    (compiled_agrees_with_interpreted "m" e {} p hp _).2.2.2⟩

end Predictor

end BoostedTrees
