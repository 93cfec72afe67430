import BoostedTrees.Ensemble.Executor
import BoostedTrees.Proofs.Outcome
import BoostedTrees.Proofs.Tree.Ranges

namespace BoostedTrees

namespace EnsembleDraft

variable {d : EnsembleDraft} {objective : Objective}

theorem check_ok :
    d.check = .ok objective ↔ d.trees ≠ [] ∧ d.numClasses ≠ 0 ∧ d.treesPerIteration ≠ 0 ∧
      Objective.ofName? d.objectiveName d.objectiveConfig = some objective ∧
      ∃ taken, d.trees.zipIdx.foldlM (checkTree d.maxFeature)
        (Array.replicate d.trees.length false) = .ok taken := by
  unfold check
  by_cases htrees : d.trees = []
  · simp [htrees, throw, throwThe, MonadExceptOf.throw, bind, Except.bind]
  by_cases hclasses : d.numClasses = 0
  · simp [htrees, hclasses, throw, throwThe, MonadExceptOf.throw, bind, Except.bind]
  by_cases hiteration : d.treesPerIteration = 0
  · simp [htrees, hclasses, hiteration, throw, throwThe, MonadExceptOf.throw, bind, Except.bind]
  simp only [List.isEmpty_iff, htrees, hclasses, hiteration, if_false]
  cases hname : Objective.ofName? d.objectiveName d.objectiveConfig with
  | none => simp [throw, throwThe, MonadExceptOf.throw]
  | some found =>
      constructor
      · intro h
        obtain ⟨taken, htaken, h⟩ := Outcome.bind_ok.mp h
        obtain rfl : found = objective := Except.ok.inj h
        exact ⟨htrees, hclasses, hiteration, rfl, taken, htaken⟩
      · rintro ⟨-, -, -, hfound, taken, htaken⟩
        obtain rfl : found = objective := Option.some.inj hfound
        exact Outcome.bind_ok.mpr ⟨taken, htaken, rfl⟩

theorem checkTree_ok {maxFeature : Nat} {taken taken' : Array Bool} {entry : Tree × Nat} :
    checkTree maxFeature taken entry = .ok taken' ↔
      claimIndex taken entry.1.index = .ok taken' ∧
        checkFeature maxFeature entry.2 entry.1 = .ok () ∧ entry.1.rangeOutside? = none := by
  have hranges : checkRanges entry.2 entry.1 = .ok () ↔ entry.1.rangeOutside? = none := by
    unfold checkRanges
    cases entry.1.rangeOutside? with
    | none => simp
    | some range => simp
  unfold checkTree
  constructor
  · intro h
    obtain ⟨claimed, hclaim, h⟩ := Outcome.bind_ok.mp h
    obtain ⟨⟨⟩, hfeature, h⟩ := Outcome.bind_ok.mp h
    obtain ⟨⟨⟩, hrange, h⟩ := Outcome.bind_ok.mp h
    obtain rfl : claimed = taken' := Except.ok.inj h
    exact ⟨hclaim, hfeature, hranges.mp hrange⟩
  · rintro ⟨hclaim, hfeature, hrange⟩
    have hrange' := hranges.mpr hrange
    simp [hclaim, hfeature, hrange', bind, Except.bind, pure, Except.pure]

end EnsembleDraft

namespace Ensemble

theorem numClasses_pos (e : Ensemble) : 0 < e.numClasses :=
  Nat.pos_of_ne_zero (EnsembleDraft.check_ok.mp e.accepted).2.1

theorem rangeOutside?_eq_none (e : Ensemble) {t : Tree} (ht : t ∈ e.trees) :
    t.rangeOutside? = none := by
  obtain ⟨-, -, -, -, taken, htaken⟩ := EnsembleDraft.check_ok.mp e.accepted
  obtain ⟨i, hi, rfl⟩ := List.getElem_of_mem ht
  have hmem : (e.trees[i], i) ∈ e.trees.zipIdx := by
    rw [List.mk_mem_zipIdx_iff_getElem?]
    exact List.getElem?_eq_getElem hi
  obtain ⟨s, s', hstep⟩ := Outcome.foldlM_step htaken hmem
  exact (EnsembleDraft.checkTree_ok.mp hstep).2.2

theorem ofDraft_ok {d : EnsembleDraft} {e : Ensemble} (h : ofDraft d = .ok e) :
    e.toEnsembleDraft = d := by
  unfold ofDraft at h
  split at h
  · cases h
    rfl
  · exact absurd h (by simp)

end Ensemble

end BoostedTrees
