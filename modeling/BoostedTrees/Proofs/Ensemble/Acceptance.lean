import BoostedTrees.Proofs.Ensemble.Accepted
import BoostedTrees.Proofs.Ensemble.Classes
import BoostedTrees.Proofs.Tree.Splits

namespace BoostedTrees

def Objective.supportedNames : List String :=
  ["binary", "multiclass", "regression", "regression_l1", "quantile", "huber", "fair", "mape",
    "poisson", "gamma", "tweedie", "cross_entropy", "cross_entropy_lambda"]

theorem Objective.ofName?_isSome {name config : String} :
    (ofName? name config).isSome = true ↔ name ∈ supportedNames := by
  constructor
  · intro h
    by_contra hname
    simp only [supportedNames, List.mem_cons, List.not_mem_nil, or_false, not_or] at hname
    simp [ofName?, hname] at h
  · intro h
    simp only [supportedNames, List.mem_cons, List.not_mem_nil, or_false] at h
    rcases h with rfl | rfl | rfl | rfl | rfl | rfl | rfl | rfl | rfl | rfl | rfl | rfl | rfl <;>
      simp [ofName?]

namespace EnsembleDraft

structure WellFormed (d : EnsembleDraft) : Prop where
  trees : d.trees ≠ []
  classes : 0 < d.numClasses
  treesPerIteration : 0 < d.treesPerIteration
  objective : d.objectiveName ∈ Objective.supportedNames
  indices : (d.trees.map Tree.index).Perm (List.range d.trees.length)
  features : ∀ t ∈ d.trees, ∀ feature test, t.root.HasSplit feature test → feature ≤ d.maxFeature
  ranges : ∀ t ∈ d.trees, ∀ feature range, t.root.HasSplit feature (.categorical range) →
    range.start ≤ range.stop ∧ range.stop ≤ t.categories.words.size

variable {maxFeature : Nat}

def TreeFits (maxFeature : Nat) (t : Tree) : Prop :=
  (∀ feature test, t.root.HasSplit feature test → feature ≤ maxFeature) ∧
    ∀ feature range, t.root.HasSplit feature (.categorical range) → t.categories.Inside range

theorem checkFeature_ok {position : Nat} {t : Tree} :
    checkFeature maxFeature position t = .ok () ↔
      ∀ feature test, t.root.HasSplit feature test → feature ≤ maxFeature := by
  rw [← Tree.maxSplitFeature_le, checkFeature]
  cases t.maxSplitFeature with
  | none => simp
  | some f => simp

theorem claimIndex_ok {taken taken' : Array Bool} {index : Nat} :
    claimIndex taken index = .ok taken' ↔
      taken[index]? = some false ∧ taken' = taken.setIfInBounds index true := by
  rw [claimIndex]
  split
  · simp_all [Array.set!_eq_setIfInBounds, eq_comm]
  · simp_all

theorem checkTree_passes {taken taken' : Array Bool} {entry : Tree × Nat} :
    checkTree maxFeature taken entry = .ok taken' ↔
      taken[entry.1.index]? = some false ∧ TreeFits maxFeature entry.1 ∧
        taken' = taken.setIfInBounds entry.1.index true := by
  rw [checkTree_ok, claimIndex_ok, checkFeature_ok, Tree.rangeOutside?_eq_none_iff]
  constructor
  · rintro ⟨⟨hfree, htaken⟩, hfeature, hrange⟩
    exact ⟨hfree, ⟨hfeature, hrange⟩, htaken⟩
  · rintro ⟨hfree, ⟨hfeature, hrange⟩, htaken⟩
    exact ⟨⟨hfree, htaken⟩, hfeature, hrange⟩

theorem checkTrees_cons {entry : Tree × Nat} {entries : List (Tree × Nat)} {taken : Array Bool} :
    (∃ taken', (entry :: entries).foldlM (checkTree maxFeature) taken = .ok taken') ↔
      taken[entry.1.index]? = some false ∧ TreeFits maxFeature entry.1 ∧
        ∃ taken', entries.foldlM (checkTree maxFeature)
          (taken.setIfInBounds entry.1.index true) = .ok taken' := by
  simp only [List.foldlM_cons, Outcome.bind_ok, checkTree_passes]
  constructor
  · rintro ⟨taken', next, ⟨hfree, hfits, rfl⟩, hrest⟩
    exact ⟨hfree, hfits, taken', hrest⟩
  · rintro ⟨hfree, hfits, taken', hrest⟩
    exact ⟨taken', _, ⟨hfree, hfits, rfl⟩, hrest⟩

theorem checkTrees_pass {entries : List (Tree × Nat)} {taken : Array Bool} :
    (∃ taken', entries.foldlM (checkTree maxFeature) taken = .ok taken') ↔
      (∀ entry ∈ entries, taken[entry.1.index]? = some false ∧ TreeFits maxFeature entry.1) ∧
        (entries.map fun entry => entry.1.index).Nodup := by
  induction entries generalizing taken with
  | nil => simp [pure, Except.pure]
  | cons entry entries ih =>
      rw [checkTrees_cons, ih, List.map_cons, List.nodup_cons]
      constructor
      · rintro ⟨hfree, hfits, hrest, hnodup⟩
        -- a later tree finds its own index free, so it is another one
        have hother : ∀ later ∈ entries, entry.1.index ≠ later.1.index ∧
            taken[later.1.index]? = some false := by
          intro later hlater
          have hlater := (hrest later hlater).1
          rw [Outcome.getElem?_replaced hfree] at hlater
          split at hlater
          · exact absurd hlater (by simp)
          · exact ⟨by assumption, hlater⟩
        refine ⟨?_, ?_, hnodup⟩
        · intro later hlater
          rcases List.mem_cons.mp hlater with rfl | hlater
          · exact ⟨hfree, hfits⟩
          · exact ⟨(hother later hlater).2, (hrest later hlater).2⟩
        · intro hmem
          obtain ⟨later, hlater, heq⟩ := List.mem_map.mp hmem
          exact (hother later hlater).1 heq.symm
      · rintro ⟨hall, hnew, hnodup⟩
        obtain ⟨hfree, hfits⟩ := hall entry List.mem_cons_self
        refine ⟨hfree, hfits, ?_, hnodup⟩
        intro later hlater
        obtain ⟨hlaterFree, hlaterFits⟩ := hall later (List.mem_cons_of_mem _ hlater)
        have hne : entry.1.index ≠ later.1.index :=
          fun heq => hnew (heq ▸ List.mem_map_of_mem hlater)
        rw [Outcome.getElem?_replaced hfree, if_neg hne]
        exact ⟨hlaterFree, hlaterFits⟩

theorem perm_range_iff {xs : List Nat} {n : Nat} (hlength : xs.length = n) :
    xs.Perm (List.range n) ↔ (∀ x ∈ xs, x < n) ∧ xs.Nodup := by
  constructor
  · intro h
    exact ⟨fun x hx => List.mem_range.mp (h.mem_iff.mp hx), h.nodup_iff.mpr List.nodup_range⟩
  · rintro ⟨hlt, hnodup⟩
    have hsub : xs ⊆ List.range n := fun x hx => List.mem_range.mpr (hlt x hx)
    apply (List.subperm_of_subset hnodup hsub).perm_of_length_le
    rw [List.length_range, hlength]

variable {d : EnsembleDraft}

theorem checkTrees_iff :
    (∃ taken, d.trees.zipIdx.foldlM (checkTree d.maxFeature)
        (Array.replicate d.trees.length false) = .ok taken) ↔
      (d.trees.map Tree.index).Perm (List.range d.trees.length) ∧
        ∀ t ∈ d.trees, TreeFits d.maxFeature t := by
  have hmap : (d.trees.zipIdx.map fun entry => entry.1.index) = d.trees.map Tree.index := by
    rw [show (fun entry : Tree × Nat => entry.1.index) = Tree.index ∘ Prod.fst from rfl,
      ← List.map_map, List.zipIdx_map_fst]
  have hmem : ∀ {P : Tree → Prop}, (∀ entry ∈ d.trees.zipIdx, P entry.1) ↔ ∀ t ∈ d.trees, P t := by
    intro P
    rw [← List.forall_mem_map, List.zipIdx_map_fst]
  have hfree : ∀ i, (Array.replicate d.trees.length false)[i]? = some false ↔
      i < d.trees.length := by
    intro i
    simp [Array.getElem?_replicate]
  rw [checkTrees_pass, hmap, perm_range_iff (List.length_map _), List.forall_mem_map,
    hmem (P := fun t => _[t.index]? = some false ∧ TreeFits d.maxFeature t)]
  simp only [hfree, forall_and]
  tauto

theorem wellFormed_iff : d.WellFormed ↔ ∃ objective, d.check = .ok objective := by
  simp only [check_ok, checkTrees_iff, exists_and_left, exists_and_right,
    ← Option.isSome_iff_exists, Objective.ofName?_isSome, ← Nat.pos_iff_ne_zero]
  constructor
  · intro h
    exact ⟨h.trees, h.classes, h.treesPerIteration, h.objective, h.indices,
      fun t ht => ⟨h.features t ht, h.ranges t ht⟩⟩
  · rintro ⟨htrees, hclasses, hiteration, hobjective, hindices, hfits⟩
    exact ⟨htrees, hclasses, hiteration, hobjective, hindices, fun t ht => (hfits t ht).1,
      fun t ht => (hfits t ht).2⟩

end EnsembleDraft

namespace Ensemble

theorem exists_ofDraft {d : EnsembleDraft} :
    (∃ e, ofDraft d = .ok e) ↔ ∃ objective, d.check = .ok objective := by
  unfold ofDraft
  split
  · rename_i objective h
    exact ⟨fun _ => ⟨objective, h⟩, fun _ => ⟨_, rfl⟩⟩
  · rename_i error h
    simp [h]

theorem hasCategorical_iff (e : Ensemble) :
    e.hasCategorical = true ↔
      ∃ t ∈ e.trees, ∃ feature range, t.root.HasSplit feature (.categorical range) := by
  simp only [hasCategorical, List.any_eq_true, Tree.hasCategorical_iff]

theorem ofDraft_accepts (d : EnsembleDraft) :
    ((∃ e, ofDraft d = .ok e) ↔ d.WellFormed) ∧
    ∀ e, ofDraft d = .ok e →
      e.toEnsembleDraft = d ∧
      (e.hasCategorical = true ↔
        ∃ t ∈ d.trees, ∃ feature range, t.root.HasSplit feature (.categorical range)) ∧
      ∀ c < d.numClasses,
        ((e.treesOfClass c).map Tree.index).Perm
          ((List.range d.trees.length).filter fun i => i % d.numClasses == c) ∧
        (∀ row buffer, buffer.size = d.numClasses →
          ∃ slots, e.sumsInto? .interpreted row buffer = some slots ∧
            slots[c]? = some
              (((e.treesOfClass c).map fun t => t.eval row).foldl (· + ·) Binary64.zero)) ∧
        ∀ c' < d.numClasses, (e.treesOfClass c).length ≤ (e.treesOfClass c').length + 1 := by
  refine ⟨exists_ofDraft.trans EnsembleDraft.wellFormed_iff.symm, ?_⟩
  intro e he
  have hd := ofDraft_ok he
  subst hd
  have hindices := (EnsembleDraft.wellFormed_iff.mpr ⟨_, e.accepted⟩).indices
  refine ⟨rfl, e.hasCategorical_iff, ?_⟩
  intro c hc
  exact ⟨e.perm_treesOfClass hindices c,
    fun row buffer hsize => e.sumsInto?_slot row hsize hc,
    fun c' hc' => e.length_treesOfClass_le hindices hc hc'⟩

def fiveTrees : EnsembleDraft where
  numClasses := 2
  treesPerIteration := 2
  maxFeature := 4
  objectiveName := "multiclass"
  objectiveConfig := "num_class:2"
  trees := [
    ⟨3, .split 4 (.numeric 0.5 .zero .left) (.leaf 1)
      (.split 1 (.categorical ⟨1, 2⟩) (.leaf 2) (.leaf 3)), ⟨#[1, 6]⟩⟩,
    ⟨0, .leaf 4, .empty⟩, ⟨4, .leaf 5, .empty⟩, ⟨2, .leaf 6, .empty⟩, ⟨1, .leaf 7, .empty⟩]

theorem fiveTrees_accepted :
    ∃ e, ofDraft fiveTrees = .ok e ∧ fiveTrees.WellFormed ∧ e.toEnsembleDraft = fiveTrees ∧
      e.hasCategorical = true ∧ ((e.treesOfClass 1).map Tree.index).Perm [1, 3] ∧
      (∃ slots, e.sumsInto? .interpreted #[0.25] #[8, 9] = some slots ∧ slots[1]? = some
        (((e.treesOfClass 1).map fun t => t.eval #[0.25]).foldl (· + ·) Binary64.zero)) ∧
      (e.treesOfClass 0).length ≤ (e.treesOfClass 1).length + 1 := by
  obtain ⟨e, he⟩ := Outcome.exists_ok (x := ofDraft fiveTrees) (by decide +kernel)
  obtain ⟨hd, hcategorical, hclasses⟩ := (ofDraft_accepts fiveTrees).2 e he
  have hsplit : ∃ t ∈ fiveTrees.trees, ∃ feature range,
      t.root.HasSplit feature (.categorical range) :=
    ⟨_, List.mem_cons_self, 1, ⟨1, 2⟩, .right .here⟩
  exact ⟨e, he, (ofDraft_accepts fiveTrees).1.mp ⟨e, he⟩, hd, hcategorical.mpr hsplit,
    (hclasses 1 (by decide)).1, (hclasses 1 (by decide)).2.1 #[0.25] #[8, 9] rfl,
    (hclasses 0 (by decide)).2.2 1 (by decide)⟩

end Ensemble

end BoostedTrees
