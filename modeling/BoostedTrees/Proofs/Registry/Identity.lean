import BoostedTrees.Proofs.Registry.Runs

namespace BoostedTrees

namespace Trace

variable {t : Trace} {name : String} {i : Instance}

theorem Consistent.mem_liveNames (ht : t.Consistent) :
    name ∈ t.session.liveNames ↔ ∃ i, t.Live name i := by
  rw [Session.liveNames, List.mem_mergeSort, List.mem_map]
  constructor
  · rintro ⟨⟨other, number⟩, hentry, rfl⟩
    obtain ⟨hentry, i, hheld, rfl⟩ := hasEntry_evict.mp hentry
    exact ⟨i, ht.live_iff.mpr ⟨hheld, hentry⟩⟩
  · rintro ⟨i, hlive⟩
    have hentry := ht.entered name i hlive
    exact ⟨(name, i.number), hasEntry_evict.mpr ⟨hentry, i, hlive.held, rfl⟩, rfl⟩

theorem Consistent.liveNames_sorted (ht : t.Consistent) :
    t.session.liveNames.Pairwise (· < ·) := by
  have hsorted : t.session.liveNames.Pairwise fun a b => decide (a ≤ b) = true := by
    refine List.pairwise_mergeSort ?_ ?_ _
    · intro a b c hab hbc
      exact decide_eq_true (String.le_trans (of_decide_eq_true hab) (of_decide_eq_true hbc))
    · intro a b
      simpa using String.le_total a b
  have hnodup : t.session.liveNames.Nodup :=
    (List.mergeSort_perm _ _).nodup_iff.mpr (ht.distinct.filter _)
  refine (hsorted.and hnodup).imp fun {a b} h => ?_
  refine String.not_le.mp fun hba => ?_
  exact h.2 (String.le_antisymm (of_decide_eq_true h.1) hba)

theorem Consistent.release_live (ht : t.Consistent) (h : t.Live name i) :
    (t.session.registry.release name).1 = true := by
  obtain ⟨-, hlookup⟩ := ht.live_iff_lookup.mp h
  rw [Registry.release, hlookup]
  rfl

theorem not_live_release (i : Instance) : ¬ (t.step (.release name)).Live name i := by
  intro h
  have hreleased : Exchange.releases
      ⟨.release name, .released (t.session.registry.release name).1⟩ name = true := by
    simp [Exchange.releases]
  have hkept := h.kept
  simp [step, Session.answer, History.releasedSince, Exchange.gives?, hreleased] at hkept

theorem Consistent.get_built (ht : t.Consistent) (h : ∀ j, ¬ t.Live name j) (loader : Loader)
    (current : Place) (locator : String) (options : BuildOptions) :
    (∀ i, (t.session.get loader current [] name locator options).outcome = .ok i →
      (∀ j, t.history.Gave j → j.number ≠ i.number) ∧
      ∃ content e, loader.fetch t.session.files locator = .bytes content ∧
        Ensemble.ofBytes content = .ok e ∧
        i.predictor =
          (Build.run t.session.registry.settings options name e t.session.files
            current).predictor) ∧
    (isModelName name = true → ∀ content e,
      loader.fetch t.session.files locator = .bytes content → Ensemble.ofBytes content = .ok e →
      ∃ i, (t.session.get loader current [] name locator options).outcome = .ok i) := by
  rcases ht.get_dead loader current name locator options h with
    ⟨hrefused, -, houtcome⟩ | ⟨-, events, hget⟩
  · constructor
    · intro i hi
      exact absurd (houtcome.symm.trans hi) (by simp)
    · intro hname
      exact absurd (hrefused.symm.trans hname) (by simp)
  · rw [hget]
    rcases Session.build_cases loader current (t.session.forget name) name locator options events
      with ⟨e, hload, -, houtcome⟩ | ⟨e, hload, -, -, houtcome⟩
    · constructor
      · intro i hi
        exact absurd (houtcome.symm.trans hi) (by simp)
      · intro _ content e' hfetch he
        have hloaded := Session.load_ok.mpr ⟨content, hfetch, he⟩
        exact absurd (hload.symm.trans hloaded) (by simp)
    · refine ⟨fun i hi => ?_, fun _ _ _ _ _ => ⟨_, houtcome⟩⟩
      obtain rfl := Except.ok.inj (houtcome.symm.trans hi)
      obtain ⟨content, hfetch, he⟩ := Session.load_ok.mp hload
      refine ⟨fun j hj => ?_, content, e, hfetch, he, rfl⟩
      exact Nat.ne_of_lt (ht.number_lt j hj)

theorem run_identity (settings : Settings) (files : FileTree) (requests : List Request) :
    let t := run settings files requests
    let config := requests.foldl (fun settings request => request.configure settings) settings
    (∀ (loader : Loader) (current : Place) (name locator : String) (options : BuildOptions),
      let outcome := (t.session.get loader current [] name locator options).outcome
      (∀ i, t.Live name i → outcome = .ok i) ∧
      (∀ i, outcome = .ok i → (t.history.latest? name = some i ↔ ∃ j, t.Live name j)) ∧
      ((∀ j, ¬ t.Live name j) →
        (∀ i, outcome = .ok i → (∀ j, t.history.Gave j → j.number ≠ i.number) ∧
          ∃ content e, loader.fetch t.session.files locator = .bytes content ∧
            Ensemble.ofBytes content = .ok e ∧
            i.predictor = (Build.run config options name e t.session.files current).predictor) ∧
        (isModelName name = true → ∀ content e,
          loader.fetch t.session.files locator = .bytes content →
          Ensemble.ofBytes content = .ok e → ∃ i, outcome = .ok i))) ∧
    (t.session.liveNames.Pairwise (· < ·) ∧
      ∀ name, name ∈ t.session.liveNames ↔ ∃ i, t.Live name i) ∧
    ∀ name, (name ∈ t.session.liveNames → (t.session.registry.release name).1 = true) ∧
      name ∉ (t.step (.release name)).session.liveNames := by
  intro t config
  have ht : t.Consistent := consistent_run settings files requests
  have hconfig : t.session.registry.settings = config := settings_run settings files requests
  refine ⟨?_, ⟨ht.liveNames_sorted, fun name => ht.mem_liveNames⟩, fun name => ⟨?_, ?_⟩⟩
  · intro loader current name locator options
    refine ⟨?_, ?_, ?_⟩
    · intro i hlive
      exact (ht.get_live loader current name locator options hlive).2
    · intro i hi
      constructor
      · intro hlatest
        by_cases hlive : ∃ j, t.Live name j
        · exact hlive
        · have hbuilt := ht.get_built (fun j h => hlive ⟨j, h⟩) loader current locator options
          exact absurd rfl ((hbuilt.1 i hi).1 i (History.gave_of_latest? hlatest))
      · rintro ⟨j, hlive⟩
        have hj := (ht.get_live loader current name locator options hlive).2
        obtain rfl : j = i := Except.ok.inj (hj.symm.trans hi)
        exact hlive.latest
    · intro hdead
      rw [← hconfig]
      exact ht.get_built hdead loader current locator options
  · intro hname
    obtain ⟨i, hlive⟩ := ht.mem_liveNames.mp hname
    exact ht.release_live hlive
  · intro hname
    obtain ⟨i, hlive⟩ := (ht.release name).mem_liveNames.mp hname
    exact not_live_release i hlive

example :
    let dump := "tree\nnum_class=1\nnum_tree_per_iteration=1\nmax_feature_idx=0\n" ++
      "objective=regression\n\nTree=0\nnum_leaves=1\nleaf_value=7\n"
    let loader := Loader.memory (.ofList [("m.txt", dump.toUTF8.toList)])
    let get (handle : String) : Request := .get loader [] "m" "m.txt" {} handle
    let t := run {} {} [get "a", .share "a" "b", .drop "a", get "c", .drop "b", .drop "c", get "d"]
    (t.history.filterMap fun x => (x.gives? "m").map Instance.number) = [1, 0, 0] := by
  decide +kernel

end Trace

end BoostedTrees
