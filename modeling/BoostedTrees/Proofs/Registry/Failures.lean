import BoostedTrees.Proofs.Registry.Runs
import Mathlib.Data.List.Nodup

namespace BoostedTrees

namespace Session

variable {s : Session} {name : String} {i : Instance}

theorem lookup_forget (s : Session) (name other : String) :
    (s.forget name).registry.cache.lookup other =
      if other = name then none else s.registry.cache.lookup other :=
  Outcome.lookup_removed

theorem cached?_forget (h : s.cached? name = none) (other : String) :
    (s.forget name).cached? other = s.cached? other := by
  rw [cached?, lookup_forget]
  by_cases hother : other = name
  · subst hother
    rw [if_pos rfl, Option.bind_none, h]
  · rw [if_neg hother]
    rfl

theorem session_of_get_error (loader : Loader) (current : Place) (locator : String)
    (options : BuildOptions) {failure : GetFailure}
    (h : (s.get loader current [] name locator options).outcome = .error failure) :
    (s.get loader current [] name locator options).session = s ∨
      s.cached? name = none ∧
        (s.get loader current [] name locator options).session = s.forget name := by
  cases hname : isModelName name with
  | false =>
      rw [get_of_invalid loader current locator options hname]
      exact .inl rfl
  | true =>
      cases hcached : s.cached? name with
      | some i =>
          rw [get_of_cached loader current locator options hname hcached]
          exact .inl rfl
      | none =>
          rw [get_of_uncached loader current locator options hname hcached] at h ⊢
          rcases build_cases loader current (s.forget name) name locator options _ with
            ⟨e, -, hsession, -⟩ | ⟨e, -, -, -, houtcome⟩
          · exact .inr ⟨rfl, hsession⟩
          · exact absurd (h.symm.trans houtcome) (by simp)

end Session

namespace Trace

variable {t : Trace} {name : String} {i : Instance}

theorem Consistent.cached?_eq_some (ht : t.Consistent) :
    t.session.cached? name = some i ↔ t.Live name i := by
  rw [ht.live_iff_lookup]
  constructor
  · intro h
    exact (Session.cached?_some h).symm
  · rintro ⟨hheld, hlookup⟩
    cases hcached : t.session.cached? name with
    | none => exact absurd rfl (Session.cached?_none hcached hlookup hheld)
    | some j =>
        obtain ⟨hlookup', hheld'⟩ := Session.cached?_some hcached
        have hnumber : j.number = i.number := Option.some.inj (hlookup'.symm.trans hlookup)
        rw [ht.number_inj j i (ht.gave j hheld') (ht.gave i hheld) hnumber]

theorem Consistent.forget_cases (ht : t.Consistent) (h : t.session.cached? name = none) :
    t.session.forget name = t.session ∨
      ∃ number, t.session.registry.HasEntry name number ∧
        (∀ i, t.session.Holds i → i.number ≠ number) ∧
        (t.session.forget name).registry.cache = t.session.registry.cache.erase (name, number) := by
  cases hlookup : t.session.registry.cache.lookup name with
  | none => exact .inl (Session.forget_of_lookup hlookup)
  | some number =>
      have hentry := (Registry.lookup_iff_hasEntry ht.distinct).mp hlookup
      refine .inr ⟨number, hentry, fun i hi => Session.cached?_none h hlookup hi, ?_⟩
      rw [(List.Nodup.of_map Prod.fst ht.distinct).erase_eq_filter]
      refine List.filter_congr fun entry hmem => ?_
      rw [Bool.eq_iff_iff, bne_iff_ne, bne_iff_ne, not_iff_not]
      constructor
      · rintro rfl
        have hsame := (Registry.lookup_iff_hasEntry ht.distinct).mpr hmem
        rw [Option.some.inj (hlookup.symm.trans hsame)]
      · exact congrArg Prod.fst

theorem run_get_failed (settings : Settings) (files : FileTree) (requests : List Request)
    (loader : Loader) (current : Place) (name locator : String) (options : BuildOptions) :
    let t := run settings files requests
    let s := t.session
    let r := s.get loader current [] name locator options
    (∀ other i, s.cached? other = some i ↔ t.Live other i) ∧
    (∀ failure, r.outcome = .error failure →
      r.session.registry.settings = s.registry.settings ∧
      (∀ other, r.session.cached? other = s.cached? other) ∧
      (r.session = s ∨ ∃ number, s.registry.HasEntry name number ∧
        (∀ i, s.Holds i → i.number ≠ number) ∧
        r.session = { s with registry :=
          { s.registry with cache := s.registry.cache.erase (name, number) } })) ∧
    (isModelName name = false → ∀ other : Loader,
      s.get other current [] name locator options = ⟨.error (.invalidName name), s, []⟩) ∧
    ∀ i, isModelName name = true → s.cached? name = some i → r = ⟨.ok i, s, [.cacheHit name]⟩ := by
  intro t s r
  have ht : t.Consistent := consistent_run settings files requests
  refine ⟨fun other i => ht.cached?_eq_some, ?_,
    fun hname other => Session.get_of_invalid other current locator options hname,
    fun i hname hcached => Session.get_of_cached loader current locator options hname hcached⟩
  intro failure hfailure
  rcases Session.session_of_get_error loader current locator options hfailure with
    hsession | ⟨hcached, hsession⟩
  · rw [hsession]
    exact ⟨rfl, fun _ => rfl, .inl rfl⟩
  · rw [hsession]
    refine ⟨rfl, Session.cached?_forget hcached, ?_⟩
    rcases ht.forget_cases hcached with hforget | ⟨number, hentry, hdead, hcache⟩
    · exact .inl hforget
    · refine .inr ⟨number, hentry, hdead, ?_⟩
      rw [← hcache]
      rfl

def leafContent : List UInt8 :=
  let dump := "tree\nnum_class=1\nnum_tree_per_iteration=1\nmax_feature_idx=0\n" ++
    "objective=regression\n\nTree=0\nnum_leaves=1\nleaf_value=7\n"
  dump.toUTF8.toList

def leafLoader : Loader := .memory (.ofList [("m.txt", leafContent)])

def droppedLeaf : Trace :=
  run {} {} [.get leafLoader [] "m" "m.txt" {} (some "a"), .drop "a"]

def abortedCall : GetResult :=
  droppedLeaf.session.get (.abortingAt "m.txt" {}) [] [] "m" "m.txt" {}

theorem run_get_failed_aborting :
    droppedLeaf.session.registry.cache = [("m", 0)] ∧
      abortedCall.session.registry.cache = [] ∧ abortedCall.outcome = .error .aborted ∧
      abortedCall.session.registry.settings = droppedLeaf.session.registry.settings ∧
      ∀ other, abortedCall.session.cached? other = droppedLeaf.session.cached? other := by
  have hruns : droppedLeaf.session.registry.cache = [("m", 0)] ∧
      abortedCall.session.registry.cache = [] ∧
      abortedCall.outcome.map Instance.number = .error .aborted := by decide +kernel
  obtain ⟨hbefore, hafter, houtcome⟩ := hruns
  have haborted : abortedCall.outcome = .error .aborted := Outcome.map_error.mp houtcome
  obtain ⟨-, hfailed, -⟩ := run_get_failed {} {}
    [.get leafLoader [] "m" "m.txt" {} (some "a"), .drop "a"]
    (.abortingAt "m.txt" {}) [] "m" "m.txt" {}
  obtain ⟨hsettings, hcached, -⟩ := hfailed .aborted haborted
  exact ⟨hbefore, hafter, haborted, hsettings, hcached⟩

end Trace

end BoostedTrees
