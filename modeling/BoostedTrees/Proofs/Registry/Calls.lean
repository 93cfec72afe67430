import BoostedTrees.Proofs.Outcome
import BoostedTrees.Proofs.Registry.History

namespace BoostedTrees.Session

variable {s : Session} {name handle : String} {i j : Instance}

theorem holds_unhold (h : (s.unhold handle).Holds j) : s.Holds j := by
  obtain ⟨other, hmem⟩ := h
  exact ⟨other, (List.mem_filter.mp hmem).1⟩

theorem holds_hold (h : (s.hold handle i).Holds j) : j = i ∨ s.Holds j := by
  obtain ⟨other, hmem⟩ := h
  rcases List.mem_cons.mp hmem with heq | hmem
  · exact .inl (Prod.mk.inj heq).2
  · exact .inr (holds_unhold ⟨other, hmem⟩)

theorem holds_of_holding? (h : s.holding? handle = some i) : s.Holds i := by
  obtain ⟨before, after, hheld, -⟩ := List.lookup_eq_some_iff.mp h
  refine ⟨handle, ?_⟩
  rw [hheld]
  exact List.mem_append_right before List.mem_cons_self

theorem holds_share {copy : String} (h : (s.share handle copy).Holds j) : s.Holds j := by
  unfold share at h
  split at h
  · rename_i i hi
    rcases holds_hold h with rfl | h
    · exact holds_of_holding? hi
    · exact h
  · exact h

theorem registry_share {copy : String} : (s.share handle copy).registry = s.registry := by
  unfold share
  split <;> rfl

theorem holds_keep {keeper : Option String} {outcome : Except GetFailure Instance}
    (h : (s.keep keeper outcome).Holds j) : outcome = .ok j ∨ s.Holds j := by
  unfold keep at h
  split at h
  · rcases holds_hold h with rfl | h
    · exact .inl rfl
    · exact .inr h
  · exact .inr h

theorem registry_keep {keeper : Option String} {outcome : Except GetFailure Instance} :
    (s.keep keeper outcome).registry = s.registry := by
  unfold keep
  split <;> rfl

theorem isHeld_eq_true {number : Nat} :
    s.isHeld number = true ↔ ∃ i, s.Holds i ∧ i.number = number := by
  simp only [isHeld, List.any_eq_true, beq_iff_eq]
  constructor
  · rintro ⟨⟨handle, i⟩, hmem, hnumber⟩
    exact ⟨i, ⟨handle, hmem⟩, hnumber⟩
  · rintro ⟨i, ⟨handle, hmem⟩, hnumber⟩
    exact ⟨(handle, i), hmem, hnumber⟩

theorem living?_some {number : Nat} (h : s.living? [] number = some i) :
    s.Holds i ∧ i.number = number := by
  have hnumber := List.find?_some h
  obtain ⟨⟨handle, held⟩, hmem, rfl⟩ := List.mem_map.mp (List.mem_of_find?_eq_some h)
  exact ⟨⟨handle, hmem⟩, by simpa using hnumber⟩

theorem living?_none {number : Nat} (h : s.living? [] number = none) (hi : s.Holds i) :
    i.number ≠ number := by
  obtain ⟨handle, hmem⟩ := hi
  have hnone := List.find?_eq_none.mp h i (List.mem_map.mpr ⟨(handle, i), hmem, rfl⟩)
  simpa using hnone

def forget (s : Session) (name : String) : Session :=
  { s with registry := s.registry.forget name }

theorem forget_of_lookup (h : s.registry.cache.lookup name = none) : s.forget name = s := by
  have hcache : (s.registry.cache.filter fun entry => entry.1 != name) = s.registry.cache := by
    rw [List.filter_eq_self]
    intro entry hmem
    have hne := List.lookup_eq_none_iff.mp h entry hmem
    rw [bne_comm]
    simpa using hne
  simp only [forget, Registry.forget, hcache]

def cached? (s : Session) (name : String) : Option Instance :=
  (s.registry.cache.lookup name).bind (s.living? [])

theorem cached?_some (h : s.cached? name = some i) :
    s.registry.cache.lookup name = some i.number ∧ s.Holds i := by
  obtain ⟨number, hlookup, hliving⟩ := Option.bind_eq_some_iff.mp h
  obtain ⟨hheld, rfl⟩ := living?_some hliving
  exact ⟨hlookup, hheld⟩

theorem cached?_none {number : Nat} (h : s.cached? name = none)
    (hlookup : s.registry.cache.lookup name = some number) (hi : s.Holds i) :
    i.number ≠ number := by
  rw [cached?, hlookup] at h
  exact living?_none h hi

section Get

variable (loader : Loader) (current : Place) (locator : String) (options : BuildOptions)

theorem get_of_invalid (hname : isModelName name = false) :
    s.get loader current [] name locator options = ⟨.error (.invalidName name), s, []⟩ := by
  simp [get, hname]

theorem get_of_cached (hname : isModelName name = true) (h : s.cached? name = some i) :
    s.get loader current [] name locator options = ⟨.ok i, s, [.cacheHit name]⟩ := by
  obtain ⟨number, hlookup, hliving⟩ := Option.bind_eq_some_iff.mp h
  simp [get, hname, hlookup, hliving]

def evictions (s : Session) (name : String) : List Event :=
  if (s.registry.cache.lookup name).isSome then [.evicted name] else []

theorem get_of_uncached (hname : isModelName name = true) (h : s.cached? name = none) :
    s.get loader current [] name locator options =
      (s.forget name).build loader current name locator options (s.evictions name) := by
  cases hlookup : s.registry.cache.lookup name with
  | none =>
      rw [forget_of_lookup hlookup]
      simp [get, hname, hlookup, evictions]
  | some number =>
      have hdead : s.living? [] number = none := by
        rw [cached?, hlookup] at h
        exact h
      simp [get, hname, hlookup, hdead, forget, evictions]

end Get

theorem get_cases (loader : Loader) (current : Place) (s : Session) (name locator : String)
    (options : BuildOptions) :
    (isModelName name = false ∧ (s.get loader current [] name locator options).session = s ∧
      (s.get loader current [] name locator options).outcome = .error (.invalidName name)) ∨
    (∃ i, isModelName name = true ∧ s.registry.cache.lookup name = some i.number ∧ s.Holds i ∧
      (s.get loader current [] name locator options).session = s ∧
      (s.get loader current [] name locator options).outcome = .ok i) ∨
    (isModelName name = true ∧
      (∀ i, s.Holds i → s.registry.cache.lookup name ≠ some i.number) ∧
      ∃ events, s.get loader current [] name locator options =
        (s.forget name).build loader current name locator options events) := by
  cases hname : isModelName name with
  | false =>
      rw [get_of_invalid loader current locator options hname]
      exact .inl ⟨rfl, rfl, rfl⟩
  | true =>
      refine .inr ?_
      cases hcached : s.cached? name with
      | some i =>
          obtain ⟨hlookup, hheld⟩ := cached?_some hcached
          rw [get_of_cached loader current locator options hname hcached]
          exact .inl ⟨i, rfl, hlookup, hheld, rfl, rfl⟩
      | none =>
          refine .inr ⟨rfl, ?_, _, get_of_uncached loader current locator options hname hcached⟩
          intro i hi hlookup
          exact cached?_none hcached hlookup hi rfl

theorem load_ok {loader : Loader} {files : FileTree} {locator : String} {e : Ensemble} :
    load loader files locator = .ok e ↔ ∃ content, loader.fetch files locator = .bytes content ∧
      Ensemble.ofBytes content = .ok e := by
  unfold load
  cases loader.fetch files locator with
  | bytes content =>
      simp only [LoadResult.bytes.injEq, exists_eq_left']
      cases Ensemble.ofBytes content <;> simp
  | failed e => simp
  | aborted => simp

theorem build_cases (loader : Loader) (current : Place) (s : Session) (name locator : String)
    (options : BuildOptions) (events : List Event) :
    (∃ e, load loader s.files locator = .error e ∧
      (s.build loader current name locator options events).session = s ∧
      (s.build loader current name locator options events).outcome = .error e) ∨
    (∃ e, load loader s.files locator = .ok e ∧
      (s.build loader current name locator options events).session.held = s.held ∧
      (s.build loader current name locator options events).session.registry =
        { s.registry.remember name s.registry.nextNumber with
          nextNumber := s.registry.nextNumber + 1 } ∧
      (s.build loader current name locator options events).outcome = .ok ⟨s.registry.nextNumber,
        (Build.run s.registry.settings options name e s.files current).predictor⟩) := by
  unfold build
  cases load loader s.files locator with
  | error e => exact .inl ⟨e, rfl, rfl, rfl⟩
  | ok e => exact .inr ⟨e, rfl, rfl, rfl, rfl⟩

theorem settings_get (loader : Loader) (current : Place) (s : Session) (name locator : String)
    (options : BuildOptions) :
    (s.get loader current [] name locator options).session.registry.settings =
      s.registry.settings := by
  rcases get_cases loader current s name locator options with ⟨-, hsession, -⟩ |
    ⟨i, -, -, -, hsession, -⟩ | ⟨-, -, events, hget⟩
  · rw [hsession]
  · rw [hsession]
  · rw [hget]
    rcases build_cases loader current (s.forget name) name locator options events with
      ⟨e, -, hsession, -⟩ | ⟨e, -, -, hregistry, -⟩
    · rw [hsession]
      rfl
    · rw [hregistry]
      rfl

end BoostedTrees.Session
