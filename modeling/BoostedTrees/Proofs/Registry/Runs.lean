import BoostedTrees.Proofs.Registry.Consistency

namespace BoostedTrees

namespace Trace

variable {t : Trace} {name : String} {i : Instance}

section Get

variable (loader : Loader) (current : Place) (name locator : String) (options : BuildOptions)

theorem Consistent.get_live (ht : t.Consistent) (h : t.Live name i) :
    (t.session.get loader current [] name locator options).session = t.session ∧
      (t.session.get loader current [] name locator options).outcome = .ok i := by
  obtain ⟨hheld, hlookup⟩ := ht.live_iff_lookup.mp h
  rcases Session.get_cases loader current t.session name locator options with
    ⟨hname, -, -⟩ | ⟨j, -, hlookup', hheld', hsession, houtcome⟩ | ⟨-, hdead, -⟩
  · have hnamed := ht.named name i.number ((Registry.lookup_iff_hasEntry ht.distinct).mp hlookup)
    exact absurd (hname.symm.trans hnamed) (by simp)
  · have hnumber : j.number = i.number := Option.some.inj (hlookup'.symm.trans hlookup)
    obtain rfl := ht.number_inj j i (ht.gave j hheld') (ht.gave i hheld) hnumber
    exact ⟨hsession, houtcome⟩
  · exact absurd hlookup (hdead i hheld)

theorem Consistent.get_dead (ht : t.Consistent) (h : ∀ i, ¬ t.Live name i) :
    (isModelName name = false ∧
      (t.session.get loader current [] name locator options).session = t.session ∧
      (t.session.get loader current [] name locator options).outcome = .error (.invalidName name)) ∨
    (isModelName name = true ∧ ∃ events,
      t.session.get loader current [] name locator options =
        (t.session.forget name).build loader current name locator options events) := by
  rcases Session.get_cases loader current t.session name locator options with
    hrefused | ⟨i, -, hlookup, hheld, -, -⟩ | ⟨hname, -, hbuild⟩
  · exact .inl hrefused
  · exact absurd (ht.live_iff_lookup.mpr ⟨hheld, hlookup⟩) (h i)
  · exact .inr ⟨hname, hbuild⟩

end Get

theorem Consistent.unchanged (ht : t.Consistent) {s : Session} {x : Exchange}
    (hgives : ∀ name, x.gives? name = none) (hreleases : ∀ name, x.releases name = false)
    (hcache : s.registry.cache = t.session.registry.cache)
    (hnext : s.registry.nextNumber = t.session.registry.nextNumber)
    (hholds : ∀ i, s.Holds i → t.session.Holds i) : Consistent ⟨s, x :: t.history⟩ := by
  have hentries : ∀ name number,
      s.registry.HasEntry name number ↔ t.session.registry.HasEntry name number := by
    intro name number
    rw [Registry.HasEntry, hcache]
    rfl
  have hdistinct : s.registry.Distinct := by
    rw [Registry.Distinct, hcache]
    exact ht.distinct
  refine ht.remove hgives hnext hholds hdistinct ?_ ?_
  · intro name number hentry
    exact ⟨(hentries name number).mp hentry, hreleases name⟩
  · intro name i hentry _ _
    exact (hentries name i.number).mpr hentry

theorem Consistent.forget (ht : t.Consistent) (h : ∀ i, ¬ t.Live name i) :
    Consistent ⟨t.session.forget name, t.history⟩ where
  number_lt := ht.number_lt
  number_inj := ht.number_inj
  gave := ht.gave
  distinct := ht.distinct.filter _
  named other number hentry := ht.named other number (Registry.hasEntry_forget.mp hentry).2
  latest other number hentry := ht.latest other number (Registry.hasEntry_forget.mp hentry).2
  entered other i hlive := by
    refine Registry.hasEntry_forget.mpr ⟨?_, ht.entered other i ⟨hlive.1, hlive.2, hlive.3⟩⟩
    rintro rfl
    exact h i ⟨hlive.1, hlive.2, hlive.3⟩

theorem Consistent.give_live (ht : t.Consistent) (h : t.Live name i) {x : Exchange}
    (hgives : ∀ other, x.gives? other = if name = other then some i else none)
    (handle : Option String) :
    Consistent ⟨t.session.keep handle (.ok i), x :: t.history⟩ := by
  have hentry := ht.entered name i h
  have hi := ht.gave i h.held
  have hregistry : (t.session.keep handle (.ok i)).registry = t.session.registry :=
    Session.registry_keep
  refine ht.give (ht.named name i.number hentry) hgives ?_ ?_ ?_ ?_ (fun _ => h.held) ?_ ?_
  · exact Nat.le_of_eq (congrArg Registry.nextNumber hregistry.symm)
  · rw [hregistry]
    exact ht.number_lt i hi
  · intro j hj hnumber
    exact ht.number_inj j i hj hi hnumber
  · intro j hj
    rcases Session.holds_keep hj with heq | hj
    · exact .inl (Except.ok.inj heq).symm
    · exact .inr hj
  · rw [hregistry]
    exact ht.distinct
  · intro other number
    rw [hregistry]
    by_cases hother : other = name
    · subst hother
      constructor
      · intro hnumber
        obtain ⟨j, hlatest, rfl, -⟩ := ht.latest other number hnumber
        obtain rfl : i = j := Option.some.inj (h.latest.symm.trans hlatest)
        exact .inl ⟨rfl, rfl⟩
      · rintro (⟨-, rfl⟩ | ⟨hne, -⟩)
        · exact hentry
        · exact absurd rfl hne
    · simp [hother]

theorem Consistent.give_new (ht : t.Consistent) (hname : isModelName name = true)
    {predictor : Predictor} {x : Exchange} {s : Session}
    (hgives : ∀ other, x.gives? other =
      if name = other then some ⟨t.session.registry.nextNumber, predictor⟩ else none)
    (hheld : s.held = t.session.held)
    (hregistry : s.registry = { t.session.registry.remember name t.session.registry.nextNumber with
      nextNumber := t.session.registry.nextNumber + 1 })
    (handle : Option String) :
    Consistent
      ⟨s.keep handle (.ok ⟨t.session.registry.nextNumber, predictor⟩), x :: t.history⟩ := by
  have hfresh : ∀ j, t.history.Gave j → j.number ≠ t.session.registry.nextNumber :=
    fun j hj => Nat.ne_of_lt (ht.number_lt j hj)
  have hkeep : (s.keep handle (.ok ⟨t.session.registry.nextNumber, predictor⟩)).registry =
      s.registry := Session.registry_keep
  refine ht.give hname hgives ?_ ?_ ?_ ?_ ?_ ?_ ?_
  · rw [hkeep, hregistry]
    exact Nat.le_succ _
  · rw [hkeep, hregistry]
    exact Nat.lt_succ_self _
  · intro j hj hnumber
    exact absurd hnumber (hfresh j hj)
  · intro j hj
    rcases Session.holds_keep hj with heq | ⟨other, hmem⟩
    · exact .inl (Except.ok.inj heq).symm
    · exact .inr ⟨other, hheld ▸ hmem⟩
  · intro hi
    exact absurd rfl (hfresh _ hi)
  · rw [hkeep, hregistry]
    exact ht.distinct.remember
  · intro other number
    rw [hkeep, hregistry]
    exact Registry.hasEntry_remember

theorem Consistent.get (ht : t.Consistent) (loader : Loader) (current : Place)
    (name locator : String) (options : BuildOptions) (handle : Option String) :
    (t.step (.get loader current name locator options handle)).Consistent := by
  change Consistent ⟨(t.session.get loader current [] name locator options).session.keep handle
    (t.session.get loader current [] name locator options).outcome,
    ⟨_, .given (t.session.get loader current [] name locator options).outcome⟩ :: t.history⟩
  have hgives : ∀ (i : Instance) (other : String),
      Exchange.gives? ⟨.get loader current name locator options handle, .given (.ok i)⟩ other =
        if name = other then some i else none := fun _ _ => rfl
  by_cases hlive : ∃ i, t.Live name i
  · obtain ⟨i, hlive⟩ := hlive
    obtain ⟨hsession, houtcome⟩ := ht.get_live loader current name locator options hlive
    rw [hsession, houtcome]
    exact ht.give_live hlive (hgives i) handle
  · have hdead : ∀ i, ¬ t.Live name i := fun i h => hlive ⟨i, h⟩
    rcases ht.get_dead loader current name locator options hdead with
      ⟨-, hsession, houtcome⟩ | ⟨hname, events, hget⟩
    · rw [hsession, houtcome]
      cases handle <;> exact ht.unchanged (fun _ => rfl) (fun _ => rfl) rfl rfl fun _ h => h
    · have ht' := ht.forget hdead
      rw [hget]
      rcases Session.build_cases loader current (t.session.forget name) name locator options events
        with ⟨e, -, hsession, houtcome⟩ | ⟨e, -, hheld, hregistry, houtcome⟩
      · rw [hsession, houtcome]
        cases handle <;> exact ht'.unchanged (fun _ => rfl) (fun _ => rfl) rfl rfl fun _ h => h
      · rw [houtcome]
        exact ht'.give_new hname (hgives _) hheld hregistry handle

theorem Consistent.release (ht : t.Consistent) (name : String) :
    (t.step (.release name)).Consistent := by
  refine ht.remove (fun _ => rfl) rfl (fun _ h => h) (ht.distinct.filter _) ?_ ?_
  · intro other number hentry
    obtain ⟨hne, hentry⟩ := Registry.hasEntry_forget.mp hentry
    exact ⟨hentry, beq_eq_false_iff_ne.mpr (Ne.symm hne)⟩
  · intro other i hentry _ hreleases
    exact Registry.hasEntry_forget.mpr ⟨Ne.symm (beq_eq_false_iff_ne.mp hreleases), hentry⟩

theorem hasEntry_evict {s : Session} {number : Nat} : s.evict.registry.HasEntry name number ↔
    s.registry.HasEntry name number ∧ ∃ i, s.Holds i ∧ i.number = number := by
  rw [← Session.isHeld_eq_true]
  exact List.mem_filter

theorem Consistent.names (ht : t.Consistent) : (t.step .names).Consistent := by
  refine ht.remove (fun _ => rfl) rfl (fun _ h => h) (ht.distinct.filter _) ?_ ?_
  · intro name number hentry
    exact ⟨(hasEntry_evict.mp hentry).1, rfl⟩
  · intro name i hentry hheld _
    exact hasEntry_evict.mpr ⟨hentry, i, hheld, rfl⟩

theorem Consistent.step (ht : t.Consistent) (request : Request) : (t.step request).Consistent := by
  cases request with
  | get loader current name locator options handle =>
      exact ht.get loader current name locator options handle
  | release name => exact ht.release name
  | names => exact ht.names
  | setThreshold threshold =>
      exact ht.unchanged (fun _ => rfl) (fun _ => rfl) rfl rfl fun _ h => h
  | setCompileEnabled enabled =>
      exact ht.unchanged (fun _ => rfl) (fun _ => rfl) rfl rfl fun _ h => h
  | drop handle =>
      exact ht.unchanged (fun _ => rfl) (fun _ => rfl) rfl rfl fun _ h => Session.holds_unhold h
  | share handle copy =>
      refine ht.unchanged (fun _ => rfl) (fun _ => rfl) ?_ ?_ fun _ h => Session.holds_share h
      · exact congrArg Registry.cache Session.registry_share
      · exact congrArg Registry.nextNumber Session.registry_share

theorem consistent_run (settings : Settings) (files : FileTree) (requests : List Request) :
    (run settings files requests).Consistent := by
  have hfold : ∀ t : Trace, t.Consistent → (requests.foldl Trace.step t).Consistent := by
    induction requests with
    | nil => exact fun t ht => ht
    | cons request rest ih => exact fun t ht => ih (t.step request) (ht.step request)
  exact hfold _ (consistent_start settings files)

theorem settings_step (t : Trace) (request : Request) :
    (t.step request).session.registry.settings =
      request.configure t.session.registry.settings := by
  cases request with
  | get loader current name locator options handle =>
      change ((t.session.get loader current [] name locator options).session.keep handle
        _).registry.settings = t.session.registry.settings
      rw [Session.registry_keep, Session.settings_get]
  | share handle copy => exact congrArg Registry.settings Session.registry_share
  | _ => rfl

theorem settings_run (settings : Settings) (files : FileTree) (requests : List Request) :
    (run settings files requests).session.registry.settings =
      requests.foldl (fun settings request => request.configure settings) settings := by
  have hfold : ∀ t : Trace, (requests.foldl Trace.step t).session.registry.settings =
      requests.foldl (fun settings request => request.configure settings)
        t.session.registry.settings := by
    induction requests with
    | nil => exact fun t => rfl
    | cons request rest ih =>
        intro t
        rw [List.foldl_cons, List.foldl_cons, ih, settings_step]
  exact hfold (start settings files)

end Trace

end BoostedTrees
