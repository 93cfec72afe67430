import BoostedTrees.Proofs.Registry.Artifacts
import BoostedTrees.Proofs.Registry.Strategies

namespace BoostedTrees

namespace Event

def isArtifact : Event → Bool
  | .artifactWritten .. | .artifactFailed .. => true
  | _ => false

def isFallback : Event → Bool
  | .fallback .. => true
  | _ => false

end Event

namespace Build

structure Refuses (settings : Settings) (options : BuildOptions) (e : Ensemble)
    (reason : CompileError) : Prop where
  attempted : attemptsCompile settings options e = true
  refused : e.compile settings.limits = .error reason

variable (settings : Settings) (options : BuildOptions) (name : String) (e : Ensemble)
  (files : FileTree) (current : Place)

theorem isArtifact_writeArtifact (directory : String) :
    (writeArtifact files current directory name e).2.isArtifact = true ∧
      (writeArtifact files current directory name e).2.isFallback = false := by
  unfold writeArtifact
  dsimp only
  split <;> exact ⟨rfl, rfl⟩

theorem filter_persist :
    (persist files current options name e).2.filter Event.isArtifact =
        (persist files current options name e).2 ∧
      (persist files current options name e).2.filter Event.isFallback = [] ∧
      (persist files current options name e).2.filter (fun event => !event.isArtifact) = [] := by
  unfold persist
  cases options.artifactDirectory with
  | none => exact ⟨rfl, rfl, rfl⟩
  | some directory =>
      obtain ⟨hartifact, hfallback⟩ := isArtifact_writeArtifact name e files current directory
      simp [hartifact, hfallback]

theorem artifacts_run :
    (Compiles settings options e →
      ((run settings options name e files current).files,
        (run settings options name e files current).events.filter Event.isArtifact) =
          persist files current options name e) ∧
    (¬ Compiles settings options e →
      (run settings options name e files current).files = files ∧
        (run settings options name e files current).events.filter Event.isArtifact = []) := by
  rw [compiles_iff, run]
  cases hattempts : attemptsCompile settings options e with
  | false => exact ⟨fun h => absurd h.1 (by simp), fun _ => ⟨rfl, rfl⟩⟩
  | true =>
      rw [if_pos rfl, Predictor.compiled]
      cases hcompile : e.compile settings.limits with
      | error reason => exact ⟨fun h => absurd h.2 (by simp), fun _ => ⟨rfl, rfl⟩⟩
      | ok x =>
          refine ⟨fun _ => ?_, fun h => absurd ⟨rfl, x, rfl⟩ h⟩
          obtain ⟨hartifacts, -, -⟩ := filter_persist options name e files current
          simp [Except.map, Event.isArtifact, choosing, builtEvent, hartifacts]

theorem fallbacks_run :
    (∀ reason, Refuses settings options e reason →
      (run settings options name e files current).events.filter Event.isFallback =
        [.fallback name reason]) ∧
    ((∀ reason, ¬ Refuses settings options e reason) →
      (run settings options name e files current).events.filter Event.isFallback = []) := by
  rw [run]
  cases hattempts : attemptsCompile settings options e with
  | false =>
      refine ⟨fun reason h => ?_, fun _ => rfl⟩
      exact absurd (hattempts.symm.trans h.attempted) (by simp)
  | true =>
      rw [if_pos rfl, Predictor.compiled]
      cases hcompile : e.compile settings.limits with
      | error reason =>
          refine ⟨fun other h => ?_, fun h => absurd ⟨hattempts, hcompile⟩ (h reason)⟩
          obtain rfl : reason = other := by simpa [hcompile] using h.refused
          rfl
      | ok x =>
          refine ⟨fun reason h => absurd (hcompile.symm.trans h.refused) (by simp), fun _ => ?_⟩
          obtain ⟨-, hfallbacks, -⟩ := filter_persist options name e files current
          simp [Except.map, Event.isFallback, choosing, builtEvent, hfallbacks]

theorem run_frame (files' : FileTree) (current' : Place) (directory : Option String) :
    let b := run settings options name e files current
    let b' := run settings { options with artifactDirectory := directory } name e files' current'
    b'.predictor = b.predictor ∧ b'.events.filter (fun event => !event.isArtifact) =
      b.events.filter fun event => !event.isArtifact := by
  have hattempts : attemptsCompile settings { options with artifactDirectory := directory } e =
      attemptsCompile settings options e := rfl
  have hchoosing : choosing settings { options with artifactDirectory := directory } name e =
      choosing settings options name e := rfl
  dsimp only
  rw [run, run, hattempts, hchoosing]
  cases attemptsCompile settings options e with
  | false => exact ⟨rfl, rfl⟩
  | true =>
      rw [if_pos rfl, if_pos rfl]
      cases Predictor.compiled name e settings.limits with
      | error reason => exact ⟨rfl, rfl⟩
      | ok p =>
          obtain ⟨-, -, hothers⟩ := filter_persist options name e files current
          obtain ⟨-, -, hothers'⟩ :=
            filter_persist { options with artifactDirectory := directory } name e files' current'
          refine ⟨rfl, ?_⟩
          simp only [List.cons_append, List.filter_cons, List.filter_append, hothers, hothers']

end Build

structure GetResult.AgreeApartFromFiles (r r' : GetResult) : Prop where
  outcome : r'.outcome = r.outcome
  registry : r'.session.registry = r.session.registry
  held : r'.session.held = r.session.held
  events : r'.events.filter (fun event => !event.isArtifact) =
    r.events.filter fun event => !event.isArtifact

namespace Session

theorem filter_evictions (s : Session) (name : String) {p : Event → Bool}
    (hp : p (.evicted name) = false) : (s.evictions name).filter p = [] := by
  unfold evictions
  split
  · simp [hp]
  · rfl

variable {loader loader' : Loader} {s : Session} {files' : FileTree} {name locator : String}

theorem build_frame (h : loader'.fetch files' locator = loader.fetch s.files locator)
    (current current' : Place) (options : BuildOptions) (directory : Option String)
    (events : List Event) :
    (s.build loader current name locator options events).AgreeApartFromFiles
      ({ s with files := files' }.build loader' current' name locator
        { options with artifactDirectory := directory } events) := by
  have hload : load loader' files' locator = load loader s.files locator := by
    rw [load, load, h]
  unfold build
  rw [hload]
  cases load loader s.files locator with
  | error e => exact ⟨rfl, rfl, rfl, rfl⟩
  | ok e =>
      obtain ⟨hpredictor, hevents⟩ := Build.run_frame s.registry.settings options name e s.files
        current files' current' directory
      refine ⟨?_, rfl, rfl, ?_⟩
      · exact congrArg (fun p => Except.ok (Instance.mk s.registry.nextNumber p)) hpredictor
      · change (events ++ _).filter _ = (events ++ _).filter _
        rw [List.filter_append, List.filter_append, hevents]

theorem get_frame (h : loader'.fetch files' locator = loader.fetch s.files locator)
    (current current' : Place) (options : BuildOptions) (directory : Option String) :
    (s.get loader current [] name locator options).AgreeApartFromFiles
      ({ s with files := files' }.get loader' current' [] name locator
        { options with artifactDirectory := directory }) := by
  cases hname : isModelName name with
  | false =>
      rw [get_of_invalid loader current locator options hname, get_of_invalid _ _ _ _ hname]
      exact ⟨rfl, rfl, rfl, rfl⟩
  | true =>
      have hsame : cached? { s with files := files' } name = s.cached? name := rfl
      cases hcached : s.cached? name with
      | some i =>
          rw [get_of_cached loader current locator options hname hcached,
            get_of_cached _ _ _ _ hname (hsame.trans hcached)]
          exact ⟨rfl, rfl, rfl, rfl⟩
      | none =>
          rw [get_of_uncached loader current locator options hname hcached,
            get_of_uncached _ _ _ _ hname (hsame.trans hcached)]
          exact build_frame (s := s.forget name) h current current' options directory
            (s.evictions name)

end Session

namespace Trace

variable {t : Trace} {loader : Loader} {current : Place} {name locator : String}
  {options : BuildOptions} {e : Ensemble}

structure Builds (t : Trace) (loader : Loader) (name locator : String) (e : Ensemble) : Prop where
  valid : isModelName name = true
  dead : ∀ i, ¬ t.Live name i
  loaded : ∃ content, loader.fetch t.session.files locator = .bytes content ∧
    Ensemble.ofBytes content = .ok e

structure Persists (t : Trace) (loader : Loader) (current : Place) (name locator : String)
    (options : BuildOptions) (e : Ensemble) (directory : String) : Prop where
  builds : t.Builds loader name locator e
  compiled : ∃ i, (t.session.get loader current [] name locator options).outcome = .ok i ∧
    i.predictor.isCompiled = true
  named : options.artifactDirectory = some directory

theorem Builds.unique {other : Ensemble} (h : t.Builds loader name locator e)
    (hother : t.Builds loader name locator other) : e = other := by
  obtain ⟨content, hfetch, he⟩ := h.loaded
  obtain ⟨content', hfetch', hother⟩ := hother.loaded
  obtain rfl : content = content' := LoadResult.bytes.inj (hfetch.symm.trans hfetch')
  exact Except.ok.inj (he.symm.trans hother)

theorem Consistent.get_effects (ht : t.Consistent) (loader : Loader) (current : Place)
    (name locator : String) (options : BuildOptions) :
    let r := t.session.get loader current [] name locator options
    (∃ e, t.Builds loader name locator e ∧
      let b := Build.run t.session.registry.settings options name e t.session.files current
      r.outcome = .ok ⟨t.session.registry.nextNumber, b.predictor⟩ ∧ r.session.files = b.files ∧
      r.events.filter Event.isArtifact = b.events.filter Event.isArtifact ∧
      r.events.filter Event.isFallback = b.events.filter Event.isFallback) ∨
    ((∀ e, ¬ t.Builds loader name locator e) ∧ r.session.files = t.session.files ∧
      r.events.filter Event.isArtifact = [] ∧ r.events.filter Event.isFallback = []) := by
  dsimp only
  cases hname : isModelName name with
  | false =>
      rw [Session.get_of_invalid loader current locator options hname]
      exact .inr ⟨fun e h => absurd (hname.symm.trans h.valid) (by simp), rfl, rfl, rfl⟩
  | true =>
      cases hcached : t.session.cached? name with
      | some i =>
          rw [Session.get_of_cached loader current locator options hname hcached]
          exact .inr ⟨fun e h => h.dead i (ht.cached?_eq_some.mp hcached), rfl, rfl, rfl⟩
      | none =>
          have hdead : ∀ i, ¬ t.Live name i := fun i h =>
            absurd (hcached.symm.trans (ht.cached?_eq_some.mpr h)) (by simp)
          have hartifacts := t.session.filter_evictions name (p := Event.isArtifact) rfl
          have hfallbacks := t.session.filter_evictions name (p := Event.isFallback) rfl
          rw [Session.get_of_uncached loader current locator options hname hcached, Session.build]
          -- forgetting the dead entry touches no file and reports neither of the two effects
          cases hload : Session.load loader (t.session.forget name).files locator with
          | error failure =>
              refine .inr ⟨fun e h => ?_, rfl, hartifacts, hfallbacks⟩
              exact absurd (hload.symm.trans (Session.load_ok.mpr h.loaded)) (by simp)
          | ok e =>
              refine .inl ⟨e, ⟨hname, hdead, Session.load_ok.mp hload⟩, rfl, rfl, ?_, ?_⟩
              · rw [List.filter_append, hartifacts]
                rfl
              · rw [List.filter_append, hfallbacks]
                rfl

theorem Consistent.get_artifact (ht : t.Consistent) {directory : String}
    (h : t.Persists loader current name locator options e directory) :
    ∃ event,
      (t.session.get loader current [] name locator options).events.filter Event.isArtifact =
        [event] ∧
      ((t.session.get loader current [] name locator options).session.files, event) =
        Build.writeArtifact t.session.files current directory name e := by
  rcases ht.get_effects loader current name locator options with
    ⟨other, hbuilds, houtcome, hfiles, hartifacts, -⟩ | ⟨hnone, -⟩
  · obtain rfl := hbuilds.unique h.builds
    obtain ⟨i, hi, hcompiled⟩ := h.compiled
    obtain rfl := Except.ok.inj (houtcome.symm.trans hi)
    have hcompiles := (Build.isCompiled_iff _ options name other _ current).mp hcompiled
    have hpersist := (Build.artifacts_run _ options name other t.session.files current).1 hcompiles
    rw [Build.persist, h.named] at hpersist
    obtain ⟨hwritten, hreported⟩ := Prod.mk.inj hpersist
    exact ⟨_, hartifacts.trans hreported, Prod.ext (hfiles.trans hwritten) rfl⟩
  · exact absurd h.builds (hnone e)

theorem Consistent.get_no_artifact (ht : t.Consistent)
    (h : ∀ e directory, ¬ t.Persists loader current name locator options e directory) :
    (t.session.get loader current [] name locator options).events.filter Event.isArtifact = [] ∧
      (t.session.get loader current [] name locator options).session.files = t.session.files := by
  rcases ht.get_effects loader current name locator options with
    ⟨e, hbuilds, houtcome, hfiles, hartifacts, -⟩ | ⟨-, hfiles, hartifacts, -⟩
  · rw [hartifacts, hfiles]
    obtain ⟨hcompiles, hinterprets⟩ := Build.artifacts_run t.session.registry.settings options name
      e t.session.files current
    cases hcompiled : (Build.run t.session.registry.settings options name e t.session.files
      current).predictor.isCompiled with
    | false =>
        refine (hinterprets fun h => ?_).symm
        exact absurd (hcompiled.symm.trans ((Build.isCompiled_iff _ _ _ _ _ _).mpr h)) (by simp)
    | true =>
        have hpersist := hcompiles ((Build.isCompiled_iff _ _ _ _ _ _).mp hcompiled)
        cases hdirectory : options.artifactDirectory with
        | some directory =>
            exact absurd ⟨hbuilds, ⟨_, houtcome, hcompiled⟩, hdirectory⟩ (h e directory)
        | none =>
            rw [Build.persist, hdirectory] at hpersist
            exact (Prod.mk.inj hpersist).symm
  · exact ⟨hartifacts, hfiles⟩

theorem Consistent.get_fallback (ht : t.Consistent) :
    (∀ e reason, t.Builds loader name locator e →
      Build.Refuses t.session.registry.settings options e reason →
      (t.session.get loader current [] name locator options).events.filter Event.isFallback =
        [.fallback name reason]) ∧
    ((∀ e reason, t.Builds loader name locator e →
      ¬ Build.Refuses t.session.registry.settings options e reason) →
      (t.session.get loader current [] name locator options).events.filter Event.isFallback =
        []) := by
  rcases ht.get_effects loader current name locator options with
    ⟨e, hbuilds, -, -, -, hfallbacks⟩ | ⟨hnone, -, -, hfallbacks⟩
  · obtain ⟨hrefuses, hallows⟩ := Build.fallbacks_run t.session.registry.settings options name e
      t.session.files current
    rw [hfallbacks]
    refine ⟨fun other reason hother h => ?_, fun h => hallows fun reason => h e reason hbuilds⟩
    obtain rfl := hbuilds.unique hother
    exact hrefuses reason h
  · exact ⟨fun e _ h => absurd h (hnone e), fun _ => hfallbacks⟩

theorem run_get_effects (settings : Settings) (files : FileTree) (requests : List Request)
    (loader : Loader) (current : Place) (name locator : String) (options : BuildOptions) :
    let t := run settings files requests
    let s := t.session
    let r := s.get loader current [] name locator options
    ((∀ e directory, t.Persists loader current name locator options e directory →
        ∃ event, r.events.filter Event.isArtifact = [event] ∧
          (r.session.files, event) = Build.writeArtifact s.files current directory name e ∧
          Build.Writes e name directory current s.files r.session.files event) ∧
      ((∀ e directory, ¬ t.Persists loader current name locator options e directory) →
        r.events.filter Event.isArtifact = [] ∧ r.session.files = s.files)) ∧
    (∀ directory, isModelName name = true →
      artifactPath directory name =
        FileTree.join directory ("lgbm_infer/predictor/_" ++ name ++ ".rs") ∧
      FileTree.place current (artifactPath directory name) = FileTree.place current directory ++
        ["lgbm_infer", "predictor", "_" ++ name ++ ".rs"] ∧
      (∀ (tree : FileTree) (p : Place), tree.resolve current (artifactPath directory name) = .ok p →
        p = FileTree.place current (artifactPath directory name)) ∧
      ∀ other, isModelName other = true → name ≠ other →
        artifactPath directory name ≠ artifactPath directory other ∧
        FileTree.pathTo (FileTree.place current (artifactPath directory name)) ≠
          FileTree.pathTo (FileTree.place current (artifactPath directory other))) ∧
    (∀ (loader' : Loader) (files' : FileTree) (current' : Place) (directory : Option String),
      loader'.fetch files' locator = loader.fetch s.files locator →
      r.AgreeApartFromFiles ({ s with files := files' }.get loader' current' [] name locator
        { options with artifactDirectory := directory })) ∧
    (∀ e reason, t.Builds loader name locator e →
      Build.Refuses s.registry.settings options e reason →
      r.events.filter Event.isFallback = [.fallback name reason]) ∧
    ((∀ e reason, t.Builds loader name locator e →
      ¬ Build.Refuses s.registry.settings options e reason) →
      r.events.filter Event.isFallback = []) := by
  intro t s r
  have ht : t.Consistent := consistent_run settings files requests
  refine ⟨⟨fun e directory h => ?_, ht.get_no_artifact⟩, fun directory hname =>
    ⟨?_, ?_, fun _ _ => FileTree.resolve_ok, ?_⟩, ?_, ht.get_fallback⟩
  · obtain ⟨event, hreported, hwritten⟩ := ht.get_artifact h
    refine ⟨event, hreported, hwritten, ?_⟩
    obtain ⟨hfiles, hevent⟩ := Prod.mk.inj hwritten
    rw [hevent, hfiles]
    exact Build.writes_writeArtifact h.builds.valid e s.files
  · exact artifactPath_eq hname
  · rw [place_artifactPath hname, place_artifactDirectory, List.append_assoc]
    rfl
  · exact fun other hother hne => artifactPath_ne hname hother hne
  · intro loader' files' current' directory hfetch
    exact Session.get_frame hfetch current current' options directory

def writingCall (settings : Settings) (files : FileTree) : GetResult :=
  (run settings files []).session.get leafLoader [] [] "m" "m.txt"
    { artifactDirectory := some "out" }

def blockedFiles : FileTree := { files := [("out", [])] }

theorem run_get_effects_leaf :
    ∃ e, Ensemble.ofBytes leafContent = .ok e ∧
      (writingCall {} {}).events.filter Event.isArtifact =
        [.artifactWritten "m" "out/lgbm_infer/predictor/_m.rs"] ∧
      (writingCall {} {}).session.files.read [] "out/lgbm_infer/predictor/_m.rs" =
        .ok (Routine.text e "m").toUTF8.toList ∧
      (writingCall {} blockedFiles).events.filter Event.isArtifact =
        [.artifactFailed "m" "out/lgbm_infer/predictor/_m.rs"] ∧
      (writingCall {} blockedFiles).session.files.files = [("out", [])] ∧
      (writingCall {} blockedFiles).outcome = (writingCall {} {}).outcome ∧
      ∃ reason, (writingCall { limits := ⟨3, 0⟩ } {}).events.filter Event.isFallback =
        [.fallback "m" reason] := by
  have hruns : (writingCall {} {}).events.filter Event.isArtifact =
        [.artifactWritten "m" "out/lgbm_infer/predictor/_m.rs"] ∧
      (writingCall {} blockedFiles).events.filter Event.isArtifact =
        [.artifactFailed "m" "out/lgbm_infer/predictor/_m.rs"] ∧
      (writingCall {} {}).outcome.map (fun i => i.predictor.isCompiled) = .ok true ∧
      ((Ensemble.ofBytes leafContent).map fun e =>
        (Build.attemptsCompile { limits := ⟨3, 0⟩ } { artifactDirectory := some "out" } e,
          (e.compile ⟨3, 0⟩).toOption.isSome)) = .ok (true, false) := by decide +kernel
  obtain ⟨hwritten, hfailed, hcompiled, hloaded⟩ := hruns
  obtain ⟨e, he, hrefused⟩ := Outcome.map_ok.mp hloaded
  obtain ⟨hattempted, hcompile⟩ := Prod.mk.inj hrefused
  have hpath : artifactPath "out" "m" = "out/lgbm_infer/predictor/_m.rs" := by decide +kernel
  have hbuilds (settings : Settings) (files : FileTree) :
      (run settings files []).Builds leafLoader "m" "m.txt" e :=
    ⟨by decide, fun i h => absurd h.latest (by simp [run, start, History.latest?]),
      leafContent, rfl, he⟩
  obtain ⟨⟨hwrites, -⟩, -, hframe, -⟩ := run_get_effects {} {} [] leafLoader [] "m" "m.txt"
    { artifactDirectory := some "out" }
  obtain ⟨⟨hblocked, -⟩, -⟩ := run_get_effects {} blockedFiles [] leafLoader [] "m" "m.txt"
    { artifactDirectory := some "out" }
  obtain ⟨-, -, -, hrefuses, -⟩ := run_get_effects { limits := ⟨3, 0⟩ } {} [] leafLoader [] "m"
    "m.txt" { artifactDirectory := some "out" }
  -- the blocked call is not run again: it differs from the other by the files only
  have hsame : (writingCall {} blockedFiles).outcome = (writingCall {} {}).outcome :=
    (hframe leafLoader blockedFiles [] (some "out") rfl).outcome
  obtain ⟨event, hevent, -, hwrites⟩ :=
    hwrites e "out" ⟨hbuilds {} {}, Outcome.map_ok.mp hcompiled, rfl⟩
  obtain ⟨event', hevent', -, hblocked⟩ := hblocked e "out"
    ⟨hbuilds {} blockedFiles, Outcome.map_ok.mp (hsame ▸ hcompiled), rfl⟩
  obtain rfl : .artifactWritten "m" _ = event := List.singleton_inj.mp (hwritten.symm.trans hevent)
  obtain rfl : .artifactFailed "m" _ = event' := List.singleton_inj.mp (hfailed.symm.trans hevent')
  rw [← hpath] at hwrites hblocked ⊢
  refine ⟨e, he, hwritten, ?_, hfailed, hblocked.failed rfl, hsame, ?_⟩
  · refine hwrites.readBack rfl ?_ (by decide)
    intro q hq
    obtain rfl := List.prefix_nil.mp hq
    rfl
  · cases hresult : e.compile ⟨3, 0⟩ with
    | ok x => exact absurd hcompile (by simp [hresult, Except.toOption])
    | error reason => exact ⟨reason, hrefuses e reason (hbuilds _ _) ⟨hattempted, hresult⟩⟩

end Trace

end BoostedTrees
