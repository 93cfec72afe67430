import BoostedTrees.Proofs.Ensemble.Limits
import BoostedTrees.Proofs.Ensemble.Sums
import BoostedTrees.Proofs.Registry.Failures

namespace BoostedTrees

namespace Predictor

structure Agrees (p q : Predictor) : Prop where
  raw : ∀ row, p.raw row = q.raw row
  predict : ∀ row, p.predict row = q.predict row
  raw? : ∀ row, p.raw? row = q.raw? row
  predict? : ∀ row, p.predict? row = q.predict? row
  batch : ∀ rows, p.batch rows = q.batch rows

theorem agrees_of_runs {e : Ensemble} {x y : Executor} (hx : e.Runs x) (hy : e.Runs y)
    (name other : String) : Agrees ⟨name, e, x⟩ ⟨other, e, y⟩ := by
  have hraw : ∀ row, raw ⟨name, e, x⟩ row = raw ⟨other, e, y⟩ row := by
    intro row
    rw [raw, raw, sums?, sums?, hx.sums?_eq, hy.sums?_eq]
    rfl
  have hpredict : predict ⟨name, e, x⟩ = predict ⟨other, e, y⟩ := by
    funext row
    rw [predict, predict, hraw]
  refine ⟨hraw, congrFun hpredict, fun row => ?_, fun row => ?_, fun rows => ?_⟩
  · cases row with
    | none => rfl
    | some row => exact hraw row
  · cases row with
    | none => rfl
    | some row => exact congrFun hpredict row
  · rw [batch, batch, hpredict]

end Predictor

namespace Build

structure Compiles (settings : Settings) (options : BuildOptions) (e : Ensemble) : Prop where
  enabled : options.compile.getD settings.compileEnabled = true
  fewTrees : e.trees.length ≤ settings.generationThreshold
  fewNodes : (e.trees.map fun t => t.root.size).sum ≤ settings.limits.maxNodes
  shallow : ∀ t ∈ e.trees, t.root.height ≤ settings.limits.maxDepth

variable (settings : Settings) (options : BuildOptions) (name : String) (e : Ensemble)

theorem compiles_iff : Compiles settings options e ↔
    attemptsCompile settings options e = true ∧ ∃ x, e.compile settings.limits = .ok x := by
  rw [Ensemble.exists_compile, attemptsCompile, isEnabled, Bool.and_eq_true, decide_eq_true_iff]
  constructor
  · rintro ⟨henabled, htrees, hnodes, hdepth⟩
    exact ⟨⟨henabled, htrees⟩, hnodes, hdepth⟩
  · rintro ⟨⟨henabled, htrees⟩, hnodes, hdepth⟩
    exact ⟨henabled, htrees, hnodes, hdepth⟩

theorem predictor_cases (files : FileTree) (current : Place) :
    (Compiles settings options e ∧ ∃ nodes, e.compile settings.limits = .ok (.compiled nodes) ∧
      (run settings options name e files current).predictor = ⟨name, e, .compiled nodes⟩) ∨
    (¬ Compiles settings options e ∧
      (run settings options name e files current).predictor = .interpreted name e) := by
  rw [compiles_iff, run]
  cases hattempts : attemptsCompile settings options e with
  | false => exact .inr ⟨by simp, by rw [if_neg Bool.false_ne_true]⟩
  | true =>
      rw [if_pos rfl, Predictor.compiled]
      cases hcompile : e.compile settings.limits with
      | error reason => exact .inr ⟨by simp, rfl⟩
      | ok x =>
          obtain ⟨-, nodes, rfl, -⟩ := Ensemble.compile_ok.mp hcompile
          exact .inl ⟨⟨rfl, _, rfl⟩, nodes, rfl, rfl⟩

theorem isCompiled_iff (files : FileTree) (current : Place) :
    (run settings options name e files current).predictor.isCompiled = true ↔
      Compiles settings options e := by
  rcases predictor_cases settings options name e files current with
    ⟨hcompiles, nodes, -, hp⟩ | ⟨hcompiles, hp⟩
  · rw [hp]
    exact ⟨fun _ => hcompiles, fun _ => rfl⟩
  · rw [hp]
    exact ⟨fun h => absurd h Bool.false_ne_true, fun h => absurd h hcompiles⟩

theorem exists_runs (files : FileTree) (current : Place) :
    ∃ x, e.Runs x ∧ (run settings options name e files current).predictor = ⟨name, e, x⟩ := by
  rcases predictor_cases settings options name e files current with
    ⟨-, nodes, hcompile, hp⟩ | ⟨-, hp⟩
  · exact ⟨_, .inr ⟨_, hcompile⟩, hp⟩
  · exact ⟨_, .inl rfl, hp⟩

end Build

structure BuildCall (content : List UInt8) where
  session : Session
  loader : Loader
  current : Place
  name : String
  locator : String
  options : BuildOptions
  valid : isModelName name = true
  missing : session.cached? name = none
  fetched : loader.fetch session.files locator = .bytes content

namespace BuildCall

variable {content : List UInt8}

def outcome (c : BuildCall content) : Except GetFailure Instance :=
  (c.session.get c.loader c.current [] c.name c.locator c.options).outcome

def settings (c : BuildCall content) : Settings := c.session.registry.settings

def predictor (c : BuildCall content) (e : Ensemble) : Predictor :=
  (Build.run c.settings c.options c.name e c.session.files c.current).predictor

theorem outcome_eq (c : BuildCall content) {e : Ensemble} (he : Ensemble.ofBytes content = .ok e) :
    c.outcome = .ok ⟨c.session.registry.nextNumber, c.predictor e⟩ := by
  have hload : Session.load c.loader (c.session.forget c.name).files c.locator = .ok e :=
    Session.load_ok.mpr ⟨content, c.fetched, he⟩
  rw [outcome, Session.get_of_uncached c.loader c.current c.locator c.options c.valid c.missing,
    Session.build, hload]
  rfl

theorem strategy_unobservable :
    (∀ (settings : Settings) (options : BuildOptions) (name : String) (e : Ensemble)
      (files : FileTree) (current : Place),
      let p := (Build.run settings options name e files current).predictor
      p.ensemble = e ∧ (p.isCompiled = true ↔ Build.Compiles settings options e) ∧
      (p.isCompiled = false → p = .interpreted name e) ∧
      ∀ (settings' : Settings) (options' : BuildOptions) (name' : String) (files' : FileTree)
        (current' : Place),
        p.Agrees (Build.run settings' options' name' e files' current').predictor) ∧
    ∀ (content : List UInt8) (e : Ensemble), Ensemble.ofBytes content = .ok e →
      ∀ c : BuildCall content, ∃ i, c.outcome = .ok i ∧ i.predictor.ensemble = e ∧
        (i.predictor.isCompiled = true ↔ Build.Compiles c.settings c.options e) ∧
        ∀ c' : BuildCall content, ∃ i', c'.outcome = .ok i' ∧ i.predictor.Agrees i'.predictor := by
  have hagrees : ∀ settings options name e files current settings' options' name' files' current',
      (Build.run settings options name e files current).predictor.Agrees
        (Build.run settings' options' name' e files' current').predictor := by
    intro settings options name e files current settings' options' name' files' current'
    obtain ⟨x, hx, hp⟩ := Build.exists_runs settings options name e files current
    obtain ⟨y, hy, hq⟩ := Build.exists_runs settings' options' name' e files' current'
    rw [hp, hq]
    exact Predictor.agrees_of_runs hx hy name name'
  have hensemble : ∀ settings options name e files current,
      (Build.run settings options name e files current).predictor.ensemble = e := by
    intro settings options name e files current
    obtain ⟨x, -, hp⟩ := Build.exists_runs settings options name e files current
    rw [hp]
  constructor
  · intro settings options name e files current p
    refine ⟨hensemble settings options name e files current,
      Build.isCompiled_iff settings options name e files current, fun hp => ?_,
      hagrees settings options name e files current⟩
    rcases Build.predictor_cases settings options name e files current with
      ⟨hcompiles, -⟩ | ⟨-, hinterpreted⟩
    · have hcompiled := (Build.isCompiled_iff settings options name e files current).mpr hcompiles
      exact absurd (hp.symm.trans hcompiled) Bool.false_ne_true
    · exact hinterpreted
  · intro content e he c
    refine ⟨_, c.outcome_eq he, hensemble _ _ _ e _ _, Build.isCompiled_iff _ _ _ e _ _, ?_⟩
    intro c'
    exact ⟨_, c'.outcome_eq he, hagrees _ _ _ e _ _ _ _ _ _ _⟩

def ofLeaf (settings : Settings) (options : BuildOptions) : BuildCall Trace.leafContent where
  session := { registry := { settings } }
  loader := Trace.leafLoader
  current := []
  name := "m"
  locator := "m.txt"
  options := options
  valid := by decide
  missing := rfl
  fetched := rfl

theorem strategy_unobservable_leaf :
    ∃ p q r, (ofLeaf {} {}).outcome = .ok p ∧
      (ofLeaf {} { compile := some false }).outcome = .ok q ∧
      (ofLeaf { generationThreshold := 0 } {}).outcome = .ok r ∧
      p.predictor.isCompiled = true ∧ q.predictor.isCompiled = false ∧
      r.predictor.isCompiled = false ∧ p.predictor.Agrees q.predictor ∧
      p.predictor.Agrees r.predictor := by
  obtain ⟨e, he⟩ := Outcome.exists_ok (x := Ensemble.ofBytes Trace.leafContent)
    (by decide +kernel)
  obtain ⟨p, hp, -, -, hagrees⟩ := strategy_unobservable.2 Trace.leafContent e he (ofLeaf {} {})
  obtain ⟨q, hq, hpq⟩ := hagrees (ofLeaf {} { compile := some false })
  obtain ⟨r, hr, hpr⟩ := hagrees (ofLeaf { generationThreshold := 0 } {})
  have hcompiled : (ofLeaf {} {}).outcome.map (fun i => i.predictor.isCompiled) = .ok true ∧
      (ofLeaf {} { compile := some false }).outcome.map (fun i => i.predictor.isCompiled) =
        .ok false ∧
      (ofLeaf { generationThreshold := 0 } {}).outcome.map (fun i => i.predictor.isCompiled) =
        .ok false := by decide +kernel
  rw [hp, hq, hr] at hcompiled
  obtain ⟨hpc, hqc, hrc⟩ := hcompiled
  exact ⟨p, q, r, hp, hq, hr, Except.ok.inj hpc, Except.ok.inj hqc, Except.ok.inj hrc, hpq, hpr⟩

end BuildCall

end BoostedTrees
