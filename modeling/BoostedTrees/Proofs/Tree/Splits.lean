import BoostedTrees.Proofs.Tree.Ranges

namespace BoostedTrees

namespace Node

inductive HasSplit (feature : Nat) (test : SplitTest) : Node → Prop
  | here {l r : Node} : HasSplit feature test (.split feature test l r)
  | left {feature' : Nat} {test' : SplitTest} {l r : Node} (h : HasSplit feature test l) :
      HasSplit feature test (.split feature' test' l r)
  | right {feature' : Nat} {test' : SplitTest} {l r : Node} (h : HasSplit feature test r) :
      HasSplit feature test (.split feature' test' l r)

variable {feature : Nat} {test : SplitTest}

theorem not_hasSplit_leaf {value : Float} : ¬ HasSplit feature test (.leaf value) := by
  intro h
  cases h

theorem hasSplit_split {feature' : Nat} {test' : SplitTest} {l r : Node} :
    HasSplit feature test (.split feature' test' l r) ↔
      (feature = feature' ∧ test = test') ∨ l.HasSplit feature test ∨ r.HasSplit feature test := by
  constructor
  · intro h
    cases h with
    | here => exact .inl ⟨rfl, rfl⟩
    | left h => exact .inr (.inl h)
    | right h => exact .inr (.inr h)
  · rintro (⟨rfl, rfl⟩ | h | h)
    · exact .here
    · exact .left h
    · exact .right h

theorem inside_iff {store : CategorySet} {n : Node} :
    n.Inside store ↔ ∀ feature range, n.HasSplit feature (.categorical range) →
      store.Inside range := by
  induction n with
  | leaf value => simp [Inside, not_hasSplit_leaf]
  | split feature test l r ihl ihr =>
      rw [Inside, ihl, ihr]
      constructor
      · rintro ⟨htest, hl, hr⟩ feature' range h
        rcases hasSplit_split.mp h with ⟨rfl, rfl⟩ | h | h
        · exact htest range rfl
        · exact hl feature' range h
        · exact hr feature' range h
      · intro h
        refine ⟨?_, fun f range hl => h f range (.left hl), fun f range hr => h f range (.right hr)⟩
        rintro range rfl
        exact h feature range .here

def anyCategorical : Node → Bool
  | .leaf _ => false
  | .split _ test l r => test.isCategorical || l.anyCategorical || r.anyCategorical

def greatestFeature : Node → Option Nat
  | .leaf _ => none
  | .split feature _ l r => max (some feature) (max l.greatestFeature r.greatestFeature)

theorem foldl_isCategorical (n : Node) (depth : Nat) (found : Bool) :
    (n.labels depth).foldl (fun found p => match p.2 with
      | .leaf _ => found
      | .split _ test => found || test.isCategorical) found = (found || n.anyCategorical) := by
  induction n generalizing depth found with
  | leaf value => simp [labels, anyCategorical]
  | split feature test l r ihl ihr =>
      rw [labels, List.cons_append, List.foldl_cons, List.foldl_append, ihl, ihr, anyCategorical]
      simp only [Bool.or_assoc]

theorem max_option_assoc (a b c : Option Nat) : max (max a b) c = max a (max b c) := by
  cases a <;> cases b <;> cases c <;> simp [Nat.max_assoc]

theorem foldl_maxFeature (n : Node) (depth : Nat) (greatest : Option Nat) :
    (n.labels depth).foldl (fun greatest p => match p.2 with
      | .leaf _ => greatest
      | .split feature _ => Tree.maxFeature greatest feature) greatest =
        max greatest n.greatestFeature := by
  induction n generalizing depth greatest with
  | leaf value => simp [labels, greatestFeature]
  | split feature test l r ihl ihr =>
      have hmax : Tree.maxFeature greatest feature = max greatest (some feature) := by
        cases greatest <;> simp [Tree.maxFeature]
      rw [labels, List.cons_append, List.foldl_cons, List.foldl_append, ihl, ihr, greatestFeature]
      simp only [hmax, max_option_assoc]

theorem anyCategorical_iff {n : Node} :
    n.anyCategorical = true ↔ ∃ feature range, n.HasSplit feature (.categorical range) := by
  induction n with
  | leaf value => simp [anyCategorical, not_hasSplit_leaf]
  | split feature test l r ihl ihr =>
      have htest : test.isCategorical = true ↔ ∃ range, .categorical range = test := by
        cases test <;> simp [SplitTest.isCategorical]
      rw [anyCategorical, Bool.or_eq_true, Bool.or_eq_true, ihl, ihr, htest, or_assoc]
      simp only [hasSplit_split, exists_or, exists_and_left, exists_eq_left]

theorem max_option_le {a b : Option Nat} {bound : Nat} :
    (∀ f, max a b = some f → f ≤ bound) ↔
      (∀ f, a = some f → f ≤ bound) ∧ ∀ f, b = some f → f ≤ bound := by
  cases a with
  | none => simp
  | some x =>
      cases b with
      | none => simp
      | some y => simp only [Option.max_some_some, Option.some.injEq, forall_eq', Nat.max_le]

theorem greatestFeature_le {n : Node} {bound : Nat} :
    (∀ f, n.greatestFeature = some f → f ≤ bound) ↔
      ∀ feature test, n.HasSplit feature test → feature ≤ bound := by
  induction n with
  | leaf value => simp [greatestFeature, not_hasSplit_leaf]
  | split feature test l r ihl ihr =>
      rw [greatestFeature, max_option_le, max_option_le, ihl, ihr]
      simp only [hasSplit_split]
      constructor
      · rintro ⟨hhere, hl, hr⟩ f s (⟨rfl, rfl⟩ | h | h)
        · exact hhere f rfl
        · exact hl f s h
        · exact hr f s h
      · intro h
        refine ⟨?_, fun f s hl => h f s (.inr (.inl hl)), fun f s hr => h f s (.inr (.inr hr))⟩
        rintro f ⟨⟩
        exact h feature test (.inl ⟨rfl, rfl⟩)

end Node

namespace Tree

variable {t : Tree}

theorem hasCategorical_eq : t.hasCategorical = t.root.anyCategorical := by
  rw [hasCategorical, Node.visit_eq_foldl]
  exact (t.root.foldl_isCategorical 0 false).trans (Bool.false_or _)

theorem maxSplitFeature_eq : t.maxSplitFeature = t.root.greatestFeature := by
  rw [maxSplitFeature, Node.visit_eq_foldl]
  exact (t.root.foldl_maxFeature 0 none).trans Option.max_none_left

theorem maxSplitFeature_le {bound : Nat} :
    (∀ f, t.maxSplitFeature = some f → f ≤ bound) ↔
      ∀ feature test, t.root.HasSplit feature test → feature ≤ bound := by
  rw [maxSplitFeature_eq, Node.greatestFeature_le]

theorem hasCategorical_iff :
    t.hasCategorical = true ↔
      ∃ feature range, t.root.HasSplit feature (.categorical range) := by
  rw [hasCategorical_eq, Node.anyCategorical_iff]

theorem rangeOutside?_eq_none_iff :
    t.rangeOutside? = none ↔ ∀ feature range, t.root.HasSplit feature (.categorical range) →
      t.categories.Inside range :=
  rangeOutside?_eq_none.trans Node.inside_iff

end Tree

end BoostedTrees
