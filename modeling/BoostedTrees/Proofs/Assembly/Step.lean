import BoostedTrees.Proofs.Assembly.Entries

namespace BoostedTrees.Assembly

variable {b : TreeBlock} {s s' : Assembly} {node : Nat} {child : Int}

def Met (s : Assembly) (node : Nat) : Prop :=
  s.progress[node]? = some .pending ∨ s.progress[node]? = some .expanded ∨
    s.progress[node]? = some .built

def Opened (s : Assembly) (node : Nat) : Prop :=
  s.progress[node]? = some .expanded ∨ s.progress[node]? = some .built

theorem Opened.met (h : s.Opened node) : s.Met node := .inr h

theorem not_met (h : s.progress[node]? = some .unseen) : ¬ s.Met node := by
  rintro (hp | hp | hp) <;> simp [h] at hp

theorem not_opened (h : s.progress[node]? = some .pending) : ¬ s.Opened node := by
  rintro (hp | hp) <;> simp [h] at hp

def push (s : Assembly) (target : Nat) : Assembly :=
  ⟨s.progress.setIfInBounds target .pending, s.built, target :: s.stack⟩

def opening (s : Assembly) (node : Nat) : Assembly :=
  ⟨s.progress.setIfInBounds node .expanded, s.built, s.stack⟩

theorem pushChild_cases (b : TreeBlock) (node : Nat) (s : Assembly) (child : Int) :
    (∃ i : Nat, child = -1 - (i : Int) ∧ i < b.leafValue.size ∧
      pushChild b node s child = .ok s) ∨
    (∃ i : Nat, child = i ∧ i < b.numSplits ∧ s.progress[i]? = some .unseen ∧
      pushChild b node s child = .ok (s.push i)) ∨
    ((¬ b.ValidEntry child ∨ ∃ i : Nat, child = i ∧ s.progress[i]? ≠ some .unseen) ∧
      pushChild b node s child = .error (b.invalidChild node child)) := by
  rcases b.childRef_cases node child with ⟨i, hc, hi, href⟩ | ⟨i, hc, hi, href⟩ | ⟨hv, href⟩
  · by_cases hunseen : s.progress[i]? = some .unseen
    · exact .inr (.inl ⟨i, hc, hi, hunseen, by simp [pushChild, href, hunseen, push]⟩)
    · exact .inr (.inr ⟨.inr ⟨i, hc, hunseen⟩, by simp [pushChild, href, hunseen]⟩)
  · exact .inl ⟨i, hc, hi, by simp [pushChild, href]⟩
  · exact .inr (.inr ⟨.inl hv, by simp [pushChild, href]⟩)

theorem pushChild_ok (h : pushChild b node s child = .ok s') :
    (∃ i : Nat, child = -1 - (i : Int) ∧ i < b.leafValue.size ∧ s' = s) ∨
    (∃ i : Nat, child = i ∧ i < b.numSplits ∧ s.progress[i]? = some .unseen ∧ s' = s.push i) := by
  rcases pushChild_cases b node s child with ⟨i, hc, hi, ho⟩ | ⟨i, hc, hi, hu, ho⟩ | ⟨-, ho⟩
  · rw [ho] at h
    exact .inl ⟨i, hc, hi, (Except.ok.inj h).symm⟩
  · rw [ho] at h
    exact .inr ⟨i, hc, hi, hu, (Except.ok.inj h).symm⟩
  · rw [ho] at h
    exact absurd h (by simp)

theorem takeChild_ok {built built' : Array (Option Node)} {n : Node}
    (h : takeChild b node built child = .ok (n, built')) :
    (∃ i : Nat, child = -1 - (i : Int) ∧ i < b.leafValue.size ∧
      n = .leaf (b.leafValue.getD i Binary64.zero) ∧ built' = built) ∨
    (∃ i : Nat, child = i ∧ i < b.numSplits ∧ built[i]? = some (some n) ∧
      built' = built.setIfInBounds i none) := by
  rcases b.childRef_cases node child with ⟨i, hc, hi, href⟩ | ⟨i, hc, hi, href⟩ | ⟨-, href⟩
  · simp only [takeChild, href] at h
    split at h
    · rename_i side hside
      simp only [Except.ok.injEq, Prod.mk.injEq] at h
      obtain ⟨rfl, rfl⟩ := h
      exact .inr ⟨i, hc, hi, Option.join_eq_some_iff.mp hside, rfl⟩
    · exact absurd h (by simp)
  · simp only [takeChild, href, Except.ok.injEq, Prod.mk.injEq] at h
    exact .inl ⟨i, hc, hi, h.1.symm, h.2.symm⟩
  · simp only [takeChild, href] at h
    exact absurd h (by simp)

theorem takeChild_leaf {built : Array (Option Node)} {i : Nat} (hi : i < b.leafValue.size) :
    takeChild b node built (-1 - (i : Int)) =
      .ok (.leaf (b.leafValue.getD i Binary64.zero), built) := by
  have href : b.childRef node (-1 - (i : Int)) = .ok (.leaf i) := by
    unfold TreeBlock.childRef
    rw [if_neg (by omega), if_pos (by omega)]
    congr 2
    omega
  simp [takeChild, href]

theorem takeChild_split {built : Array (Option Node)} {i : Nat} {n : Node} (hi : i < b.numSplits)
    (hn : built[i]? = some (some n)) :
    takeChild b node built (i : Int) = .ok (n, built.setIfInBounds i none) := by
  have href : b.childRef node (i : Int) = .ok (.split i) := TreeBlock.childRef_natCast hi
  simp [takeChild, href, hn]

theorem build_ok :
    build b node s = .ok s' ↔
      ∃ l r split built₁ built₂, takeChild b node s.built (b.entryAt node .left) = .ok (l, built₁) ∧
        takeChild b node built₁ (b.entryAt node .right) = .ok (r, built₂) ∧
        b.buildSplit node l r = .ok split ∧
        s' = ⟨s.progress.setIfInBounds node .built, built₂.setIfInBounds node (some split),
          s.stack⟩ := by
  unfold build
  constructor
  · intro h
    obtain ⟨⟨l, built₁⟩, hl, h⟩ := Outcome.bind_ok.mp h
    obtain ⟨⟨r, built₂⟩, hr, h⟩ := Outcome.bind_ok.mp h
    obtain ⟨split, hsplit, h⟩ := Outcome.bind_ok.mp h
    exact ⟨l, r, split, built₁, built₂, hl, hr, hsplit, (Except.ok.inj h).symm⟩
  · rintro ⟨l, r, split, built₁, built₂, hl, hr, hsplit, rfl⟩
    have h₃ : (b.buildSplit node l r >>= fun split => Except.ok (ε := DumpError)
        (⟨s.progress.setIfInBounds node .built, built₂.setIfInBounds node (some split),
          s.stack⟩ : Assembly)) = .ok _ := Outcome.bind_ok.mpr ⟨split, hsplit, rfl⟩
    exact Outcome.bind_ok.mpr ⟨_, hl, Outcome.bind_ok.mpr ⟨_, hr, h₃⟩⟩

theorem step_pending {rest : List Nat} (hs : s.stack = node :: rest)
    (hp : s.progress[node]? = some .pending) :
    step b s = (pushChild b node (s.opening node) (b.entryAt node .left) >>= fun s =>
      pushChild b node s (b.entryAt node .right)) := by
  obtain ⟨progress, built, stack⟩ := s
  obtain rfl : stack = node :: rest := hs
  simp only at hp
  simp only [step, hp]
  rfl

theorem step_expanded {rest : List Nat} (hs : s.stack = node :: rest)
    (hp : s.progress[node]? = some .expanded) :
    step b s = build b node ⟨s.progress, s.built, rest⟩ := by
  obtain ⟨progress, built, stack⟩ := s
  obtain rfl : stack = node :: rest := hs
  simp only at hp
  simp only [step, hp]

end BoostedTrees.Assembly
