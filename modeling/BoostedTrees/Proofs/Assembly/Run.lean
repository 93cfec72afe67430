import BoostedTrees.Proofs.Assembly.Closing

namespace BoostedTrees.Assembly

variable {b : TreeBlock} {s s' : Assembly} {node : Nat}

theorem Sound.top (hs : Sound b s) {rest : List Nat} (hstack : s.stack = node :: rest) :
    s.progress[node]? = some .pending ∨ s.progress[node]? = some .expanded :=
  (hs.mem_stack node).mp (hstack ▸ List.mem_cons_self)

theorem Sound.step (hb : b.Sized) (hs : Sound b s) (h : step b s = .ok s') : Sound b s' := by
  cases hstack : s.stack with
  | nil =>
      obtain ⟨progress, built, stack⟩ := s
      obtain rfl : stack = [] := hstack
      cases h
      exact hs
  | cons node rest =>
      rcases hs.top hstack with hp | hp
      · exact hs.step_pending hb hstack hp h
      · exact hs.step_expanded hstack hp h

theorem run_stopped (hstack : s.stack = []) (fuel : Nat) : run b fuel s = .ok s := by
  cases fuel with
  | zero => rfl
  | succ fuel => rw [Assembly.run, hstack, List.isEmpty_nil, if_pos rfl]

theorem run_succ (hstack : s.stack ≠ []) (fuel : Nat) :
    run b (fuel + 1) s = Assembly.step b s >>= run b fuel := by
  rw [Assembly.run, List.isEmpty_eq_false_iff.mpr hstack, if_neg (by decide)]
  cases Assembly.step b s <;> rfl

theorem Sound.run (hb : b.Sized) {fuel : Nat} (hs : Sound b s) (h : run b fuel s = .ok s') :
    Sound b s' := by
  induction fuel generalizing s with
  | zero =>
      cases h
      exact hs
  | succ fuel ih =>
      by_cases hstack : s.stack = []
      · rw [run_stopped hstack] at h
        cases h
        exact hs
      · rw [run_succ hstack] at h
        obtain ⟨s₁, hstep, hrun⟩ := Outcome.bind_ok.mp h
        exact ih (hs.step hb hstep) hrun

def remaining (s : Assembly) : Nat :=
  s.progress.countP (· ≠ .built) + s.progress.countP fun p => p = .unseen ∨ p = .pending

theorem remaining_start (hn : 0 < b.numSplits) :
    (Assembly.start b.numSplits).remaining = 2 * b.numSplits := by
  have hroot : (Array.replicate b.numSplits SplitProgress.unseen)[0]? = some .unseen := by
    rw [Array.getElem?_replicate, if_pos hn]
  have h₁ := Outcome.countP_replaced (p := (· ≠ SplitProgress.built)) (a := .pending) hroot
  have h₂ := Outcome.countP_replaced
    (p := fun p : SplitProgress => p = .unseen ∨ p = .pending) (a := .pending) hroot
  simp only [Array.countP_replicate] at h₁ h₂
  simp only [remaining, start]
  simp at h₁ h₂ ⊢
  omega

theorem remaining_pos (hs : Sound b s) {rest : List Nat} (hstack : s.stack = node :: rest) :
    0 < s.remaining := by
  have hpos : 0 < s.progress.countP (· ≠ .built) := by
    rcases hs.top hstack with hp | hp <;>
    · obtain ⟨hlt, hx⟩ := Array.getElem?_eq_some_iff.mp hp
      exact Array.countP_pos_iff.mpr ⟨_, Array.getElem_mem hlt, by simp [hx]⟩
  exact Nat.add_pos_left hpos _

theorem remaining_opening (hp : s.progress[node]? = some .pending) :
    (s.opening node).remaining + 1 = s.remaining := by
  have h₁ := Outcome.countP_replaced (p := (· ≠ SplitProgress.built)) (a := .expanded) hp
  have h₂ := Outcome.countP_replaced
    (p := fun p : SplitProgress => p = .unseen ∨ p = .pending) (a := .expanded) hp
  simp only [remaining, opening]
  simp at h₁ h₂ ⊢
  omega

theorem remaining_pushChild {child : Int} (h : pushChild b node s child = .ok s') :
    s'.remaining = s.remaining := by
  rcases pushChild_ok h with ⟨i, -, -, rfl⟩ | ⟨i, -, -, hu, rfl⟩
  · rfl
  · have h₁ := Outcome.countP_replaced (p := (· ≠ SplitProgress.built)) (a := .pending) hu
    have h₂ := Outcome.countP_replaced
      (p := fun p : SplitProgress => p = .unseen ∨ p = .pending) (a := .pending) hu
    simp only [remaining, push]
    simp at h₁ h₂ ⊢
    omega

theorem remaining_build {rest : List Nat} (hp : s.progress[node]? = some .expanded)
    (h : build b node ⟨s.progress, s.built, rest⟩ = .ok s') : s'.remaining + 1 = s.remaining := by
  obtain ⟨l, r, split, built₁, built₂, -, -, -, rfl⟩ := build_ok.mp h
  have h₁ := Outcome.countP_replaced (p := (· ≠ SplitProgress.built)) (a := .built) hp
  have h₂ := Outcome.countP_replaced
    (p := fun p : SplitProgress => p = .unseen ∨ p = .pending) (a := .built) hp
  simp only [remaining]
  simp at h₁ h₂ ⊢
  omega

theorem remaining_step (hs : Sound b s) {rest : List Nat} (hstack : s.stack = node :: rest)
    (h : step b s = .ok s') : s'.remaining + 1 = s.remaining := by
  rcases hs.top hstack with hp | hp
  · rw [step_pending hstack hp] at h
    obtain ⟨s₁, hleft, hright⟩ := Outcome.bind_ok.mp h
    rw [remaining_pushChild hright, remaining_pushChild hleft, remaining_opening hp]
  · rw [step_expanded hstack hp] at h
    exact remaining_build hp h

theorem run_stack_nil (hb : b.Sized) {fuel : Nat} (hs : Sound b s) (hfuel : s.remaining ≤ fuel)
    (h : run b fuel s = .ok s') : s'.stack = [] := by
  induction fuel generalizing s with
  | zero =>
      cases h
      cases hstack : s'.stack with
      | nil => rfl
      | cons node rest =>
          have := remaining_pos hs hstack
          omega
  | succ fuel ih =>
      by_cases hstack : s.stack = []
      · rw [run_stopped hstack] at h
        cases h
        exact hstack
      · rw [run_succ hstack] at h
        obtain ⟨s₁, hstep, hrun⟩ := Outcome.bind_ok.mp h
        obtain ⟨node, rest, hstack⟩ := List.exists_cons_of_ne_nil hstack
        have := remaining_step hs hstack hstep
        exact ih (hs.step hb hstep) (by omega) hrun

theorem Sound.built_of_met (hs : Sound b s) (hstack : s.stack = []) (hm : s.Met node) :
    s.progress[node]? = some .built := by
  have hmem := hs.mem_stack node
  rw [hstack] at hmem
  rcases hm with hp | hp | hp
  · exact absurd (hmem.mpr (.inl hp)) List.not_mem_nil
  · exact absurd (hmem.mpr (.inr hp)) List.not_mem_nil
  · exact hp

theorem Sound.built_of_reachable (hb : b.Sized) (hs : Sound b s) (hstack : s.stack = [])
    (h : b.Reachable node) : s.progress[node]? = some .built := by
  induction h with
  | root => exact hs.built_of_met hstack hs.root_met
  | child _ hchild _ ih =>
      obtain ⟨-, hentry⟩ := (TreeBlock.childAt?_eq hb).mp hchild
      exact hs.built_of_met hstack (hs.met _ _ _ (.inr ih) hentry)

theorem Sound.root_built (hs : Sound b s) (hstack : s.stack = []) :
    ∃ n, s.built[0]? = some (some n) := by
  rcases hs.kept 0 (hs.built_of_met hstack hs.root_met) with h | ⟨node, side, -, ho, hentry⟩
  · exact h
  · exact absurd hentry (hs.ne_root node side ho)

theorem numBuilt_le (hs : Sound b s) : s.numBuilt ≤ b.numSplits :=
  hs.progress_size ▸ Array.countP_le_size

end BoostedTrees.Assembly
