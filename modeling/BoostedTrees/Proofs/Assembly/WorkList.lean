import BoostedTrees.Proofs.Assembly.Acceptance

namespace BoostedTrees.Assembly

variable {b : TreeBlock} {s s' s₁ s₂ : Assembly} {k k' node node' target : Nat}
  {side side' : Direction} {rest rest' : List Nat}

inductive Reached (b : TreeBlock) : Nat → Assembly → Prop
  | start (hn : 0 < b.numSplits) : Reached b 0 (.start b.numSplits)
  | turn {k : Nat} {s s' : Assembly} (h : Reached b k s) (hstack : s.stack ≠ [])
      (hstep : step b s = .ok s') : Reached b (k + 1) s'

inductive AtEntry (b : TreeBlock) (s : Assembly) (node : Nat) : Direction → Assembly → Prop
  | left {rest : List Nat} (hstack : s.stack = node :: rest)
      (hp : s.progress[node]? = some .pending) : AtEntry b s node .left (s.opening node)
  | right {s₁ s₂ : Assembly} (h : AtEntry b s node .left s₁)
      (hpush : pushChild b node s₁ (b.entryAt node .left) = .ok s₂) : AtEntry b s node .right s₂

def Pushes (b : TreeBlock) (s : Assembly) (side : Direction) (target : Nat) : Prop :=
  ∃ node s₁ s₂, AtEntry b s node side s₁ ∧
    pushChild b node s₁ (b.entryAt node side) = .ok s₂ ∧ s₂.stack = target :: s₁.stack

structure Onward (s s' : Assembly) : Prop where
  met : ∀ j, s.Met j → s'.Met j
  opened : ∀ j, s.Opened j → s'.Opened j
  built : ∀ j : Nat, s.progress[j]? = some .built → s'.progress[j]? = some .built

theorem Onward.refl (s : Assembly) : Onward s s := ⟨fun _ => id, fun _ => id, fun _ => id⟩

theorem Onward.trans (h : Onward s s₁) (h' : Onward s₁ s₂) : Onward s s₂ where
  met j hj := h'.met j (h.met j hj)
  opened j hj := h'.opened j (h.opened j hj)
  built j hj := h'.built j (h.built j hj)

theorem Onward.opening (hp : s.progress[node]? = some .pending) : Onward s (s.opening node) where
  met j := (opening_met hp j).mpr
  opened j hj := (opening_opened hp j).mpr (.inr hj)
  built j := (opening_built hp j).mpr

theorem Onward.pushChild {child : Int} (h : Assembly.pushChild b node s child = .ok s') :
    Onward s s' where
  met j hj := by
    rcases pushChild_ok h with ⟨i, -, -, rfl⟩ | ⟨i, -, -, hu, rfl⟩
    · exact hj
    · exact (push_met hu j).mpr (.inl hj)
  opened j := (pushChild_opened h j).mpr
  built j := (pushChild_progress (.inr rfl) h j).mpr

theorem Onward.closes {split : Node} (hc : Closes b s s' node split) : Onward s s' where
  met j := (hc.met_iff j).mpr
  opened j := (hc.opened_iff j).mpr
  built _ := hc.built_of_built

section Turn

theorem AtEntry.onward (h : AtEntry b s node side s₁) : Onward s s₁ := by
  induction h with
  | left _ hp => exact .opening hp
  | right _ hpush ih => exact ih.trans (.pushChild hpush)

theorem AtEntry.opened (h : AtEntry b s node side s₁) : s₁.Opened node := by
  induction h with
  | left _ hp => exact (opening_opened hp node).mpr (.inl rfl)
  | right _ hpush ih => exact (pushChild_opened hpush node).mpr ih

theorem AtEntry.unique (h : AtEntry b s node side s₁) (h' : AtEntry b s node' side s₂) :
    node = node' ∧ s₁ = s₂ := by
  induction h generalizing s₂ with
  | left hstack _ =>
      cases h' with
      | left hstack' _ =>
          obtain ⟨rfl, -⟩ := List.cons.inj (hstack.symm.trans hstack')
          exact ⟨rfl, rfl⟩
  | right _ hpush ih =>
      cases h' with
      | right h' hpush' =>
          obtain ⟨rfl, rfl⟩ := ih h'
          exact ⟨rfl, Except.ok.inj (hpush.symm.trans hpush')⟩

theorem AtEntry.follows (h : AtEntry b s node side s₁) (hstep : step b s = .ok s') :
    ∃ s₂, pushChild b node s₁ (b.entryAt node side) = .ok s₂ ∧ Onward s₂ s' := by
  cases h with
  | left hstack hp =>
      rw [step_pending hstack hp] at hstep
      obtain ⟨s₂, hleft, hright⟩ := Outcome.bind_ok.mp hstep
      exact ⟨s₂, hleft, .pushChild hright⟩
  | right h hpush =>
      cases h with
      | left hstack hp =>
          rw [step_pending hstack hp] at hstep
          obtain ⟨s₂, hleft, hright⟩ := Outcome.bind_ok.mp hstep
          obtain rfl := Except.ok.inj (hpush.symm.trans hleft)
          exact ⟨s', hright, .refl s'⟩

theorem Sound.step_cases (hs : Sound b s) (hstack : s.stack = node :: rest)
    (h : Assembly.step b s = .ok s') :
    (s.progress[node]? = some .pending ∧ ∃ s₁, AtEntry b s node .right s₁ ∧
      Assembly.pushChild b node s₁ (b.entryAt node .right) = .ok s') ∨
    (s.progress[node]? = some .expanded ∧ ∃ split, Closes b s s' node split) := by
  rcases hs.top hstack with hp | hp
  · rw [Assembly.step_pending hstack hp] at h
    obtain ⟨s₁, hleft, hright⟩ := Outcome.bind_ok.mp h
    exact .inl ⟨hp, s₁, .right (.left hstack hp) hleft, hright⟩
  · exact .inr ⟨hp, closes_of_build hs hstack hp h⟩

theorem Sound.onward (hs : Sound b s) (hstack : s.stack ≠ []) (h : Assembly.step b s = .ok s') :
    Onward s s' := by
  obtain ⟨node, rest, hstack⟩ := List.exists_cons_of_ne_nil hstack
  rcases hs.step_cases hstack h with ⟨-, s₁, hat, hright⟩ | ⟨-, split, hc⟩
  · exact hat.onward.trans (.pushChild hright)
  · exact .closes hc

theorem Sound.top_onward (hs : Sound b s) (hstack : s.stack = node :: rest)
    (h : Assembly.step b s = .ok s') (hon : Onward s' s₁) :
    s₁.progress[node]? ≠ s.progress[node]? := by
  rcases hs.step_cases hstack h with ⟨hp, s₂, hat, hright⟩ | ⟨hp, split, hc⟩
  · have hopened := hon.opened node ((pushChild_opened hright node).mpr hat.opened)
    rw [hp]
    exact fun hp' => not_opened hp' hopened
  · have hbuilt := hon.built node (by rw [hc.progress, if_pos rfl])
    rw [hp, hbuilt]
    simp

end Turn

section Pushes

theorem pushChild_puts {child : Int} (h : pushChild b node s child = .ok s')
    (hstack : s'.stack = target :: s.stack) : ¬ s.Met target ∧ s'.Met target := by
  rcases pushChild_ok h with ⟨i, -, -, rfl⟩ | ⟨i, -, -, hu, rfl⟩
  · exact absurd hstack List.ne_cons_self
  · obtain ⟨rfl, -⟩ := List.cons.inj hstack
    exact ⟨not_met hu, (push_met hu i).mpr (.inr rfl)⟩

theorem pushChild_stack {child : Int} (h : pushChild b node s child = .ok s')
    (hmem : target ∈ s'.stack) : target ∈ s.stack ∨ s'.stack = target :: s.stack := by
  rcases pushChild_ok h with ⟨i, -, -, rfl⟩ | ⟨i, -, -, -, rfl⟩
  · exact .inl hmem
  · rcases List.mem_cons.mp hmem with rfl | hmem
    · exact .inr rfl
    · exact .inl hmem

theorem Pushes.not_met (h : Pushes b s side target) : ¬ s.Met target := by
  obtain ⟨node, s₁, s₂, hat, hpush, hstack⟩ := h
  exact fun hm => (pushChild_puts hpush hstack).1 (hat.onward.met target hm)

theorem Pushes.met (h : Pushes b s side target) (hstep : step b s = .ok s') : s'.Met target := by
  obtain ⟨node, s₁, s₂, hat, hpush, hstack⟩ := h
  obtain ⟨s₃, hpush', hon⟩ := hat.follows hstep
  obtain rfl := Except.ok.inj (hpush.symm.trans hpush')
  exact hon.met target (pushChild_puts hpush hstack).2

theorem Pushes.not_both (h : Pushes b s .left target) : ¬ Pushes b s .right target := by
  obtain ⟨node, s₁, s₂, hat, hpush, hstack⟩ := h
  rintro ⟨node', s₃, s₄, hat', hpush', hstack'⟩
  -- the right entry is come to in the state that the push at the left one has left
  obtain ⟨rfl, rfl⟩ := (AtEntry.right hat hpush).unique hat'
  exact (pushChild_puts hpush' hstack').1 (pushChild_puts hpush hstack).2

theorem Pushes.side_eq (h : Pushes b s side target) (h' : Pushes b s side' target) :
    side = side' := by
  cases side <;> cases side'
  · rfl
  · exact absurd h' h.not_both
  · exact absurd h h'.not_both
  · rfl

theorem AtEntry.mem_stack (h : AtEntry b s node side s₁) (hmem : target ∈ s₁.stack) :
    target ∈ s.stack ∨ ∃ side', Pushes b s side' target := by
  induction h with
  | left _ _ => exact .inl hmem
  | right h hpush ih =>
      rcases pushChild_stack hpush hmem with hmem | hstack
      · exact ih hmem
      · exact .inr ⟨.left, _, _, _, h, hpush, hstack⟩

theorem Sound.mem_stack_step (hs : Sound b s) (hstack : s.stack ≠ [])
    (h : Assembly.step b s = .ok s') (hmem : target ∈ s'.stack) :
    target ∈ s.stack ∨ ∃ side, Pushes b s side target := by
  obtain ⟨node, rest, hstack⟩ := List.exists_cons_of_ne_nil hstack
  rcases hs.step_cases hstack h with ⟨-, s₁, hat, hright⟩ | ⟨-, split, hc⟩
  · rcases pushChild_stack hright hmem with hmem | hstack'
    · exact hat.mem_stack hmem
    · exact .inr ⟨.right, node, s₁, s', hat, hright, hstack'⟩
  · exact .inl (hc.stack ▸ List.mem_cons_of_mem node hmem)

end Pushes

namespace Reached

theorem pos (h : Reached b k s) : 0 < b.numSplits := by
  induction h with
  | start hn => exact hn
  | turn _ _ _ ih => exact ih

theorem sound (hb : b.Sized) (h : Reached b k s) : Sound b s := by
  induction h with
  | start hn => exact sound_start hn
  | turn _ _ hstep ih => exact ih.step hb hstep

theorem remaining_add (hb : b.Sized) (h : Reached b k s) :
    s.remaining + k = 2 * b.numSplits := by
  induction h with
  | start hn => exact remaining_start hn
  | turn h hstack hstep ih =>
      obtain ⟨node, rest, hstack⟩ := List.exists_cons_of_ne_nil hstack
      have := remaining_step (h.sound hb) hstack hstep
      omega

theorem lt (hb : b.Sized) (h : Reached b k s) (hstack : s.stack ≠ []) :
    k < 2 * b.numSplits := by
  obtain ⟨node, rest, hstack⟩ := List.exists_cons_of_ne_nil hstack
  have := remaining_pos (h.sound hb) hstack
  have := h.remaining_add hb
  omega

theorem unique (h : Reached b k s) (h' : Reached b k s') : s = s' := by
  induction h generalizing s' with
  | start hn =>
      cases h'
      rfl
  | turn _ _ hstep ih =>
      cases h' with
      | turn h' _ hstep' =>
          obtain rfl := ih h'
          exact Except.ok.inj (hstep.symm.trans hstep')

theorem run_eq (h : Reached b k s) (fuel : Nat) :
    run b (fuel + k) (.start b.numSplits) = run b fuel s := by
  induction h generalizing fuel with
  | start hn => rfl
  | @turn k s s' _ hstack hstep ih =>
      rw [Nat.add_comm k 1, ← Nat.add_assoc, ih, run_succ hstack, hstep]
      rfl

theorem run_ends (h : Reached b k s) (fuel : Nat) :
    ∃ k' s', Reached b k' s' ∧ (run b fuel s = .ok s' ∨
      ∃ e, s'.stack ≠ [] ∧ step b s' = .error e ∧ run b fuel s = .error e) := by
  induction fuel generalizing k s with
  | zero => exact ⟨k, s, h, .inl rfl⟩
  | succ fuel ih =>
      by_cases hstack : s.stack = []
      · exact ⟨k, s, h, .inl (run_stopped hstack _)⟩
      · rw [run_succ hstack]
        cases hstep : step b s with
        | ok s₁ => exact ih (h.turn hstack hstep)
        | error e => exact ⟨k, s, h, .inr ⟨e, hstack, hstep, rfl⟩⟩

theorem onward (hb : b.Sized) (h : Reached b k s) (h' : Reached b k' s') (hlt : k < k') :
    ∃ s₁, step b s = .ok s₁ ∧ Onward s₁ s' := by
  -- on the later state: the turn from `s` is its last one, or one before that
  induction h' with
  | start hn => exact absurd hlt (Nat.not_lt_zero k)
  | @turn m t t' h' hstack hstep ih =>
      rcases Nat.lt_succ_iff_lt_or_eq.mp hlt with hlt | rfl
      · obtain ⟨s₁, hs₁, hon⟩ := ih hlt
        exact ⟨s₁, hs₁, hon.trans ((h'.sound hb).onward hstack hstep)⟩
      · obtain rfl := h.unique h'
        exact ⟨t', hstep, .refl t'⟩

theorem not_pushes_again (hb : b.Sized) (h : Reached b k s) (hp : Pushes b s side target)
    (h' : Reached b k' s') (hlt : k < k') : ¬ Pushes b s' side' target := by
  obtain ⟨s₁, hstep, hon⟩ := h.onward hb h' hlt
  -- only a split that has not been met is put on the stack, and the first push meets it
  exact fun hp' => hp'.not_met (hon.met target (hp.met hstep))

theorem pushed_once (hb : b.Sized) (h : Reached b k s) (h' : Reached b k' s')
    (hp : Pushes b s side target) (hp' : Pushes b s' side' target) : k = k' ∧ side = side' := by
  rcases Nat.lt_trichotomy k k' with hlt | rfl | hlt
  · exact absurd hp' (h.not_pushes_again hb hp h' hlt)
  · obtain rfl := h.unique h'
    exact ⟨rfl, hp.side_eq hp'⟩
  · exact absurd hp (h'.not_pushes_again hb hp' h hlt)

theorem top_once (hb : b.Sized) (h : Reached b k s) (h' : Reached b k' s')
    (hstack : s.stack = node :: rest) (hstack' : s'.stack = node :: rest')
    (hp : s.progress[node]? = s'.progress[node]?) : k = k' := by
  rcases Nat.lt_trichotomy k k' with hlt | heq | hlt
  · obtain ⟨s₁, hstep, hon⟩ := h.onward hb h' hlt
    exact absurd hp.symm ((h.sound hb).top_onward hstack hstep hon)
  · exact heq
  · obtain ⟨s₁, hstep, hon⟩ := h'.onward hb h hlt
    exact absurd hp ((h'.sound hb).top_onward hstack' hstep hon)

theorem mem_stack (hb : b.Sized) (h : Reached b k s) (hmem : target ∈ s.stack) :
    target = 0 ∨ ∃ k' s' side, k' < k ∧ Reached b k' s' ∧ Pushes b s' side target := by
  induction h with
  | start hn => exact .inl (List.mem_singleton.mp hmem)
  | @turn k s s' h hstack hstep ih =>
      rcases (h.sound hb).mem_stack_step hstack hstep hmem with hmem | ⟨side, hp⟩
      · rcases ih hmem with h0 | ⟨k', s', side, hlt, h', hp⟩
        · exact .inl h0
        · exact .inr ⟨k', s', side, Nat.lt_succ_of_lt hlt, h', hp⟩
      · exact .inr ⟨k, s, side, Nat.lt_succ_self k, h, hp⟩

theorem children (hb : b.Sized) (h : Reached b k s) (hstack : s.stack = node :: rest)
    (hp : s.progress[node]? = some .expanded) (hentry : b.entryAt node side = target) :
    s.progress[target]? = some .built ∧
      ∃ n, s.built[target]? = some (some n) ∧ b.Grows target n := by
  have hs := h.sound hb
  rcases hs.above [] node rest side target hstack hp (.inl hp) hentry with hmem | ⟨n, hn⟩
  · exact absurd hmem List.not_mem_nil
  · obtain ⟨hbuilt, hgrows, -⟩ := hs.grown target n hn
    exact ⟨hbuilt, n, hn, hgrows⟩

theorem assemble_ok (hb : b.Sized) {root : Node} :
    b.assemble = .ok root ↔
      ∃ k s, Reached b k s ∧ s.stack = [] ∧ s.built[0]? = some (some root) := by
  rw [TreeBlock.assemble_ok]
  constructor
  · rintro ⟨hn, -, s, hrun, hroot⟩
    have hstack := run_stack_nil hb (sound_start hn) (Nat.le_of_eq (remaining_start hn)) hrun
    obtain ⟨k, s', h, hok | ⟨e, -, -, herror⟩⟩ := (Reached.start hn).run_ends (2 * b.numSplits)
    · obtain rfl := Except.ok.inj (hrun.symm.trans hok)
      exact ⟨k, s, h, hstack, hroot⟩
    · exact absurd (hrun.symm.trans herror) (by simp)
  · rintro ⟨k, s, h, hstack, hroot⟩
    refine ⟨h.pos, hb, s, ?_, hroot⟩
    rw [← h.remaining_add hb, h.run_eq, run_stopped hstack]

theorem assemble_error (hb : b.Sized) (hn : 0 < b.numSplits) {e : DumpError} :
    b.assemble = .error e ↔
      ∃ k s, Reached b k s ∧ s.stack ≠ [] ∧ step b s = .error e := by
  rw [TreeBlock.assemble_error hn hb]
  constructor
  · intro hrun
    obtain ⟨k, s, h, hok | ⟨e', hstack, hstep, herror⟩⟩ :=
      (Reached.start hn).run_ends (2 * b.numSplits)
    · exact absurd (hrun.symm.trans hok) (by simp)
    · obtain rfl := Except.error.inj (hrun.symm.trans herror)
      exact ⟨k, s, h, hstack, hstep⟩
  · rintro ⟨k, s, h, hstack, hstep⟩
    obtain ⟨fuel, hfuel⟩ : ∃ fuel, 2 * b.numSplits = fuel + 1 + k :=
      ⟨2 * b.numSplits - k - 1, by have := h.lt hb hstack; omega⟩
    rw [hfuel, h.run_eq, run_succ hstack, hstep]
    rfl

end Reached

structure Orderly (b : TreeBlock) : Prop where
  stack_pushed : ∀ k s target, Reached b k s → target ∈ s.stack →
    target = 0 ∨ ∃ k' s' side, k' < k ∧ Reached b k' s' ∧ Pushes b s' side target
  root_not_pushed : ∀ k s side, Reached b k s → ¬ Pushes b s side 0
  pushed_once : ∀ k s side k' s' side' target, Reached b k s → Reached b k' s' →
    Pushes b s side target → Pushes b s' side' target → k = k' ∧ side = side'
  turns_lt : ∀ k s, Reached b k s → s.stack ≠ [] → k < 2 * b.numSplits
  top : ∀ k s node rest, Reached b k s → s.stack = node :: rest →
    s.progress[node]? = some .pending ∨ s.progress[node]? = some .expanded
  top_once : ∀ k s rest k' s' rest' node, Reached b k s → Reached b k' s' →
    s.stack = node :: rest → s'.stack = node :: rest' →
    s.progress[node]? = s'.progress[node]? → k = k'
  children_built : ∀ k s node rest side (target : Nat), Reached b k s → s.stack = node :: rest →
    s.progress[node]? = some .expanded → b.entryAt node side = target →
    s.progress[target]? = some .built ∧ ∃ n, s.built[target]? = some (some n) ∧ b.Grows target n
  children_taken : ∀ k s node rest, Reached b k s → s.stack = node :: rest →
    s.progress[node]? = some .expanded →
    ∃ l r built₁ built₂, takeChild b node s.built (b.entryAt node .left) = .ok (l, built₁) ∧
      takeChild b node built₁ (b.entryAt node .right) = .ok (r, built₂)
  root_built : ∀ k s, Reached b k s → s.stack = [] → ∃ root, s.built[0]? = some (some root)
  assemble_ok : ∀ root, b.assemble = .ok root ↔
    ∃ k s, Reached b k s ∧ s.stack = [] ∧ s.built[0]? = some (some root)
  assemble_error : ∀ e, 0 < b.numSplits → (b.assemble = .error e ↔
    ∃ k s, Reached b k s ∧ s.stack ≠ [] ∧ step b s = .error e)

theorem orderly_of_sized (b : TreeBlock) (hb : b.Sized) : Orderly b where
  stack_pushed _ _ _ h hmem := h.mem_stack hb hmem
  root_not_pushed _ _ _ h hp := hp.not_met (h.sound hb).root_met
  pushed_once _ _ _ _ _ _ _ h h' hp hp' := h.pushed_once hb h' hp hp'
  turns_lt _ _ h hstack := h.lt hb hstack
  top _ _ _ _ h hstack := (h.sound hb).top hstack
  top_once _ _ _ _ _ _ _ h h' hstack hstack' hp := h.top_once hb h' hstack hstack' hp
  children_built _ _ _ _ _ _ h hstack hp hentry := h.children hb hstack hp hentry
  children_taken _ _ _ _ h hstack hp := (h.sound hb).takes hstack hp
  root_built _ _ h hstack := (h.sound hb).root_built hstack
  assemble_ok _ := Reached.assemble_ok hb
  assemble_error _ hn := Reached.assemble_error hb hn

def sharedSplit : TreeBlock where
  index := 0
  splitFeature := #[0, 0, 0]
  decisionType := #[0, 0, 0]
  threshold := #[0.5, 0.5, 0.5]
  leftChild := #[1, 2, -1]
  rightChild := #[2, -1, -2]
  leafValue := #[1, 2]

theorem sharedSplit_orderly : sharedSplit.Sized ∧ Orderly sharedSplit ∧
    ∃ k s, Reached sharedSplit k s ∧ s.stack ≠ [] ∧
      step sharedSplit s = .error (sharedSplit.invalidChild 1 2) := by
  have hb : sharedSplit.Sized := ⟨rfl, rfl, rfl, rfl⟩
  have horderly := orderly_of_sized sharedSplit hb
  have hrefused : sharedSplit.assemble.map (fun _ => ()) =
      .error (sharedSplit.invalidChild 1 2) := by decide +kernel
  exact ⟨hb, horderly,
    (horderly.assemble_error _ (by decide)).mp (Outcome.map_error.mp hrefused)⟩

end BoostedTrees.Assembly
