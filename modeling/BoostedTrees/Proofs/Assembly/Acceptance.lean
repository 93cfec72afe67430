import BoostedTrees.Proofs.Assembly.Run

namespace BoostedTrees

namespace TreeBlock

variable {b : TreeBlock} {node : Nat}

theorem assemble_ok {root : Node} :
    b.assemble = .ok root ↔ 0 < b.numSplits ∧ b.Sized ∧
      ∃ s, Assembly.run b (2 * b.numSplits) (.start b.numSplits) = .ok s ∧
        s.built[0]? = some (some root) := by
  unfold assemble
  by_cases hn : b.numSplits = 0
  · simp [hn, bind, Except.bind, throw, throwThe, MonadExceptOf.throw]
  · simp only [hn, if_false]
    rw [Outcome.bind_ok]
    constructor
    · rintro ⟨⟨⟩, hsizes, h⟩
      obtain ⟨s, hrun, h⟩ := Outcome.bind_ok.mp h
      split at h
      · rename_i found hfound
        obtain rfl : found = root := Except.ok.inj h
        exact ⟨Nat.pos_of_ne_zero hn, checkSizes_ok.mp hsizes, s, hrun,
          Option.join_eq_some_iff.mp hfound⟩
      · exact absurd h (by simp [throw, throwThe, MonadExceptOf.throw])
    · rintro ⟨-, hb, s, hrun, hroot⟩
      refine ⟨(), checkSizes_ok.mpr hb, Outcome.bind_ok.mpr ⟨s, hrun, ?_⟩⟩
      rw [Option.join_eq_some_iff.mpr hroot]
      rfl

theorem assemble_final {root : Node} (h : b.assemble = .ok root) :
    b.Sized ∧ ∃ s, Assembly.Sound b s ∧ s.stack = [] ∧ s.built[0]? = some (some root) := by
  obtain ⟨hn, hb, s, hrun, hroot⟩ := assemble_ok.mp h
  have hstart := Assembly.sound_start hn
  refine ⟨hb, s, hstart.run hb hrun, ?_, hroot⟩
  exact Assembly.run_stack_nil hb hstart (Nat.le_of_eq (Assembly.remaining_start hn)) hrun

theorem assemble_error {e : DumpError} (hn : 0 < b.numSplits) (hb : b.Sized) :
    b.assemble = .error e ↔ Assembly.run b (2 * b.numSplits) (.start b.numSplits) = .error e := by
  cases hrun : Assembly.run b (2 * b.numSplits) (.start b.numSplits) with
  | error e' =>
      unfold assemble
      rw [if_neg (Nat.ne_of_gt hn), checkSizes_ok.mpr hb]
      simp only [hrun, bind, Except.bind, Except.error.injEq]
  | ok s =>
      -- a run that comes to its end has built the root, so nothing is refused after it
      have hstart := Assembly.sound_start hn
      have hstack := Assembly.run_stack_nil hb hstart
        (Nat.le_of_eq (Assembly.remaining_start hn)) hrun
      obtain ⟨root, hroot⟩ := (hstart.run hb hrun).root_built hstack
      rw [assemble_ok.mpr ⟨hn, hb, s, hrun, hroot⟩]
      simp

theorem assemble_grows {root : Node} (h : b.assemble = .ok root) :
    b.Sized ∧ b.Grows 0 root ∧ root.height ≤ b.numSplits := by
  obtain ⟨hb, s, hs, -, hroot⟩ := assemble_final h
  obtain ⟨-, hgrows, hheight⟩ := hs.grown 0 root hroot
  exact ⟨hb, hgrows, Nat.le_trans hheight (Assembly.numBuilt_le hs)⟩

theorem isSplitTree_of_assemble {root : Node} (h : b.assemble = .ok root) : b.IsSplitTree := by
  obtain ⟨hb, s, hs, hstack, -⟩ := assemble_final h
  have hdone : ∀ node, b.Reachable node → s.progress[node]? = some .built :=
    fun node hr => hs.built_of_reachable hb hstack hr
  have hopened : ∀ node, b.Reachable node → s.Opened node := fun node hr => .inr (hdone node hr)
  have hfits : ∀ node, b.Reachable node → b.SplitFits node :=
    fun node hr => hs.fits node (hdone node hr)
  refine
    { sized := hb
      entry_split := ?_
      entry_leaf := ?_
      root_free := ?_
      entry_unique := ?_
      feature_nonneg := ?_
      category := ?_ }
  · intro node side child hr hchild
    obtain ⟨-, rfl⟩ := (childAt?_eq hb).mp hchild
    exact (hs.valid node side (hopened node hr)).split
  · intro node side child hr hchild hneg
    obtain ⟨-, rfl⟩ := (childAt?_eq hb).mp hchild
    have := (hs.valid node side (hopened node hr)).leaf hneg
    omega
  · intro node side hr hchild
    obtain ⟨-, hentry⟩ := (childAt?_eq hb).mp hchild
    exact hs.ne_root node side (hopened node hr) hentry
  · intro node side node' side' child hr hr' hchild hchild' hpos
    obtain ⟨-, hentry⟩ := (childAt?_eq hb).mp hchild
    obtain ⟨-, hentry'⟩ := (childAt?_eq hb).mp hchild'
    exact hs.unique node side node' side' child.toNat (hopened node hr) (hopened node' hr')
      (by omega) (by omega)
  · intro node feature hr hfeature
    have := (hfits node hr).feature
    rwa [Array.getD_eq_getD_getElem?, hfeature] at this
  · intro node bits threshold hr hbits hodd hthreshold
    have := (hfits node hr).category
    rw [Array.getD_eq_getD_getElem?, Array.getD_eq_getD_getElem?, hbits, hthreshold] at this
    exact this (by simp [DecisionFlags.ofBits, hodd])

theorem IsSplitTree.validEntry (ht : b.IsSplitTree) (hr : b.Reachable node)
    (hnode : node < b.numSplits) (side : Direction) : b.ValidEntry (b.entryAt node side) := by
  have hchild : b.childAt? node side = some (b.entryAt node side) :=
    (childAt?_eq ht.sized).mpr ⟨hnode, rfl⟩
  refine ⟨ht.entry_split node side _ hr hchild, fun hneg => ?_⟩
  have := ht.entry_leaf node side _ hr hchild hneg
  omega

theorem IsSplitTree.splitFits (ht : b.IsSplitTree) (hr : b.Reachable node)
    (hnode : node < b.numSplits) : b.SplitFits node := by
  have hf : node < b.splitFeature.size := ht.sized.feature ▸ hnode
  have hd : node < b.decisionType.size := ht.sized.decision ▸ hnode
  have hth : node < b.threshold.size := ht.sized.threshold ▸ hnode
  refine ⟨?_, fun hc => ?_⟩
  · refine ht.feature_nonneg node _ hr ?_
    simp [hf]
  · refine ht.category node (b.decisionType.getD node 0) _ hr (by simp [hd]) ?_ (by simp [hth])
    simp only [DecisionFlags.ofBits, bne_iff_ne, ne_eq] at hc
    omega

end TreeBlock

namespace Assembly

variable {b : TreeBlock} {s : Assembly} {node : Nat} {followed : Nat → Direction → Prop}

theorem Invariant.pushChild_succeeds (ht : b.IsSplitTree) (hs : Invariant b followed s)
    (side : Direction) (ho : s.Opened node) (hnew : ¬ followed node side) :
    ∃ s', Assembly.pushChild b node s (b.entryAt node side) = .ok s' := by
  have hr := hs.reachable node ho.met
  have hnode := ho.met.lt hs
  rcases pushChild_cases b node s (b.entryAt node side) with
    ⟨i, -, -, h⟩ | ⟨i, -, -, -, h⟩ | ⟨hbad, -⟩
  · exact ⟨_, h⟩
  · exact ⟨_, h⟩
  · exfalso
    have hvalid := ht.validEntry hr hnode side
    rcases hbad with hbad | ⟨i, hentry, hseen⟩
    · exact hbad hvalid
    · have hi : i < s.progress.size := by
        have := hvalid.split (by omega)
        have := hs.progress_size
        omega
      have hmet : s.Met i := by
        rw [Array.getElem?_eq_getElem hi] at hseen
        simp only [Met, Array.getElem?_eq_getElem hi]
        cases hp : s.progress[i] <;> simp_all
      have hchild : b.childAt? node side = some (i : Int) :=
        (TreeBlock.childAt?_eq ht.sized).mpr ⟨hnode, hentry⟩
      rcases hs.origin i hmet with rfl | ⟨j, d, hf, hj⟩
      · exact ht.root_free node side hr hchild
      · have hjmet := (hs.opened j d hf).met
        have hchild' : b.childAt? j d = some (i : Int) :=
          (TreeBlock.childAt?_eq ht.sized).mpr ⟨hjmet.lt hs, hj⟩
        obtain ⟨rfl, rfl⟩ := ht.entry_unique j d node side i (hs.reachable j hjmet) hr hchild'
          hchild (by omega)
        exact hnew hf

theorem Sound.opens (ht : b.IsSplitTree) (hs : Sound b s) {rest : List Nat}
    (hstack : s.stack = node :: rest) (hp : s.progress[node]? = some .pending) :
    ∃ s', Assembly.step b s = .ok s' := by
  have hopen : (s.opening node).progress[node]? = some .expanded := by
    rw [opening_progress hp, if_pos rfl]
  have hs₁ := hs.opening hp
  obtain ⟨s₁, hleft⟩ := hs₁.pushChild_succeeds ht .left (.inl hopen) (not_opened hp)
  have hopen₁ := (pushChild_progress (.inl rfl) hleft node).mpr hopen
  have hs₂ := hs₁.pushChild ht.sized hopen hleft
  obtain ⟨s₂, hright⟩ := hs₂.pushChild_succeeds ht .right (.inl hopen₁) (by
    rintro (h | ⟨-, h⟩)
    · exact not_opened hp h
    · exact absurd h (by simp))
  rw [Assembly.step_pending hstack hp]
  exact ⟨s₂, Outcome.bind_ok.mpr ⟨s₁, hleft, hright⟩⟩

theorem takeChild_succeeds (node : Nat) (built : Array (Option Node)) {child : Int}
    (hv : b.ValidEntry child)
    (hbuilt : ∀ i : Nat, child = i → ∃ n, built[i]? = some (some n)) :
    ∃ n built', takeChild b node built child = .ok (n, built') := by
  rcases b.childRef_cases node child with ⟨i, hc, hi, -⟩ | ⟨i, hc, hi, -⟩ | ⟨hbad, -⟩
  · obtain ⟨n, hn⟩ := hbuilt i hc
    exact ⟨n, _, hc ▸ takeChild_split hi hn⟩
  · exact ⟨_, _, hc ▸ takeChild_leaf hi⟩
  · exact absurd hv hbad

theorem Sound.takes (hs : Sound b s) {rest : List Nat} (hstack : s.stack = node :: rest)
    (hp : s.progress[node]? = some .expanded) :
    ∃ l r built₁ built₂, takeChild b node s.built (b.entryAt node .left) = .ok (l, built₁) ∧
      takeChild b node built₁ (b.entryAt node .right) = .ok (r, built₂) := by
  have ho : s.Opened node := .inl hp
  have hthere : ∀ d (i : Nat), b.entryAt node d = i → ∃ n, s.built[i]? = some (some n) := by
    intro d i hentry
    rcases hs.above [] node rest d i hstack hp ho hentry with h | h
    · exact absurd h List.not_mem_nil
    · exact h
  obtain ⟨l, built₁, hl⟩ := takeChild_succeeds node s.built (hs.valid node .left ho) (hthere .left)
  obtain ⟨-, -, -, hbuilt₁⟩ := takeChild_grown hs.grown hl
  obtain ⟨r, built₂, hright⟩ := takeChild_succeeds node built₁ (hs.valid node .right ho) (by
      intro i hentry
      obtain ⟨n, hn⟩ := hthere .right i hentry
      have hne : b.entryAt node .left ≠ i := fun h => by
        have := (hs.unique node .left node .right i ho ho h hentry).2
        simp at this
      exact ⟨n, by rw [hbuilt₁, if_neg hne, hn]⟩)
  exact ⟨l, r, built₁, built₂, hl, hright⟩

theorem Sound.builds (ht : b.IsSplitTree) (hs : Sound b s) {rest : List Nat}
    (hstack : s.stack = node :: rest) (hp : s.progress[node]? = some .expanded) :
    ∃ s', Assembly.step b s = .ok s' := by
  have hmet : s.Met node := .inr (.inl hp)
  obtain ⟨l, r, built₁, built₂, hl, hright⟩ := hs.takes hstack hp
  obtain ⟨split, hsplit⟩ : ∃ n, b.buildSplit node l r = .ok n :=
    TreeBlock.buildSplit_ok.mpr (ht.splitFits (hs.reachable node hmet) (hmet.lt hs))
  rw [Assembly.step_expanded hstack hp]
  exact ⟨_, build_ok.mpr ⟨l, r, split, built₁, built₂, hl, hright, hsplit, rfl⟩⟩

theorem Sound.run_succeeds (ht : b.IsSplitTree) (fuel : Nat) (hs : Sound b s) :
    ∃ s', Assembly.run b fuel s = .ok s' := by
  induction fuel generalizing s with
  | zero => exact ⟨s, rfl⟩
  | succ fuel ih =>
      cases hstack : s.stack with
      | nil => exact ⟨s, run_stopped hstack _⟩
      | cons node rest =>
          obtain ⟨s₁, hstep⟩ : ∃ s', Assembly.step b s = .ok s' := by
            rcases hs.top hstack with hp | hp
            · exact hs.opens ht hstack hp
            · exact hs.builds ht hstack hp
          obtain ⟨s', hrun⟩ := ih (hs.step ht.sized hstep)
          rw [run_succ (by simp [hstack])]
          exact ⟨s', Outcome.bind_ok.mpr ⟨s₁, hstep, hrun⟩⟩

end Assembly

theorem TreeBlock.IsSplitTree.assembles {b : TreeBlock} (ht : b.IsSplitTree)
    (hn : 0 < b.numSplits) : ∃ root, b.assemble = .ok root := by
  have hstart := Assembly.sound_start hn
  obtain ⟨s, hrun⟩ := hstart.run_succeeds ht (2 * b.numSplits)
  have hs := hstart.run ht.sized hrun
  have hstack := Assembly.run_stack_nil ht.sized hstart
    (Nat.le_of_eq (Assembly.remaining_start hn)) hrun
  obtain ⟨root, hroot⟩ := hs.root_built hstack
  exact ⟨root, TreeBlock.assemble_ok.mpr ⟨hn, ht.sized, s, hrun, hroot⟩⟩

end BoostedTrees
