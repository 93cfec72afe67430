import BoostedTrees.Proofs.Assembly.Step

namespace BoostedTrees.Assembly

variable {b : TreeBlock} {s s' : Assembly} {node : Nat} {side : Direction}
  {followed followed' : Nat → Direction → Prop}

def numBuilt (s : Assembly) : Nat := s.progress.countP (· = .built)

structure Invariant (b : TreeBlock) (followed : Nat → Direction → Prop) (s : Assembly) : Prop where
  progress_size : s.progress.size = b.numSplits
  built_size : s.built.size = b.numSplits
  stack_nodup : s.stack.Nodup
  mem_stack : ∀ node, node ∈ s.stack ↔
    s.progress[node]? = some .pending ∨ s.progress[node]? = some .expanded
  root_met : s.Met 0
  opened : ∀ node side, followed node side → s.Opened node
  valid : ∀ node side, followed node side → b.ValidEntry (b.entryAt node side)
  met : ∀ node side (target : Nat), followed node side → b.entryAt node side = target →
    s.Met target
  ne_root : ∀ node side, followed node side → b.entryAt node side ≠ 0
  unique : ∀ node side node' side' (target : Nat), followed node side → followed node' side' →
    b.entryAt node side = target → b.entryAt node' side' = target → node = node' ∧ side = side'
  origin : ∀ target : Nat, s.Met target → target = 0 ∨
    ∃ node side, followed node side ∧ b.entryAt node side = target
  reachable : ∀ node, s.Met node → b.Reachable node
  above : ∀ upper node lower side (target : Nat), s.stack = upper ++ node :: lower →
    s.progress[node]? = some .expanded → followed node side → b.entryAt node side = target →
    target ∈ upper ∨ ∃ n, s.built[target]? = some (some n)
  grown : ∀ (node : Nat) n, s.built[node]? = some (some n) →
    s.progress[node]? = some .built ∧ b.Grows node n ∧ n.height ≤ s.numBuilt
  fits : ∀ node : Nat, s.progress[node]? = some .built → b.SplitFits node
  kept : ∀ target : Nat, s.progress[target]? = some .built →
    (∃ n, s.built[target]? = some (some n)) ∨
    ∃ node side, s.progress[node]? = some .built ∧ followed node side ∧
      b.entryAt node side = target

def Sound (b : TreeBlock) (s : Assembly) : Prop := Invariant b (fun node _ => s.Opened node) s

theorem Met.lt (hs : Invariant b followed s) (h : s.Met node) : node < b.numSplits := by
  have hsize := hs.progress_size
  rcases h with hp | hp | hp <;>
    exact hsize ▸ (Array.getElem?_eq_some_iff.mp hp).1

theorem Invariant.congr (hs : Invariant b followed s)
    (h : ∀ node side, followed node side ↔ followed' node side) : Invariant b followed' s := by
  have heq : followed = followed' := by
    funext node side
    exact propext (h node side)
  exact heq ▸ hs

theorem sound_start (hn : 0 < b.numSplits) : Sound b (.start b.numSplits) := by
  have hprogress : ∀ node : Nat, (Assembly.start b.numSplits).progress[node]? =
      if node = 0 then some .pending else if node < b.numSplits then some .unseen else none := by
    intro node
    simp only [start, Array.getElem?_setIfInBounds, Array.size_replicate, Array.getElem?_replicate]
    grind
  have hopened : ∀ node, ¬ (Assembly.start b.numSplits).Opened node := by
    intro node h
    simp only [Opened, hprogress] at h
    grind
  have hmet : ∀ node, (Assembly.start b.numSplits).Met node ↔ node = 0 := by
    intro node
    simp only [Met, hprogress]
    grind
  have hbuilt : ∀ (node : Nat) n, (Assembly.start b.numSplits).built[node]? ≠ some (some n) := by
    intro node n
    simp only [start, Array.getElem?_replicate]
    grind
  have hdone : ∀ node : Nat, (Assembly.start b.numSplits).progress[node]? ≠ some .built :=
    fun node h => hopened node (.inr h)
  refine
    { progress_size := by simp [start]
      built_size := by simp [start]
      stack_nodup := by simp [start]
      mem_stack := ?_
      root_met := (hmet 0).mpr rfl
      opened := fun node side h => h
      valid := fun node side h => absurd h (hopened node)
      met := fun node side target h => absurd h (hopened node)
      ne_root := fun node side h => absurd h (hopened node)
      unique := fun node side node' side' target h => absurd h (hopened node)
      origin := fun target h => .inl ((hmet target).mp h)
      reachable := ?_
      above := fun upper node lower side target hstack he h => absurd h (hopened node)
      grown := fun node n h => absurd h (hbuilt node n)
      fits := fun node h => absurd h (hdone node)
      kept := fun node h => absurd h (hdone node) }
  · intro node
    rw [hprogress]
    simp only [start, List.mem_singleton]
    grind
  · intro node h
    rw [(hmet node).mp h]
    exact .root

theorem opening_progress (hp : s.progress[node]? = some .pending) (j : Nat) :
    (s.opening node).progress[j]? = if node = j then some .expanded else s.progress[j]? :=
  Outcome.getElem?_replaced hp

theorem numBuilt_opening (hp : s.progress[node]? = some .pending) :
    (s.opening node).numBuilt = s.numBuilt := by
  have h := Outcome.countP_replaced (p := (· = SplitProgress.built)) (a := .expanded) hp
  simpa [numBuilt, opening] using h

theorem opening_met (hp : s.progress[node]? = some .pending) (j : Nat) :
    (s.opening node).Met j ↔ s.Met j := by
  simp only [Met, opening_progress hp]
  grind

theorem opening_opened (hp : s.progress[node]? = some .pending) (j : Nat) :
    (s.opening node).Opened j ↔ j = node ∨ s.Opened j := by
  simp only [Opened, opening_progress hp]
  grind

theorem opening_built (hp : s.progress[node]? = some .pending) (j : Nat) :
    (s.opening node).progress[j]? = some .built ↔ s.progress[j]? = some .built := by
  rw [opening_progress hp]
  grind

theorem Invariant.opening (hs : Invariant b followed s) (hp : s.progress[node]? = some .pending) :
    Invariant b followed (s.opening node) := by
  have hprogress := opening_progress hp
  have hmet := opening_met hp
  have hbuilt := opening_built hp
  have hnot : ∀ side, ¬ followed node side := fun side h => not_opened hp (hs.opened node side h)
  refine
    { progress_size := by simpa [Assembly.opening] using hs.progress_size
      built_size := hs.built_size
      stack_nodup := hs.stack_nodup
      mem_stack := ?_
      root_met := (hmet 0).mpr hs.root_met
      opened := fun j side h => (opening_opened hp j).mpr (.inr (hs.opened j side h))
      valid := hs.valid
      met := fun j side target h he => (hmet target).mpr (hs.met j side target h he)
      ne_root := hs.ne_root
      unique := hs.unique
      origin := fun target h => hs.origin target ((hmet target).mp h)
      reachable := fun j h => hs.reachable j ((hmet j).mp h)
      above := ?_
      grown := ?_
      fits := fun j h => hs.fits j ((hbuilt j).mp h)
      kept := ?_ }
  · intro j
    rw [hprogress]
    have hj := hs.mem_stack j
    simp only [Assembly.opening]
    grind
  · intro upper j lower side target hstack he hf hentry
    rw [hprogress] at he
    have hne : node ≠ j := fun h => hnot side (h ▸ hf)
    rw [if_neg hne] at he
    exact hs.above upper j lower side target hstack he hf hentry
  · intro j n h
    rw [numBuilt_opening hp, hbuilt]
    exact hs.grown j n h
  · intro target h
    rcases hs.kept target ((hbuilt target).mp h) with hk | ⟨j, side, hj, hf, hentry⟩
    · exact .inl hk
    · exact .inr ⟨j, side, (hbuilt j).mpr hj, hf, hentry⟩

theorem Invariant.follow_leaf (hs : Invariant b followed s) (ho : s.Opened node)
    (hentry : b.entryAt node side < 0) (hvalid : b.ValidEntry (b.entryAt node side)) :
    Invariant b (fun j d => followed j d ∨ (j = node ∧ d = side)) s := by
  refine
    { hs with
      opened := ?_
      valid := ?_
      met := ?_
      ne_root := ?_
      unique := ?_
      origin := ?_
      above := ?_
      kept := ?_ }
  · rintro j d (h | ⟨rfl, rfl⟩)
    · exact hs.opened j d h
    · exact ho
  · rintro j d (h | ⟨rfl, rfl⟩)
    · exact hs.valid j d h
    · exact hvalid
  · rintro j d target (h | ⟨rfl, rfl⟩) he
    · exact hs.met j d target h he
    · omega
  · rintro j d (h | ⟨rfl, rfl⟩)
    · exact hs.ne_root j d h
    · omega
  · rintro j d j' d' target (h | ⟨rfl, rfl⟩) (h' | ⟨rfl, rfl⟩) he he'
    · exact hs.unique j d j' d' target h h' he he'
    · omega
    · omega
    · exact ⟨rfl, rfl⟩
  · intro target h
    rcases hs.origin target h with h0 | ⟨j, d, hf, he⟩
    · exact .inl h0
    · exact .inr ⟨j, d, .inl hf, he⟩
  · rintro upper j lower d target hstack he (h | ⟨rfl, rfl⟩) ht
    · exact hs.above upper j lower d target hstack he h ht
    · omega
  · intro target h
    rcases hs.kept target h with hk | ⟨j, d, hj, hf, he⟩
    · exact .inl hk
    · exact .inr ⟨j, d, hj, .inl hf, he⟩

section Push

variable {target : Nat}

theorem push_progress (hu : s.progress[target]? = some .unseen) (j : Nat) :
    (s.push target).progress[j]? = if target = j then some .pending else s.progress[j]? :=
  Outcome.getElem?_replaced hu

theorem push_met (hu : s.progress[target]? = some .unseen) (j : Nat) :
    (s.push target).Met j ↔ s.Met j ∨ j = target := by
  simp only [Met, push_progress hu]
  grind

theorem push_done (hu : s.progress[target]? = some .unseen) {p : SplitProgress}
    (hp : p = .expanded ∨ p = .built) (j : Nat) :
    (s.push target).progress[j]? = some p ↔ s.progress[j]? = some p := by
  rw [push_progress hu]
  grind

theorem push_opened (hu : s.progress[target]? = some .unseen) (j : Nat) :
    (s.push target).Opened j ↔ s.Opened j :=
  or_congr (push_done hu (.inl rfl) j) (push_done hu (.inr rfl) j)

theorem numBuilt_push (hu : s.progress[target]? = some .unseen) :
    (s.push target).numBuilt = s.numBuilt := by
  have h := Outcome.countP_replaced (p := (· = SplitProgress.built)) (a := .pending) hu
  simpa [numBuilt, push] using h

theorem Invariant.push_above (hs : Invariant b followed s)
    (hu : s.progress[target]? = some .unseen) (hentry : b.entryAt node side = (target : Int))
    {upper lower : List Nat} {j target' : Nat} {d : Direction}
    (hstack : (s.push target).stack = upper ++ j :: lower)
    (he : (s.push target).progress[j]? = some .expanded)
    (hf : followed j d ∨ (j = node ∧ d = side)) (ht : b.entryAt j d = target') :
    target' ∈ upper ∨ ∃ n, s.built[target']? = some (some n) := by
  rw [push_done hu (.inl rfl)] at he
  have hne : j ≠ target := by
    rintro rfl
    exact absurd (he.symm.trans hu) (by simp)
  -- the new split is on top, so what lies above an opened split now starts with it
  cases upper with
  | nil =>
      simp only [push, List.nil_append, List.cons.injEq] at hstack
      exact absurd hstack.1.symm hne
  | cons first upper =>
      simp only [push, List.cons_append, List.cons.injEq] at hstack
      obtain ⟨rfl, hstack⟩ := hstack
      rcases hf with hf | ⟨rfl, rfl⟩
      · rcases hs.above upper j lower d target' hstack he hf ht with h | h
        · exact .inl (List.mem_cons_of_mem _ h)
        · exact .inr h
      · have heq : target' = target := by omega
        exact .inl (heq ▸ List.mem_cons_self)

end Push

theorem Invariant.follow_split (hb : b.Sized) (hs : Invariant b followed s) {target : Nat}
    (ho : s.progress[node]? = some .expanded) (hentry : b.entryAt node side = (target : Int))
    (hu : s.progress[target]? = some .unseen) :
    Invariant b (fun j d => followed j d ∨ (j = node ∧ d = side)) (s.push target) := by
  have hlt : target < b.numSplits := by
    obtain ⟨hlt, -⟩ := Array.getElem?_eq_some_iff.mp hu
    exact hs.progress_size ▸ hlt
  have hmet := push_met hu
  have hopened := push_opened hu
  have hbuilt := push_done hu (p := .built) (.inr rfl)
  have hnew : ∀ j d, followed j d → b.entryAt j d ≠ target :=
    fun j d h he => not_met hu (hs.met j d target h he)
  refine
    { progress_size := by simpa [push] using hs.progress_size
      built_size := hs.built_size
      stack_nodup := ?_
      mem_stack := ?_
      root_met := (hmet 0).mpr (.inl hs.root_met)
      opened := ?_
      valid := ?_
      met := ?_
      ne_root := ?_
      unique := ?_
      origin := ?_
      reachable := ?_
      above := ?_
      grown := ?_
      fits := fun j h => hs.fits j ((hbuilt j).mp h)
      kept := ?_ }
  · refine List.nodup_cons.mpr ⟨fun h => ?_, hs.stack_nodup⟩
    have := (hs.mem_stack target).mp h
    simp [hu] at this
  · intro j
    rw [push_progress hu]
    have hj := hs.mem_stack j
    simp only [push, List.mem_cons]
    grind
  · rintro j d (h | ⟨rfl, rfl⟩)
    · exact (hopened j).mpr (hs.opened j d h)
    · exact (hopened j).mpr (.inl ho)
  · rintro j d (h | ⟨rfl, rfl⟩)
    · exact hs.valid j d h
    · exact hentry ▸ TreeBlock.validEntry_natCast hlt
  · rintro j d target' (h | ⟨rfl, rfl⟩) he
    · exact (hmet target').mpr (.inl (hs.met j d target' h he))
    · exact (hmet target').mpr (.inr (by omega))
  · rintro j d (h | ⟨rfl, rfl⟩)
    · exact hs.ne_root j d h
    · intro h0
      have : target = 0 := by omega
      exact not_met hu (this ▸ hs.root_met)
  · rintro j d j' d' target' (h | ⟨rfl, rfl⟩) (h' | ⟨rfl, rfl⟩) he he'
    · exact hs.unique j d j' d' target' h h' he he'
    · exact absurd (by omega) (hnew j d h)
    · exact absurd (by omega) (hnew j' d' h')
    · exact ⟨rfl, rfl⟩
  · intro target' h
    rcases (hmet target').mp h with h | rfl
    · rcases hs.origin target' h with h0 | ⟨j, d, hf, he⟩
      · exact .inl h0
      · exact .inr ⟨j, d, .inl hf, he⟩
    · exact .inr ⟨node, side, .inr ⟨rfl, rfl⟩, hentry⟩
  · intro j h
    rcases (hmet j).mp h with h | rfl
    · exact hs.reachable j h
    · have hmetNode : s.Met node := .inr (.inl ho)
      have hchild : b.childAt? node side = some (j : Int) :=
        (TreeBlock.childAt?_eq hb).mpr ⟨hmetNode.lt hs, hentry⟩
      exact .child (hs.reachable node hmetNode) hchild hlt
  · intro upper j lower d target' hstack he hf ht
    exact hs.push_above hu hentry hstack he hf ht
  · intro j n h
    rw [numBuilt_push hu, hbuilt]
    exact hs.grown j n h
  · intro target' h
    rcases hs.kept target' ((hbuilt target').mp h) with hk | ⟨j, d, hj, hf, he⟩
    · exact .inl hk
    · exact .inr ⟨j, d, (hbuilt j).mpr hj, .inl hf, he⟩

theorem Invariant.pushChild (hb : b.Sized) (hs : Invariant b followed s)
    (ho : s.progress[node]? = some .expanded)
    (h : pushChild b node s (b.entryAt node side) = .ok s') :
    Invariant b (fun j d => followed j d ∨ (j = node ∧ d = side)) s' := by
  rcases pushChild_ok h with ⟨i, hentry, hi, rfl⟩ | ⟨i, hentry, -, hu, rfl⟩
  · exact hs.follow_leaf (.inl ho) (by omega) (hentry ▸ TreeBlock.validEntry_leaf hi)
  · exact hs.follow_split hb ho hentry hu

theorem pushChild_progress {child : Int} {p : SplitProgress} (hp : p = .expanded ∨ p = .built)
    (h : Assembly.pushChild b node s child = .ok s') (j : Nat) :
    s'.progress[j]? = some p ↔ s.progress[j]? = some p := by
  rcases pushChild_ok h with ⟨i, -, -, rfl⟩ | ⟨i, -, -, hu, rfl⟩
  · exact Iff.rfl
  · exact push_done hu hp j

theorem pushChild_opened {child : Int} (h : Assembly.pushChild b node s child = .ok s') (j : Nat) :
    s'.Opened j ↔ s.Opened j :=
  or_congr (pushChild_progress (.inl rfl) h j) (pushChild_progress (.inr rfl) h j)

theorem Sound.step_pending (hb : b.Sized) (hs : Sound b s) {rest : List Nat}
    (hstack : s.stack = node :: rest) (hp : s.progress[node]? = some .pending)
    (h : step b s = .ok s') : Sound b s' := by
  rw [Assembly.step_pending hstack hp] at h
  obtain ⟨s₁, hleft, hright⟩ := Outcome.bind_ok.mp h
  have hopen : (s.opening node).progress[node]? = some .expanded := by
    rw [opening_progress hp, if_pos rfl]
  have hopen₁ : s₁.progress[node]? = some .expanded :=
    (pushChild_progress (.inl rfl) hleft node).mpr hopen
  have hs' := ((hs.opening hp).pushChild hb hopen hleft).pushChild hb hopen₁ hright
  refine hs'.congr fun j d => ?_
  rw [pushChild_opened hright, pushChild_opened hleft, opening_opened hp]
  cases d <;> grind

end BoostedTrees.Assembly
