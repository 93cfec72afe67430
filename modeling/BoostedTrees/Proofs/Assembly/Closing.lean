import BoostedTrees.Proofs.Assembly.Invariant

namespace BoostedTrees.Assembly

variable {b : TreeBlock} {s s' : Assembly} {node : Nat} {split : Node}

theorem takeChild_grown {P : Nat → Prop} {built built' : Array (Option Node)} {child : Int}
    {n : Node} {m : Nat}
    (hgrown : ∀ (i : Nat) n, built[i]? = some (some n) → P i ∧ b.Grows i n ∧ n.height ≤ m)
    (h : takeChild b node built child = .ok (n, built')) :
    b.Grows child n ∧ n.height ≤ m ∧ built'.size = built.size ∧
      ∀ j : Nat, built'[j]? = if child = j then some none else built[j]? := by
  rcases takeChild_ok h with ⟨i, rfl, hi, rfl, rfl⟩ | ⟨i, rfl, hi, hn, rfl⟩
  · refine ⟨⟨by omega, ?_⟩, by simp [Node.height], rfl, fun j => ?_⟩
    · have heq : (-1 - (-1 - (i : Int))).toNat = i := by omega
      rw [heq]
      simp [hi]
    · rw [if_neg (by omega)]
  · obtain ⟨-, hg, hh⟩ := hgrown i n hn
    refine ⟨hg, hh, by simp, fun j => ?_⟩
    rw [Outcome.getElem?_replaced hn]
    simp only [Int.natCast_inj]

structure Closes (b : TreeBlock) (s s' : Assembly) (node : Nat) (split : Node) : Prop where
  stack : s.stack = node :: s'.stack
  progress_size : s'.progress.size = s.progress.size
  built_size : s'.built.size = s.built.size
  expanded : s.progress[node]? = some .expanded
  progress : ∀ j : Nat, s'.progress[j]? = if node = j then some .built else s.progress[j]?
  built : ∀ j : Nat, s'.built[j]? =
    if node = j then some (some split)
    else if b.entryAt node .left = j ∨ b.entryAt node .right = j then some none
    else s.built[j]?
  numBuilt : s'.numBuilt = s.numBuilt + 1
  fits : b.SplitFits node
  grows : b.Grows node split
  height : split.height ≤ s.numBuilt + 1

theorem closes_of_build (hs : Sound b s) {rest : List Nat} (hstack : s.stack = node :: rest)
    (hp : s.progress[node]? = some .expanded) (h : step b s = .ok s') :
    ∃ split, Closes b s s' node split := by
  rw [Assembly.step_expanded hstack hp] at h
  obtain ⟨l, r, split, built₁, built₂, hl, hr, hsplit, rfl⟩ := build_ok.mp h
  have hnode : node < b.numSplits := Met.lt hs (.inr (.inl hp))
  obtain ⟨hgl, hhl, hsize₁, hbuilt₁⟩ := takeChild_grown hs.grown hl
  have hgrown₁ : ∀ (i : Nat) n, built₁[i]? = some (some n) →
      s.progress[i]? = some .built ∧ b.Grows i n ∧ n.height ≤ s.numBuilt := by
    intro i n hi
    rw [hbuilt₁] at hi
    exact hs.grown i n (by grind)
  obtain ⟨hgr, hhr, hsize₂, hbuilt₂⟩ := takeChild_grown hgrown₁ hr
  have hnode₂ : node < built₂.size := by
    rw [hsize₂, hsize₁, hs.built_size]
    exact hnode
  refine ⟨split,
    { stack := hstack
      progress_size := by simp
      built_size := by simp [hsize₂, hsize₁]
      expanded := hp
      progress := fun j => Outcome.getElem?_replaced hp
      built := ?_
      numBuilt := ?_
      fits := TreeBlock.buildSplit_ok.mp ⟨split, hsplit⟩
      grows := .ofSplit hnode hsplit hgl hgr
      height := ?_ }⟩
  · intro j
    simp only [Array.getElem?_setIfInBounds, if_pos hnode₂, hbuilt₂, hbuilt₁]
    grind
  · have hcount := Outcome.countP_replaced (p := (· = SplitProgress.built)) (a := .built) hp
    simpa [Assembly.numBuilt] using hcount
  · obtain ⟨feature, test, rfl⟩ := TreeBlock.buildSplit_children hsplit
    simp only [Node.height]
    omega

namespace Closes

theorem opened_iff (hc : Closes b s s' node split) (j : Nat) : s'.Opened j ↔ s.Opened j := by
  have hp := hc.expanded
  simp only [Opened, hc.progress]
  grind

theorem met_iff (hc : Closes b s s' node split) (j : Nat) : s'.Met j ↔ s.Met j := by
  have hp := hc.expanded
  simp only [Met, hc.progress]
  grind

theorem built_of_built (hc : Closes b s s' node split) {j : Nat}
    (hj : s.progress[j]? = some .built) : s'.progress[j]? = some .built := by
  rw [hc.progress]
  split
  · rfl
  · exact hj

theorem stack_nodup (hc : Closes b s s' node split) (hs : Sound b s) :
    node ∉ s'.stack ∧ s'.stack.Nodup := by
  have hnodup := hs.stack_nodup
  rw [hc.stack] at hnodup
  exact List.nodup_cons.mp hnodup

theorem mem_stack (hc : Closes b s s' node split) (hs : Sound b s) (j : Nat) :
    j ∈ s'.stack ↔ s'.progress[j]? = some .pending ∨ s'.progress[j]? = some .expanded := by
  have hout := (hc.stack_nodup hs).1
  have hj := hs.mem_stack j
  rw [hc.stack, List.mem_cons] at hj
  rw [hc.progress]
  grind

theorem above (hc : Closes b s s' node split) (hs : Sound b s) {upper lower : List Nat}
    {j target : Nat} {side : Direction} (hstack : s'.stack = upper ++ j :: lower)
    (he : s'.progress[j]? = some .expanded) (hentry : b.entryAt j side = target) :
    target ∈ upper ∨ ∃ n, s'.built[target]? = some (some n) := by
  have hne : node ≠ j := by
    rintro rfl
    rw [hc.progress, if_pos rfl] at he
    exact absurd he (by simp)
  rw [hc.progress, if_neg hne] at he
  have ho : s.Opened j := .inl he
  have hbelow : s.stack = (node :: upper) ++ j :: lower := by
    rw [hc.stack, hstack]
    rfl
  -- an entry of the split that is built now cannot lead where one of `j` leads
  have hother : ∀ d, b.entryAt node d ≠ target := fun d hd =>
    hne (hs.unique node d j side target (.inl hc.expanded) ho hd hentry).1
  rcases hs.above (node :: upper) j lower side target hbelow he ho hentry with h | ⟨n, hn⟩
  · rcases List.mem_cons.mp h with rfl | h
    · exact .inr ⟨split, by rw [hc.built, if_pos rfl]⟩
    · exact .inl h
  · refine .inr ?_
    rw [hc.built]
    by_cases hnt : node = target
    · exact ⟨split, by rw [if_pos hnt]⟩
    · exact ⟨n, by rw [if_neg hnt, if_neg (by simp [hother]), hn]⟩

theorem grown (hc : Closes b s s' node split) (hs : Sound b s) {j : Nat} {n : Node}
    (hn : s'.built[j]? = some (some n)) :
    s'.progress[j]? = some .built ∧ b.Grows j n ∧ n.height ≤ s'.numBuilt := by
  have hcount := hc.numBuilt
  rw [hc.built] at hn
  by_cases hj : node = j
  · subst hj
    rw [if_pos rfl, Option.some.injEq, Option.some.injEq] at hn
    subst hn
    exact ⟨by rw [hc.progress, if_pos rfl], hc.grows, by rw [hcount]; exact hc.height⟩
  · rw [if_neg hj] at hn
    obtain ⟨hd, hg, hh⟩ := hs.grown j n (by grind)
    exact ⟨hc.built_of_built hd, hg, by omega⟩

theorem splitFits (hc : Closes b s s' node split) (hs : Sound b s) {j : Nat}
    (hj : s'.progress[j]? = some .built) : b.SplitFits j := by
  rw [hc.progress] at hj
  by_cases hjn : node = j
  · exact hjn ▸ hc.fits
  · exact hs.fits j (by rwa [if_neg hjn] at hj)

theorem kept (hc : Closes b s s' node split) (hs : Sound b s) {target : Nat}
    (hj : s'.progress[target]? = some .built) :
    (∃ n, s'.built[target]? = some (some n)) ∨
      ∃ j side, s'.progress[j]? = some .built ∧ s.Opened j ∧ b.entryAt j side = target := by
  by_cases hjn : node = target
  · exact .inl ⟨split, by rw [hc.built, if_pos hjn]⟩
  · rw [hc.progress, if_neg hjn] at hj
    by_cases htaken : ∃ d, b.entryAt node d = target
    · obtain ⟨d, hd⟩ := htaken
      exact .inr ⟨node, d, by rw [hc.progress, if_pos rfl], .inl hc.expanded, hd⟩
    · rcases hs.kept target hj with ⟨n, hn⟩ | ⟨j, side, hbuilt, ho, hentry⟩
      · refine .inl ⟨n, ?_⟩
        rw [hc.built, if_neg hjn, if_neg, hn]
        rintro (h | h)
        · exact htaken ⟨_, h⟩
        · exact htaken ⟨_, h⟩
      · exact .inr ⟨j, side, hc.built_of_built hbuilt, ho, hentry⟩

end Closes

theorem Sound.step_expanded (hs : Sound b s) {rest : List Nat} (hstack : s.stack = node :: rest)
    (hp : s.progress[node]? = some .expanded) (h : step b s = .ok s') : Sound b s' := by
  obtain ⟨split, hc⟩ := closes_of_build hs hstack hp h
  suffices hs' : Invariant b (fun j _ => s.Opened j) s' from
    hs'.congr fun j _ => (hc.opened_iff j).symm
  exact
    { progress_size := hc.progress_size.trans hs.progress_size
      built_size := hc.built_size.trans hs.built_size
      stack_nodup := (hc.stack_nodup hs).2
      mem_stack := hc.mem_stack hs
      root_met := (hc.met_iff 0).mpr hs.root_met
      opened := fun j d ho => (hc.opened_iff j).mpr ho
      valid := hs.valid
      met := fun j d target ho he => (hc.met_iff target).mpr (hs.met j d target ho he)
      ne_root := hs.ne_root
      unique := hs.unique
      origin := fun target ht => hs.origin target ((hc.met_iff target).mp ht)
      reachable := fun j hj => hs.reachable j ((hc.met_iff j).mp hj)
      above := fun upper j lower d target hst he _ ht => hc.above hs hst he ht
      grown := fun j n hn => hc.grown hs hn
      fits := fun j hj => hc.splitFits hs hj
      kept := fun target hj => hc.kept hs hj }

end BoostedTrees.Assembly
