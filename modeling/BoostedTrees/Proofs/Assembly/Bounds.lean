import BoostedTrees.Proofs.Assembly.Acceptance

namespace BoostedTrees.Assembly

inductive Fault where
  | outside
  | unfinished
  | refused (e : DumpError)

namespace Checked

def read {α : Type} (xs : Array α) (i : Nat) : Except Fault α :=
  match xs[i]? with
  | some x => .ok x
  | none => .error .outside

def write {α : Type} (xs : Array α) (i : Nat) (x : α) : Except Fault (Array α) :=
  if i < xs.size then .ok (xs.setIfInBounds i x) else .error .outside

def pushChild (b : TreeBlock) (node : Nat) (s : Assembly) (child : Int) :
    Except Fault Assembly := do
  match ← (b.childRef node child).mapError .refused with
  | .leaf _ => return s
  | .split i =>
      if (← read s.progress i) = .unseen then
        return ⟨← write s.progress i .pending, s.built, i :: s.stack⟩
      else throw (.refused (b.invalidChild node child))

def takeChild (b : TreeBlock) (node : Nat) (built : Array (Option Node)) (child : Int) :
    Except Fault (Node × Array (Option Node)) := do
  match ← (b.childRef node child).mapError .refused with
  | .leaf i => return (.leaf (← read b.leafValue i), built)
  | .split i =>
      match ← read built i with
      | some side => return (side, ← write built i none)
      | none => throw (.refused (b.invalidChild node child))

def buildSplit (b : TreeBlock) (node : Nat) (l r : Node) : Except Fault Node := do
  let feature ← read b.splitFeature node
  let flags := DecisionFlags.ofBits (← read b.decisionType node)
  let threshold ← read b.threshold node
  if feature < 0 then throw (.refused (.invalidValue "split_feature" (toString feature)))
  else if flags.categorical then
    let range ← (b.categoryRange threshold).mapError .refused
    return .split feature.toNat (.categorical range) l r
  else
    return .split feature.toNat
      (.numeric threshold flags.missing (.ofDefaultLeft flags.defaultLeft)) l r

def build (b : TreeBlock) (node : Nat) (s : Assembly) : Except Fault Assembly := do
  let (l, built) ← takeChild b node s.built (← read b.leftChild node)
  let (r, built) ← takeChild b node built (← read b.rightChild node)
  let split ← buildSplit b node l r
  return ⟨← write s.progress node .built, ← write built node (some split), s.stack⟩

def step (b : TreeBlock) (s : Assembly) : Except Fault Assembly :=
  match s.stack with
  | [] => return s
  | node :: rest => do
      match ← read s.progress node with
      | .pending =>
          let progress ← write s.progress node .expanded
          let s ← pushChild b node ⟨progress, s.built, s.stack⟩ (← read b.leftChild node)
          pushChild b node s (← read b.rightChild node)
      | .expanded => build b node ⟨s.progress, s.built, rest⟩
      | _ => return ⟨s.progress, s.built, rest⟩

def run (b : TreeBlock) : Nat → Assembly → Except Fault Assembly
  | 0, s => if s.stack.isEmpty then return s else throw .unfinished
  | fuel + 1, s => if s.stack.isEmpty then return s else step b s >>= run b fuel

def assemble (b : TreeBlock) : Except Fault Node := do
  if b.numSplits = 0 then throw (.refused (.missingField (some b.index) "left_child"))
  b.checkSizes.mapError .refused
  let s ← run b (2 * b.numSplits) (.start b.numSplits)
  match ← read s.built 0 with
  | some root => return root
  | none => throw (.refused (b.invalidChild 0 0))

def toTree (b : TreeBlock) : Except Fault Tree :=
  if b.isSingleLeaf then return ⟨b.index, .leaf (b.leafValue.getD 0 Binary64.zero), ⟨b.words⟩⟩
  else (assemble b).map fun root => ⟨b.index, root, ⟨b.words⟩⟩

variable {b : TreeBlock} {s : Assembly} {node : Nat}

theorem read_getD {α : Type} {xs : Array α} {i : Nat} (x : α) (h : i < xs.size) :
    read xs i = .ok (xs.getD i x) := by
  simp [read, h]

theorem read_of_getElem? {α : Type} {xs : Array α} {i : Nat} {x : α} (h : xs[i]? = some x) :
    read xs i = .ok x := by
  simp [read, h]

theorem write_inside {α : Type} {xs : Array α} {i : Nat} {x : α} (h : i < xs.size) :
    write xs i x = .ok (xs.setIfInBounds i x) := by
  simp [write, h]

theorem mapError_bind {α β : Type} {x : Except DumpError α} {f : α → Except DumpError β} :
    (x >>= f).mapError Fault.refused =
      x.mapError Fault.refused >>= fun a => (f a).mapError Fault.refused := by
  cases x <;> rfl

theorem bind_congr {α β : Type} {x : Except DumpError α} {f g : α → Except Fault β}
    (h : ∀ a, x = .ok a → f a = g a) :
    x.mapError Fault.refused >>= f = x.mapError Fault.refused >>= g := by
  cases x with
  | error e => rfl
  | ok a => exact h a rfl

theorem pushChild_eq {child : Int} (hsize : s.progress.size = b.numSplits) :
    pushChild b node s child = (Assembly.pushChild b node s child).mapError .refused := by
  unfold pushChild Assembly.pushChild
  rcases b.childRef_cases node child with ⟨i, -, hi, href⟩ | ⟨i, -, -, href⟩ | ⟨-, href⟩
  · have hi' : i < s.progress.size := hsize ▸ hi
    rw [href]
    simp only [Outcome.mapError_of_ok, bind, Except.bind, read, write, hi',
      Array.getElem?_eq_getElem, Option.some.injEq]
    split <;> rfl
  · rw [href]
    rfl
  · rw [href]
    rfl

theorem takeChild_eq {built : Array (Option Node)} {child : Int}
    (hsize : built.size = b.numSplits) :
    takeChild b node built child = (Assembly.takeChild b node built child).mapError .refused := by
  unfold takeChild Assembly.takeChild
  rcases b.childRef_cases node child with ⟨i, -, hi, href⟩ | ⟨i, -, hi, href⟩ | ⟨-, href⟩
  · have hi' : i < built.size := hsize ▸ hi
    rw [href]
    simp only [Outcome.mapError_of_ok, bind, Except.bind, read, write, hi',
      Array.getElem?_eq_getElem, Option.join_some]
    cases built[i] <;> rfl
  · rw [href]
    simp only [Outcome.mapError_of_ok, bind, Except.bind, read_getD Binary64.zero hi]
    rfl
  · rw [href]
    rfl

theorem buildSplit_eq {l r : Node} (hb : b.Sized) (hnode : node < b.numSplits) :
    buildSplit b node l r = (b.buildSplit node l r).mapError .refused := by
  have hf : node < b.splitFeature.size := hb.feature ▸ hnode
  have hd : node < b.decisionType.size := hb.decision ▸ hnode
  have hth : node < b.threshold.size := hb.threshold ▸ hnode
  unfold buildSplit TreeBlock.buildSplit
  rw [read_getD 0 hf, read_getD 0 hd, read_getD Binary64.zero hth]
  generalize b.splitFeature.getD node 0 = feature
  generalize b.threshold.getD node Binary64.zero = threshold
  generalize b.decisionType.getD node 0 = bits
  simp only [bind, Except.bind]
  by_cases hneg : feature < 0
  · simp only [hneg, if_true]
    rfl
  · by_cases hc : (DecisionFlags.ofBits bits).categorical = true
    · simp only [hneg, if_false, hc, if_true]
      cases b.categoryRange threshold <;> rfl
    · simp only [hneg, if_false, hc]
      rfl

theorem read_left (hnode : node < b.numSplits) :
    read b.leftChild node = .ok (b.entryAt node .left) := read_getD 0 hnode

theorem read_right (hb : b.Sized) (hnode : node < b.numSplits) :
    read b.rightChild node = .ok (b.entryAt node .right) := read_getD 0 (hb.right ▸ hnode)

theorem build_eq (hb : b.Sized) (hprogress : s.progress.size = b.numSplits)
    (hbuilt : s.built.size = b.numSplits) (hnode : node < b.numSplits) :
    build b node s = (Assembly.build b node s).mapError .refused := by
  have hsizes : ∀ {built built' : Array (Option Node)} {child : Int} {n : Node},
      Assembly.takeChild b node built child = .ok (n, built') → built'.size = built.size := by
    intro built built' child n h
    rcases takeChild_ok h with ⟨i, -, -, -, rfl⟩ | ⟨i, -, -, -, rfl⟩ <;> simp
  unfold build Assembly.build
  rw [read_left hnode, read_right hb hnode]
  simp only [mapError_bind]
  change takeChild b node s.built (b.entryAt node .left) >>= _ =
    (Assembly.takeChild b node s.built (b.entryAt node .left)).mapError .refused >>= _
  rw [takeChild_eq hbuilt]
  refine bind_congr fun left hl => ?_
  obtain ⟨l, built₁⟩ := left
  have hbuilt₁ := (hsizes hl).trans hbuilt
  change takeChild b node built₁ (b.entryAt node .right) >>= _ =
    (Assembly.takeChild b node built₁ (b.entryAt node .right)).mapError .refused >>= _
  rw [takeChild_eq hbuilt₁]
  refine bind_congr fun right hr => ?_
  obtain ⟨r, built₂⟩ := right
  have hbuilt₂ := (hsizes hr).trans hbuilt₁
  rw [buildSplit_eq hb hnode]
  refine bind_congr fun split _ => ?_
  rw [write_inside (hprogress ▸ hnode), write_inside (hbuilt₂ ▸ hnode)]
  rfl

theorem step_eq (hb : b.Sized) (hs : Sound b s) :
    step b s = (Assembly.step b s).mapError .refused := by
  cases hstack : s.stack with
  | nil =>
      obtain ⟨progress, built, stack⟩ := s
      obtain rfl : stack = [] := hstack
      rfl
  | cons node rest =>
      have hnode : node < b.numSplits := by
        rcases hs.top hstack with hp | hp
        · exact Met.lt hs (.inl hp)
        · exact Met.lt hs (.inr (.inl hp))
      unfold step
      rw [hstack]
      rcases hs.top hstack with hp | hp
      · rw [step_pending hstack hp, mapError_bind]
        simp only [read_of_getElem? hp, write_inside (hs.progress_size ▸ hnode : node < _),
          read_left hnode, read_right hb hnode]
        change pushChild b node ⟨_, s.built, node :: rest⟩ (b.entryAt node .left) >>= _ = _
        rw [← hstack]
        change pushChild b node (s.opening node) (b.entryAt node .left) >>= _ = _
        have hsize := (hs.opening hp).progress_size
        rw [pushChild_eq hsize]
        refine bind_congr fun s₁ hleft => ?_
        have hsize₁ : s₁.progress.size = b.numSplits := by
          rcases pushChild_ok hleft with ⟨i, -, -, rfl⟩ | ⟨i, -, -, -, rfl⟩
          · exact hsize
          · simpa [push] using hsize
        exact pushChild_eq hsize₁
      · rw [step_expanded hstack hp]
        simp only [read_of_getElem? hp]
        exact build_eq hb hs.progress_size hs.built_size hnode

theorem run_eq (hb : b.Sized) {fuel : Nat} (hs : Sound b s) (hfuel : s.remaining ≤ fuel) :
    run b fuel s = (Assembly.run b fuel s).mapError .refused := by
  induction fuel generalizing s with
  | zero =>
      have hstack := run_stack_nil hb hs hfuel rfl
      simp [run, hstack, Assembly.run, pure, Except.pure]
  | succ fuel ih =>
      cases hstack : s.stack with
      | nil => simp [run, hstack, Assembly.run, pure, Except.pure]
      | cons node rest =>
          simp only [run, hstack, Assembly.run, List.isEmpty_cons, Bool.false_eq_true, if_false]
          rw [step_eq hb hs]
          cases hstep : Assembly.step b s with
          | error e => rfl
          | ok s₁ =>
              have := remaining_step hs hstack hstep
              exact ih (hs.step hb hstep) (by omega)

theorem assemble_eq (b : TreeBlock) : assemble b = b.assemble.mapError .refused := by
  unfold assemble TreeBlock.assemble
  by_cases hn : b.numSplits = 0
  · simp only [hn, if_true]
    rfl
  · simp only [hn, if_false]
    rw [mapError_bind]
    refine bind_congr fun u hsizes => ?_
    cases u
    have hb := TreeBlock.checkSizes_ok.mp hsizes
    have hpos := Nat.pos_of_ne_zero hn
    have hstart := sound_start hpos
    rw [mapError_bind, run_eq hb hstart (Nat.le_of_eq (remaining_start hpos))]
    refine bind_congr fun s hrun => ?_
    have hs := hstart.run hb hrun
    have h0 : 0 < s.built.size := hs.built_size ▸ hpos
    simp only [read, Array.getElem?_eq_getElem h0, Option.join_some]
    cases s.built[0] <;> rfl

theorem toTree_eq (b : TreeBlock) : toTree b = b.toTree.mapError .refused := by
  unfold toTree TreeBlock.toTree
  split
  · rfl
  · rw [assemble_eq]
    cases b.assemble <;> rfl

end Checked

end BoostedTrees.Assembly

namespace BoostedTrees.TreeBlock

theorem toTree_of_splits {b : TreeBlock} (hn : 0 < b.numSplits) :
    b.toTree = b.assemble.map fun root => ⟨b.index, root, ⟨b.words⟩⟩ := by
  have hsplits : b.leftChild.isEmpty = false := by
    rw [Bool.eq_false_iff]
    intro hempty
    have hnone : b.numSplits = 0 := Array.isEmpty_iff_size_eq_zero.mp hempty
    omega
  have hmany : b.isSingleLeaf = false := by
    rw [isSingleLeaf, hsplits]
    rfl
  rw [toTree, hmany]
  rfl

theorem toTree_ok_iff_isSplitTree (b : TreeBlock) (hn : 0 < b.numSplits) :
    Assembly.Checked.toTree b = b.toTree.mapError .refused ∧
      ((∃ t, b.toTree = .ok t) ↔ b.IsSplitTree) := by
  refine ⟨Assembly.Checked.toTree_eq b, ?_⟩
  rw [toTree_of_splits hn]
  constructor
  · rintro ⟨t, ht⟩
    obtain ⟨root, hroot, -⟩ := Outcome.map_ok.mp ht
    exact isSplitTree_of_assemble hroot
  · intro ht
    obtain ⟨root, hroot⟩ := ht.assembles hn
    exact ⟨_, Outcome.map_ok.mpr ⟨root, hroot, rfl⟩⟩

def twoSplits : TreeBlock where
  index := 0
  splitFeature := #[0, 1]
  decisionType := #[2, 1]
  threshold := #[0.5, 0]
  leftChild := #[1, -1]
  rightChild := #[-3, -2]
  leafValue := #[1, 2, 3]
  boundaries := #[0, 1]
  words := #[5]

theorem twoSplits_isSplitTree :
    0 < twoSplits.numSplits ∧ (∃ t, twoSplits.toTree = .ok t) ∧ twoSplits.IsSplitTree := by
  have hn : 0 < twoSplits.numSplits := by decide
  have ht : ∃ t, twoSplits.toTree = .ok t := Outcome.exists_ok (by decide +kernel)
  exact ⟨hn, ht, (toTree_ok_iff_isSplitTree twoSplits hn).2.mp ht⟩

end BoostedTrees.TreeBlock
