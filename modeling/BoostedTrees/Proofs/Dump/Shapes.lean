import BoostedTrees.Proofs.Assembly.Bounds
import BoostedTrees.Proofs.Dump.Blocks
import BoostedTrees.Proofs.Dump.Walk

namespace BoostedTrees

namespace LineBlock

def Yields (block : LineBlock) (b : TreeBlock) : Prop :=
  ∃ token fields, block.opening = .tree token ∧ Writes token b ∧
    block.body.mapM field = .ok fields ∧ TreeBlock.ofFields b.index fields.reverse = .ok b

def ofTrees (entries : List (List Char × Nat)) : List LineBlock :=
  (ofLines entries).filter fun block => block.opening ≠ .header

theorem addTo_yields {d d' : Dump} {block : LineBlock} (h : addTo d block = .ok d')
    (hopening : block.opening ≠ .header) : ∃ b, block.Yields b ∧ d'.trees = d.trees.push b := by
  rcases addTo_ok h with ⟨hheader, -⟩ | ⟨token, b, htoken, hwrites, htrees, -⟩
  · exact absurd hheader hopening
  · obtain ⟨-, kind, fields, hkind, hfields, h⟩ := addTo_eq_ok.mp h
    rw [htoken] at hkind
    obtain ⟨index, -, rfl⟩ := Outcome.map_ok.mp hkind
    obtain ⟨b', hb', rfl⟩ := Outcome.map_ok.mp h
    obtain rfl : b' = b := Array.push_inj_right.mp htrees
    have hindex := TreeBlock.index_ofFields hb'
    exact ⟨b', ⟨token, fields, htoken, hwrites, hfields, hindex ▸ hb'⟩, rfl⟩

theorem foldlM_addTo_yields {d d' : Dump} {blocks : List LineBlock}
    (h : blocks.foldlM addTo d = .ok d') :
    ∃ trees, d'.trees.toList = d.trees.toList ++ trees ∧
      List.Forall₂ Yields (blocks.filter fun block => block.opening ≠ .header) trees := by
  induction blocks generalizing d with
  | nil =>
      cases h
      exact ⟨[], by simp, .nil⟩
  | cons block blocks ih =>
      rw [List.foldlM_cons] at h
      obtain ⟨next, hnext, h⟩ := Outcome.bind_ok.mp h
      obtain ⟨trees, htrees, hyields⟩ := ih h
      by_cases hopening : block.opening = .header
      · rcases addTo_ok hnext with ⟨-, hkept, -⟩ | ⟨token, -, htoken, -⟩
        · exact ⟨trees, hkept ▸ htrees, by simpa [hopening] using hyields⟩
        · exact absurd (hopening.symm.trans htoken) (by simp)
      · obtain ⟨b, hb, hpush⟩ := addTo_yields hnext hopening
        rw [List.filter_cons_of_pos (by simpa using hopening)]
        refine ⟨b :: trees, ?_, .cons hb hyields⟩
        rw [htrees, hpush, Array.toList_push, List.append_assoc, List.singleton_append]

theorem trees_yielded {ls : List (List Char)} {d : Dump} (h : Dump.ofCharLines ls = .ok d) :
    List.Forall₂ Yields (ofTrees (ls.zipIdx 1)) d.trees.toList := by
  rw [Dump.ofCharLines_eq] at h
  obtain ⟨trees, htrees, hyields⟩ := foldlM_addTo_yields h
  obtain rfl : d.trees.toList = trees := htrees
  exact hyields

end LineBlock

namespace TreeBlock

structure LeafShaped (b : TreeBlock) : Prop where
  numLeaves : ∀ n, b.numLeaves = some n → n ≤ 1
  leftChild : b.leftChild = #[]
  rightChild : b.rightChild = #[]
  splitFeature : b.splitFeature = #[]
  decisionType : b.decisionType = #[]
  threshold : b.threshold = #[]
  leafValue : b.leafValue.size = 1

structure SplitShaped (b : TreeBlock) : Prop where
  splits : 1 ≤ b.numSplits
  sized : b.Sized
  leafValue : 1 ≤ b.leafValue.size
  numLeaves : ∀ n, b.numLeaves = some n → n = b.numSplits + 1 ∧ b.leafValue.size = n

variable {b b' : TreeBlock} {fs : Fields}

theorem checkSize_ok {α : Type} {field : String} {values : Array α} {n : Nat} :
    DumpField.checkSize field values n = .ok () ↔ values.size = n := by
  unfold DumpField.checkSize
  split <;> simp [*]

theorem sizedList_size {α : Type} {index n : Nat} {field : String} {read : List Char → Option α}
    {values : Array α} (h : DumpField.sizedList fs index field read n = .ok values) :
    values.size = n := by
  obtain ⟨s, -, h⟩ := Outcome.bind_ok.mp h
  obtain ⟨found, -, h⟩ := Outcome.bind_ok.mp h
  obtain ⟨⟨⟩, hsize, h⟩ := Outcome.bind_ok.mp h
  obtain rfl : found = values := Except.ok.inj h
  exact checkSize_ok.mp hsize

theorem checkLeaves_ok {leftChild : Array Int} (h : b.checkLeaves leftChild = .ok ()) (n : Nat)
    (hn : b.numLeaves = some n) : leftChild.size = n - 1 ∧ b.leafValue.size = n := by
  rw [checkLeaves, hn] at h
  obtain ⟨⟨⟩, hleft, hleaf⟩ := Outcome.bind_ok.mp h
  exact ⟨checkSize_ok.mp hleft, checkSize_ok.mp hleaf⟩

theorem splitShaped_readSplits (hfs : fs.Trimmed) (hleaf : 1 ≤ b.leafValue.size)
    (h : b.readSplits fs = .ok b') : b'.SplitShaped := by
  obtain ⟨left, leftChild, rightChild, splitFeature, decisionType, threshold, boundaries, words,
    hleft, hlist, hright, hfeature, hdecision, hthreshold, hleaves, -, -, rfl⟩ := readSplits_ok.mp h
  have hpos : 1 ≤ leftChild.size := DumpField.required_list_pos hfs hleft hlist
  refine
    { splits := hpos
      sized := ⟨sizedList_size hright, sizedList_size hfeature, sizedList_size hdecision,
        sizedList_size hthreshold⟩
      leafValue := hleaf
      numLeaves := fun n hn => ?_ }
  obtain ⟨hsplits, hsize⟩ := checkLeaves_ok hleaves n hn
  have hn' : n = leftChild.size + 1 := by omega
  exact ⟨hn', hsize⟩

theorem Read.shaped (h : b.Read) : b.LeafShaped ∨ b.SplitShaped := by
  obtain ⟨index, fs, hfs, h⟩ := h
  obtain ⟨numLeaves, numCategorical, leaves, leafValue, internalValue, -, -, hleaves, hlist, -,
    h⟩ := ofFields_ok.mp h
  split at h
  · rename_i hlone
    obtain ⟨hsize, rfl⟩ := h
    refine .inl ⟨fun n hn => ?_, rfl, rfl, rfl, rfl, rfl, checkSize_ok.mp hsize⟩
    obtain rfl : numLeaves = some n := hn
    simpa [loneLeaf] using (Bool.and_eq_true_iff.mp hlone).2
  · exact .inr (splitShaped_readSplits hfs (DumpField.required_list_pos hfs hleaves hlist) h)

theorem LeafShaped.isSingleLeaf (h : b.LeafShaped) : b.isSingleLeaf = true := by
  rw [TreeBlock.isSingleLeaf, h.leftChild]
  cases hn : b.numLeaves with
  | none => rfl
  | some n => simpa using h.numLeaves n hn

theorem SplitShaped.isSingleLeaf (h : b.SplitShaped) : b.isSingleLeaf = false := by
  have hne : b.leftChild.isEmpty = false := by
    rw [Bool.eq_false_iff]
    intro hempty
    have hnone : b.numSplits = 0 := Array.isEmpty_iff_size_eq_zero.mp hempty
    have := h.splits
    omega
  rw [TreeBlock.isSingleLeaf, hne]
  rfl

end TreeBlock

namespace LineBlock

def WritesLeaf (block : LineBlock) (value : Float) : Prop :=
  ∃ fields text word, block.body.mapM field = .ok fields ∧
    Fields.value? fields.reverse "leaf_value" = some text ∧ Text.words text = [word] ∧
    Binary64.read? (Text.trim word) = some value

theorem Yields.writesLeaf {block : LineBlock} {b : TreeBlock} (h : block.Yields b)
    (hleaf : b.leafValue.size = 1) : ∃ value, b.leafValue = #[value] ∧ block.WritesLeaf value := by
  obtain ⟨-, fields, -, -, hfields, hb⟩ := h
  obtain ⟨_, _, text, leafValue, _, -, -, htext, hlist, -, hb⟩ := TreeBlock.ofFields_ok.mp hb
  obtain rfl : b.leafValue = leafValue := by
    split at hb
    · rw [hb.2]
    · exact TreeBlock.leafValue_readSplits hb
  obtain ⟨values, hvalues, harray⟩ := Outcome.map_ok.mp hlist
  obtain ⟨value, rfl⟩ : ∃ value, values = [value] := by
    rw [← harray, List.size_toArray] at hleaf
    exact List.length_eq_one_iff.mp hleaf
  obtain ⟨word, rest, hword, hrest, hwords⟩ :=
    List.forall₂_cons_right_iff.mp (Outcome.mapM_ok.mp hvalues)
  obtain rfl := List.forall₂_nil_right_iff.mp hrest
  exact ⟨value, harray.symm, fields, text, word, hfields, DumpField.required_ok.mp htext, hwords,
    DumpField.scalar_ok.mp hword⟩

end LineBlock

def DumpError.isShapeFault : DumpError → Bool
  | .missingField .. => true
  | .sizeMismatch .. => true
  | _ => false

namespace Assembly

variable {b : TreeBlock} {s : Assembly} {node : Nat} {child : Int} {e : DumpError}

theorem pushChild_error (h : pushChild b node s child = .error e) :
    e = b.invalidChild node child := by
  rcases pushChild_cases b node s child with ⟨i, -, -, ho⟩ | ⟨i, -, -, -, ho⟩ | ⟨-, ho⟩
  · exact absurd (h.symm.trans ho) (by simp)
  · exact absurd (h.symm.trans ho) (by simp)
  · exact Except.error.inj (h.symm.trans ho)

theorem takeChild_error {built : Array (Option Node)}
    (h : takeChild b node built child = .error e) : e = b.invalidChild node child := by
  rcases b.childRef_cases node child with ⟨i, -, -, href⟩ | ⟨i, -, -, href⟩ | ⟨-, href⟩
  · simp only [takeChild, href] at h
    split at h
    · exact absurd h (by simp)
    · exact (Except.error.inj h).symm
  · simp [takeChild, href] at h
  · simp only [takeChild, href] at h
    exact (Except.error.inj h).symm

theorem buildSplit_error {l r : Node} (h : b.buildSplit node l r = .error e) :
    ∃ field token, e = .invalidValue field token := by
  unfold TreeBlock.buildSplit at h
  dsimp only at h
  split at h
  · exact ⟨_, _, (Except.error.inj h).symm⟩
  · split at h
    · have hrange := Outcome.map_error.mp h
      unfold TreeBlock.categoryRange at hrange
      dsimp only at hrange
      split at hrange
      · split at hrange
        · exact absurd hrange (by simp)
        · split at hrange
          · exact absurd hrange (by simp)
          · exact ⟨_, _, (Except.error.inj hrange).symm⟩
      · exact ⟨_, _, (Except.error.inj hrange).symm⟩
    · exact absurd h (by simp)

theorem step_error (h : step b s = .error e) : e.isShapeFault = false := by
  obtain ⟨progress, built, _ | ⟨node, rest⟩⟩ := s
  · exact absurd h (by simp [step])
  · rw [step] at h
    split at h
    · rcases Outcome.bind_error.mp h with h | ⟨s', -, h⟩
      · rw [pushChild_error h]; rfl
      · rw [pushChild_error h]; rfl
    · rcases Outcome.bind_error.mp h with h | ⟨⟨l, built₁⟩, -, h⟩
      · rw [takeChild_error h]; rfl
      · rcases Outcome.bind_error.mp h with h | ⟨⟨r, built₂⟩, -, h⟩
        · rw [takeChild_error h]; rfl
        · rcases Outcome.bind_error.mp h with h | ⟨split, -, h⟩
          · obtain ⟨field, token, rfl⟩ := buildSplit_error h
            rfl
          · exact absurd h (by simp [pure, Except.pure])
    · exact absurd h (by simp)

theorem run_error {fuel : Nat} (h : run b fuel s = .error e) : e.isShapeFault = false := by
  induction fuel generalizing s with
  | zero => exact absurd h (by simp [run])
  | succ fuel ih =>
      by_cases hstack : s.stack = []
      · rw [run_stopped hstack] at h
        exact absurd h (by simp)
      · rw [run_succ hstack] at h
        rcases Outcome.bind_error.mp h with h | ⟨s₁, -, h⟩
        · exact step_error h
        · exact ih h

end Assembly

namespace TreeBlock

variable {b : TreeBlock} {e : DumpError}

theorem SplitShaped.toTree_error (hb : b.SplitShaped) (h : b.toTree = .error e) :
    e.isShapeFault = false := by
  have hsplits := hb.splits
  rw [toTree_of_splits hsplits] at h
  exact Assembly.run_error ((assemble_error hsplits hb.sized).mp (Outcome.map_error.mp h))

theorem LeafShaped.toTree_eq (hb : b.LeafShaped) {value : Float} (hvalue : b.leafValue = #[value]) :
    b.toTree = .ok ⟨b.index, .leaf value, ⟨b.words⟩⟩ := by
  rw [toTree, if_pos hb.isSingleLeaf, hvalue]
  rfl

theorem Read.toTree_error (hb : b.Read) (h : b.toTree = .error e) : e.isShapeFault = false := by
  rcases hb.shaped with hleaf | hsplits
  · rw [toTree, if_pos hleaf.isSingleLeaf] at h
    exact absurd h (by simp)
  · exact hsplits.toTree_error h

end TreeBlock

namespace Dump

theorem toEnsemble_error {d : Dump} {e : DumpError} (h : d.toEnsemble = .error (.dump e)) :
    ∃ b ∈ d.trees, b.toTree = .error e := by
  unfold toEnsemble at h
  split at h
  · exact absurd h (by simp)
  · rcases Outcome.bind_error.mp h with h | ⟨-, -, h⟩
    · obtain ⟨_, -, h⟩ := Outcome.mapError_error.mp h
      exact absurd h (by simp)
    · rcases Outcome.bind_error.mp h with h | ⟨trees, -, h⟩
      · obtain ⟨e', htrees, h⟩ := Outcome.mapError_error.mp h
        obtain rfl := ModelError.dump.inj h
        obtain ⟨before, b, after, hsplit, -, hb⟩ := Outcome.mapM_error.mp htrees
        exact ⟨b, Array.mem_toList_iff.mp (hsplit ▸ by simp), hb⟩
      · obtain ⟨_, -, h⟩ := Outcome.mapError_error.mp h
        exact absurd h (by simp)

theorem ofLines_shapes (ls : List String) (d : Dump) (h : ofLines ls = .ok d) :
    List.Forall₂ (fun (b : TreeBlock) (block : LineBlock) => block.Yields b ∧
        ((b.LeafShaped ∧ b.isSingleLeaf = true ∧ ∃ value, block.WritesLeaf value ∧
            b.leafValue = #[value] ∧ b.toTree = .ok ⟨b.index, .leaf value, ⟨b.words⟩⟩) ∨
          (b.SplitShaped ∧ b.isSingleLeaf = false)))
      d.trees.toList (LineBlock.ofTrees ((ls.map String.toList).zipIdx 1)) ∧
    ∀ e, d.toEnsemble = .error (.dump e) → e.isShapeFault = false := by
  have hread := trees_read h
  constructor
  · have hblocks : List.Forall₂ (fun (b : TreeBlock) (block : LineBlock) => b.Read ∧ block.Yields b)
        d.trees.toList (LineBlock.ofTrees ((ls.map String.toList).zipIdx 1)) :=
      (List.forall₂_and_left _ _).mpr
        ⟨fun b hb => hread b (Array.mem_toList_iff.mp hb), (LineBlock.trees_yielded h).flip⟩
    refine hblocks.imp fun b block hb => ⟨hb.2, ?_⟩
    rcases hb.1.shaped with hleaf | hsplits
    · obtain ⟨value, hvalue, hwrites⟩ := hb.2.writesLeaf hleaf.leafValue
      exact .inl ⟨hleaf, hleaf.isSingleLeaf, value, hwrites, hvalue, hleaf.toTree_eq hvalue⟩
    · exact .inr ⟨hsplits, hsplits.isSingleLeaf⟩
  · intro e he
    obtain ⟨b, hb, htree⟩ := toEnsemble_error he
    exact (hread b hb).toTree_error htree

theorem leafAndSplits_shapes :
    ∃ d b c, ofLines Ensemble.leafAndSplits = .ok d ∧ d.trees.toList = [b, c] ∧ b.SplitShaped ∧
      c.LeafShaped ∧ ∃ value, c.toTree = .ok ⟨c.index, .leaf value, ⟨c.words⟩⟩ := by
  obtain ⟨d, hd⟩ := Outcome.exists_ok (x := ofLines Ensemble.leafAndSplits) (by decide +kernel)
  have hflags : (ofLines Ensemble.leafAndSplits).map
      (fun d => d.trees.toList.map TreeBlock.isSingleLeaf) = .ok [false, true] := by decide +kernel
  rw [hd] at hflags
  obtain ⟨b, rest, hblocks, hb, hrest⟩ := List.map_eq_cons_iff.mp (Except.ok.inj hflags)
  obtain ⟨c, rfl, hc⟩ := List.map_eq_singleton_iff.mp hrest
  obtain ⟨hshapes, -⟩ := ofLines_shapes Ensemble.leafAndSplits d hd
  rw [hblocks] at hshapes
  obtain ⟨_, _, ⟨-, hfirst⟩, hshapes, -⟩ := List.forall₂_cons_left_iff.mp hshapes
  obtain ⟨_, _, ⟨-, hsecond⟩, -, -⟩ := List.forall₂_cons_left_iff.mp hshapes
  rcases hfirst with ⟨-, hsingle, -⟩ | ⟨hsplits, -⟩
  · exact absurd (hsingle.symm.trans hb) (by simp)
  rcases hsecond with ⟨hleaf, -, value, -, -, htree⟩ | ⟨-, hmany⟩
  · exact ⟨d, b, c, hd, hblocks, hsplits, hleaf, value, htree⟩
  · exact absurd (hmany.symm.trans hc) (by simp)

end Dump

end BoostedTrees
