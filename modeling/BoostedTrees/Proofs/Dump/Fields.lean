import BoostedTrees.Dump.Scan
import BoostedTrees.Proofs.Outcome
import Mathlib.Data.List.TakeWhile
import Mathlib.Logic.Unique

namespace BoostedTrees

namespace Text

theorem exists_of_trim_ne_nil {s : List Char} (h : trim s ≠ []) :
    ∃ c ∈ trim s, isBlank c = false := by
  have hrev : (trimStart s).reverse.dropWhile isBlank ≠ [] := by
    intro hnil
    exact h (by rw [trim, trimEnd, hnil, List.reverse_nil])
  refine ⟨((trimStart s).reverse.dropWhile isBlank).head hrev, ?_, ?_⟩
  · rw [trim, trimEnd, List.mem_reverse]
    exact List.head_mem hrev
  · have := List.head_dropWhile_not isBlank hrev
    simpa using this

theorem words_ne_nil {s : List Char} (h : ∃ c ∈ s, isBlank c = false) : words s ≠ [] := by
  obtain ⟨c, hc, hblank⟩ := h
  cases hs : trimStart s with
  | nil =>
      have := List.dropWhile_eq_nil_iff.mp hs c hc
      rw [hblank] at this
      exact absurd this (by simp)
  | cons d rest =>
      rw [words_of_cons hs]
      exact List.cons_ne_nil _ _

end Text

namespace Fields

def Trimmed (fs : Fields) : Prop := ∀ entry ∈ fs, ∃ s, entry.2 = Text.trim s

theorem trimmed_nil : Trimmed [] := by
  intro entry h
  exact absurd h List.not_mem_nil

theorem Trimmed.cons {fs : Fields} (h : fs.Trimmed) {line : List Char}
    {entry : String × List Char} (hline : ofLine? line = some entry) : Trimmed (entry :: fs) := by
  intro e he
  rcases List.mem_cons.mp he with rfl | he
  · unfold ofLine? at hline
    split at hline
    · exact absurd hline (by simp)
    · split at hline
      · exact absurd hline (by simp)
      · cases hline
        exact ⟨_, rfl⟩
  · exact h e he

theorem Trimmed.words_ne_nil {fs : Fields} (h : fs.Trimmed) {key : String} {v : List Char}
    (hv : fs.value? key = some v) : Text.words v ≠ [] := by
  obtain ⟨hlookup, hne⟩ := Option.filter_eq_some_iff.mp hv
  obtain ⟨before, after, rfl, -⟩ := List.lookup_eq_some_iff.mp hlookup
  obtain ⟨s, rfl⟩ := h (key, v) (by simp)
  exact Text.words_ne_nil (Text.exists_of_trim_ne_nil (by simpa using hne))

end Fields

section Inversion

open DumpField

variable {fs : Fields}

theorem DumpField.required_ok {tree : Option Nat} {field : String} {v : List Char} :
    required fs tree field = .ok v ↔ fs.value? field = some v := by
  unfold required
  cases fs.value? field with
  | none => simp
  | some w => simp

theorem DumpField.scalar_ok {α : Type} {read : List Char → Option α} {field : String}
    {token : List Char} {value : α} :
    scalar read field token = .ok value ↔ read (Text.trim token) = some value := by
  unfold scalar
  cases read (Text.trim token) with
  | none => simp
  | some w => simp

theorem Header.ofFields_ok {h : Header} :
    ofFields fs = .ok h ↔
      ∃ objective classes numClasses perIteration treesPerIteration feature maxFeature,
        required fs none "objective" = .ok objective ∧
        required fs none "num_class" = .ok classes ∧
        scalar (Text.integer? 64) "num_class" classes = .ok numClasses ∧
        required fs none "num_tree_per_iteration" = .ok perIteration ∧
        scalar (Text.integer? 64) "num_tree_per_iteration" perIteration = .ok treesPerIteration ∧
        required fs none "max_feature_idx" = .ok feature ∧
        scalar (Text.integer? 64) "max_feature_idx" feature = .ok maxFeature ∧
        h = { version := (fs.value? "version").map String.ofList
              numClasses, treesPerIteration, maxFeature
              objectiveName := String.ofList (splitObjective objective).1
              objectiveConfig := String.ofList (splitObjective objective).2
              featureNames :=
                (Text.words ((fs.value? "feature_names").getD [])).map String.ofList } := by
  simp only [ofFields, Outcome.bind_ok, pure, Except.pure, Except.ok.injEq, exists_and_left,
    eq_comm (a := h)]

namespace TreeBlock

variable {b b' : TreeBlock}

theorem readSplits_ok :
    b.readSplits fs = .ok b' ↔
      ∃ left leftChild rightChild splitFeature decisionType threshold boundaries words,
        required fs (some b.index) "left_child" = .ok left ∧
        list (Text.integer? 32) "left_child" left = .ok leftChild ∧
        sizedList fs b.index "right_child" (Text.integer? 32) leftChild.size = .ok rightChild ∧
        sizedList fs b.index "split_feature" (Text.integer? 32) leftChild.size = .ok splitFeature ∧
        sizedList fs b.index "decision_type" (Text.integer? 32) leftChild.size = .ok decisionType ∧
        sizedList fs b.index "threshold" Binary64.read? leftChild.size = .ok threshold ∧
        b.checkLeaves leftChild = .ok () ∧
        optionalList fs "cat_boundaries" (Text.natural? 32) = .ok boundaries ∧
        optionalList fs "cat_threshold" word64? = .ok words ∧
        b' = { b with leftChild, rightChild, splitFeature, decisionType, threshold, boundaries,
                      words } := by
  simp only [readSplits, Outcome.bind_ok, pure, Except.pure, Except.ok.injEq, exists_and_left,
    Unique.exists_iff, PUnit.default_eq_unit, eq_comm (a := b')]

theorem ofFields_ok {index : Nat} :
    ofFields index fs = .ok b' ↔
      ∃ numLeaves numCategorical leaves leafValue internalValue,
        optional fs "num_leaves" (scalar (Text.natural? 64)) = .ok numLeaves ∧
        optional fs "num_cat" (scalar (Text.natural? 64)) = .ok numCategorical ∧
        required fs (some index) "leaf_value" = .ok leaves ∧
        list Binary64.read? "leaf_value" leaves = .ok leafValue ∧
        optionalList fs "internal_value" Binary64.read? = .ok internalValue ∧
        if loneLeaf fs numLeaves then
          checkSize "leaf_value" leafValue 1 = .ok () ∧
            b' = { index, numLeaves, numCategorical := numCategorical.getD 0, leafValue,
                   internalValue }
        else
          readSplits fs { index, numLeaves, numCategorical := numCategorical.getD 0, leafValue,
                          internalValue } = .ok b' := by
  simp only [ofFields, Outcome.bind_ok, Outcome.ite_ok, pure, Except.pure, Except.ok.injEq,
    exists_and_left, Unique.exists_iff, PUnit.default_eq_unit, eq_comm (a := b')]

theorem index_readSplits (h : b.readSplits fs = .ok b') : b'.index = b.index := by
  obtain ⟨_, _, _, _, _, _, _, _, -, -, -, -, -, -, -, -, -, rfl⟩ := readSplits_ok.mp h
  rfl

theorem leafValue_readSplits (h : b.readSplits fs = .ok b') : b'.leafValue = b.leafValue := by
  obtain ⟨_, _, _, _, _, _, _, _, -, -, -, -, -, -, -, -, -, rfl⟩ := readSplits_ok.mp h
  rfl

theorem index_ofFields {index : Nat} (h : ofFields index fs = .ok b) : b.index = index := by
  obtain ⟨_, _, _, _, _, -, -, -, -, -, h⟩ := ofFields_ok.mp h
  split at h
  · rw [h.2]
  · exact index_readSplits h

end TreeBlock

end Inversion

theorem DumpScan.step_ok {s s' : DumpScan} {entry : List Char × Nat} (h : s.step entry = .ok s') :
    (∃ opening d kind, BlockLine.ofLine? entry.1 = some opening ∧ s.close = .ok d ∧
      BlockKind.ofBlockLine opening = .ok kind ∧ s' = ⟨d, some ⟨kind, []⟩⟩) ∨
    (BlockLine.ofLine? entry.1 = none ∧ (Text.trim entry.1).isEmpty = true ∧
      ∃ d, s.close = .ok d ∧ s' = ⟨d, none⟩) ∨
    (BlockLine.ofLine? entry.1 = none ∧ (Text.trim entry.1).isEmpty = false ∧
      ∃ b field, s.block = some b ∧ Fields.ofLine? entry.1 = some field ∧
        s' = ⟨s.dump, some { b with fields := field :: b.fields }⟩) ∨
    (BlockLine.ofLine? entry.1 = none ∧ (Text.trim entry.1).isEmpty = false ∧ s.block = none ∧
      s' = s) := by
  unfold step at h
  split at h
  · rename_i opening hopening
    obtain ⟨d, hclose, h⟩ := Outcome.bind_ok.mp h
    unfold openBlock at h
    split at h
    · exact absurd h (by simp)
    · obtain ⟨kind, hkind, rfl⟩ := Outcome.map_ok.mp h
      exact .inl ⟨opening, d, kind, hopening, hclose, hkind, rfl⟩
  · rename_i hopening
    split at h
    · rename_i hblank
      obtain ⟨d, hclose, rfl⟩ := Outcome.map_ok.mp h
      exact .inr (.inl ⟨hopening, hblank, d, hclose, rfl⟩)
    · rename_i hblank
      have hblank := Bool.not_eq_true _ ▸ hblank
      split at h
      · rename_i b hb
        obtain ⟨b', hline, rfl⟩ := Outcome.map_ok.mp h
        unfold addLine at hline
        split at hline
        · rename_i field hfield
          obtain rfl := Except.ok.inj hline
          exact .inr (.inr (.inl ⟨hopening, hblank, b, field, hb, hfield, rfl⟩))
        · exact absurd hline (by simp)
      · rename_i hb
        exact .inr (.inr (.inr ⟨hopening, hblank, hb, (Except.ok.inj h).symm⟩))

def TreeBlock.Read (b : TreeBlock) : Prop :=
  ∃ index fs, Fields.Trimmed fs ∧ TreeBlock.ofFields index fs = .ok b

structure DumpScan.Sound (s : DumpScan) : Prop where
  trees : ∀ b ∈ s.dump.trees, b.Read
  block : ∀ b, s.block = some b → b.fields.Trimmed

theorem DumpScan.Sound.addBlock {d d' : Dump} {b : OpenBlock} (hd : ∀ t ∈ d.trees, t.Read)
    (hb : b.fields.Trimmed) (h : d.addBlock b = .ok d') : ∀ t ∈ d'.trees, t.Read := by
  unfold Dump.addBlock at h
  split at h
  · obtain ⟨header, -, rfl⟩ := Outcome.map_ok.mp h
    exact hd
  · obtain ⟨t, ht, rfl⟩ := Outcome.map_ok.mp h
    intro t' ht'
    rcases Array.mem_push.mp ht' with h' | rfl
    · exact hd t' h'
    · exact ⟨_, _, hb, ht⟩

theorem DumpScan.Sound.close {s : DumpScan} {d : Dump} (hs : s.Sound) (h : s.close = .ok d) :
    ∀ b ∈ d.trees, b.Read := by
  unfold DumpScan.close at h
  split at h
  · rename_i b hb
    exact addBlock hs.trees (hs.block b hb) h
  · cases h
    exact hs.trees

theorem DumpScan.Sound.step {s s' : DumpScan} {entry : List Char × Nat} (hs : s.Sound)
    (h : s.step entry = .ok s') : s'.Sound := by
  rcases step_ok h with ⟨opening, d, kind, -, hclose, -, rfl⟩ | ⟨-, -, d, hclose, rfl⟩ |
    ⟨-, -, b, field, hb, hfield, rfl⟩ | ⟨-, -, -, rfl⟩
  · refine ⟨hs.close hclose, ?_⟩
    intro b hb
    cases hb
    exact Fields.trimmed_nil
  · exact ⟨hs.close hclose, by simp⟩
  · refine ⟨hs.trees, ?_⟩
    intro b' hb'
    cases hb'
    exact (hs.block b hb).cons hfield
  · exact hs

theorem Dump.trees_read {ls : List (List Char)} {d : Dump} (h : Dump.ofCharLines ls = .ok d) :
    ∀ b ∈ d.trees, b.Read := by
  obtain ⟨s, hscan, hclose⟩ := Outcome.bind_ok.mp h
  have hstart : DumpScan.Sound {} := ⟨by simp, by simp⟩
  have hs : s.Sound :=
    Outcome.foldlM_keeps (fun s entry s' _ hs hstep => hs.step hstep) hstart hscan
  exact hs.close hclose

theorem DumpField.list_size {α : Type} {read : List Char → Option α} {field : String}
    {s : List Char} {values : Array α} (h : DumpField.list read field s = .ok values) :
    values.size = (Text.words s).length := by
  obtain ⟨xs, hxs, rfl⟩ := Outcome.map_ok.mp h
  rw [List.size_toArray]
  exact (Outcome.mapM_ok.mp hxs).length_eq.symm

theorem DumpField.required_list_pos {α : Type} {fs : Fields} (hfs : fs.Trimmed)
    {tree : Option Nat} {field : String} {read : List Char → Option α} {s : List Char}
    {values : Array α} (hs : DumpField.required fs tree field = .ok s)
    (h : DumpField.list read field s = .ok values) : 0 < values.size := by
  rw [DumpField.list_size h]
  exact List.length_pos_iff.mpr (hfs.words_ne_nil (DumpField.required_ok.mp hs))

theorem TreeBlock.Read.leafValue_pos {b : TreeBlock} (h : b.Read) : 0 < b.leafValue.size := by
  obtain ⟨index, fs, hfs, h⟩ := h
  obtain ⟨_, _, v, leafValue, _, -, -, hv, hleaf, -, h⟩ := ofFields_ok.mp h
  have hsize : 0 < leafValue.size := DumpField.required_list_pos hfs hv hleaf
  split at h
  · rw [h.2]
    exact hsize
  · rw [leafValue_readSplits h]
    exact hsize

end BoostedTrees
