import BoostedTrees.Proofs.Dump.Keys
import BoostedTrees.Proofs.Dump.Shapes

namespace BoostedTrees

def TreeBlock.splitKeys : List String :=
  ["split_feature", "threshold", "decision_type", "left_child", "right_child"]

structure TreeBlock.HasSplitLists (b : TreeBlock) : Prop where
  splits : 1 ≤ b.numSplits
  splitFeature : b.splitFeature ≠ #[]
  threshold : b.threshold ≠ #[]
  decisionType : b.decisionType ≠ #[]
  leftChild : b.leftChild ≠ #[]
  rightChild : b.rightChild ≠ #[]

namespace Fields

def without (keys : List String) (fs : Fields) : Fields := fs.filter fun field => field.1 ∉ keys

variable {keys : List String} {fs : Fields} {key : String}

theorem value?_without (h : key ∉ keys) : (fs.without keys).value? key = fs.value? key := by
  induction fs with
  | nil => rfl
  | cons field fs ih =>
      by_cases hfield : field.1 ∈ keys
      · have hne : key ≠ field.1 := fun heq => h (heq ▸ hfield)
        rw [value?_cons_of_ne hne, ← ih, without, List.filter_cons_of_neg (by simpa using hfield)]
        rfl
      · rw [without, List.filter_cons_of_pos (by simpa using hfield)]
        by_cases hkey : key = field.1
        · subst hkey
          rw [value?_cons_self, value?_cons_self]
        · rw [value?_cons_of_ne hkey, value?_cons_of_ne hkey]
          exact ih

theorem value?_without_of_mem (h : key ∈ keys) : (fs.without keys).value? key = none := by
  have hlookup : (fs.without keys).lookup key = none := by
    rw [List.lookup_eq_none_iff]
    intro field hfield
    have hother := (List.mem_filter.mp hfield).2
    rw [bne_iff_ne]
    rintro rfl
    exact of_decide_eq_true hother h
  rw [value?, hlookup]
  rfl

end Fields

namespace DumpField

variable {α : Type} {fs : Fields} {field : String} {read : List Char → Option α}

theorem optional_scalar_ok {value : Option α} (h : optional fs field (scalar read) = .ok value) :
    value = (fs.value? field).bind fun v => read (Text.trim v) := by
  unfold optional at h
  cases hv : fs.value? field with
  | none =>
      rw [hv] at h
      exact (Except.ok.inj h).symm
  | some v =>
      rw [hv] at h
      obtain ⟨x, hx, rfl⟩ := Outcome.map_ok.mp h
      exact (scalar_ok.mp hx).symm

theorem sizedList_given {index n : Nat} {values : Array α}
    (h : sizedList fs index field read n = .ok values) :
    fs.value? field ≠ none := by
  obtain ⟨v, hv, -⟩ := Outcome.bind_ok.mp h
  rw [required_ok.mp hv]
  exact Option.some_ne_none v

end DumpField

namespace TreeBlock

variable {b : TreeBlock} {fs : Fields} {index : Nat}

theorem SplitShaped.hasSplitLists (h : b.SplitShaped) : b.HasSplitLists := by
  have hne : ∀ {α : Type} {values : Array α}, values.size = b.numSplits → values ≠ #[] := by
    rintro α values hsize rfl
    have hsplits := h.splits
    rw [← hsize, Array.size_empty] at hsplits
    exact absurd hsplits (by decide)
  exact ⟨h.splits, hne h.sized.feature, hne h.sized.threshold, hne h.sized.decision, hne rfl,
    hne h.sized.right⟩

theorem LeafShaped.not_hasSplitLists (h : b.LeafShaped) : ¬ b.HasSplitLists :=
  fun hsplits => hsplits.leftChild h.leftChild

theorem numLeaves_ofFields (h : ofFields index fs = .ok b) :
    b.numLeaves = (fs.value? "num_leaves").bind fun v => Text.natural? 64 (Text.trim v) := by
  obtain ⟨numLeaves, _, _, _, _, hcount, -, -, -, -, h⟩ := ofFields_ok.mp h
  rw [← DumpField.optional_scalar_ok hcount]
  split at h
  · rw [h.2]
  · obtain ⟨_, _, _, _, _, _, _, _, -, -, -, -, -, -, -, -, -, rfl⟩ := readSplits_ok.mp h
    rfl

theorem readSplits_given {b' : TreeBlock} (h : b.readSplits fs = .ok b') :
    ∀ key ∈ splitKeys, fs.value? key ≠ none := by
  obtain ⟨left, _, _, _, _, _, _, _, hleft, -, hright, hfeature, hdecision, hthreshold, -⟩ :=
    readSplits_ok.mp h
  have hleft : fs.value? "left_child" ≠ none := by
    rw [DumpField.required_ok.mp hleft]
    exact Option.some_ne_none left
  simpa [splitKeys] using ⟨DumpField.sizedList_given hfeature,
    DumpField.sizedList_given hthreshold, DumpField.sizedList_given hdecision, hleft,
    DumpField.sizedList_given hright⟩

theorem ofFields_of_leftChild (hfs : fs.Trimmed) (hleft : fs.value? "left_child" ≠ none)
    (h : ofFields index fs = .ok b) :
    (∀ key ∈ splitKeys, fs.value? key ≠ none) ∧ b.HasSplitLists := by
  obtain ⟨numLeaves, numCategorical, leaves, leafValue, internalValue, -, -, hleaves, hlist, -,
    h⟩ := ofFields_ok.mp h
  have hlone : loneLeaf fs numLeaves = false := by simp [loneLeaf, hleft]
  rw [hlone, if_neg Bool.false_ne_true] at h
  have hshaped := splitShaped_readSplits hfs (DumpField.required_list_pos hfs hleaves hlist) h
  exact ⟨readSplits_given h, hshaped.hasSplitLists⟩

theorem ofFields_of_leftChild_none (hfs : fs.Trimmed) (hleft : fs.value? "left_child" = none)
    (h : ofFields index fs = .ok b) :
    b.LeafShaped ∧ ofFields index (fs.without splitKeys) = .ok b := by
  have hread : b.Read := ⟨index, fs, hfs, h⟩
  obtain ⟨numLeaves, numCategorical, leaves, leafValue, internalValue, hcount, hcategorical,
    hleaves, hlist, hinternal, h⟩ := ofFields_ok.mp h
  have hleft' : (fs.without splitKeys).value? "left_child" = none :=
    Fields.value?_without_of_mem (by decide)
  have hlone : loneLeaf (fs.without splitKeys) numLeaves = loneLeaf fs numLeaves := by
    simp only [loneLeaf, hleft, hleft']
  -- a lone leaf is read from values under other keys, and they are the same
  split at h
  · rename_i hleaf
    have hnone : b.leftChild = #[] := by rw [h.2]
    refine ⟨?_, ofFields_ok.mpr ⟨numLeaves, numCategorical, leaves, leafValue, internalValue,
      ?_, ?_, ?_, hlist, ?_, ?_⟩⟩
    · rcases hread.shaped with hshaped | hshaped
      · exact hshaped
      · exact absurd hnone hshaped.hasSplitLists.leftChild
    · rwa [DumpField.optional_congr (Fields.value?_without (by decide))]
    · rwa [DumpField.optional_congr (Fields.value?_without (by decide))]
    · rwa [DumpField.required_congr (Fields.value?_without (by decide))]
    · rwa [DumpField.optionalList_congr (Fields.value?_without (by decide))]
    · rwa [hlone, if_pos hleaf]
  · exact absurd hleft (readSplits_given h "left_child" (by decide))

end TreeBlock

namespace LineBlock

variable {block : LineBlock} {b : TreeBlock}

def fields (block : LineBlock) : Fields :=
  (block.body.filterMap fun entry => Fields.ofLine? entry.1).reverse

def Gives (block : LineBlock) (key : String) : Prop := block.fields.value? key ≠ none

instance (block : LineBlock) (key : String) : Decidable (block.Gives key) :=
  inferInstanceAs (Decidable (_ ≠ none))

def numLeaves? (block : LineBlock) : Option Nat :=
  (block.fields.value? "num_leaves").bind fun v => Text.natural? 64 (Text.trim v)

def AsksForSplits (block : LineBlock) : Prop :=
  block.Gives "left_child" ∨ 1 < block.numLeaves?.getD 0

instance (block : LineBlock) : Decidable block.AsksForSplits := inferInstanceAs (Decidable (_ ∨ _))

def without (keys : List String) (block : LineBlock) : LineBlock :=
  { block with
    body := block.body.filter fun entry =>
      (Fields.ofLine? entry.1).all fun field => field.1 ∉ keys }

theorem field_ok {entry : List Char × Nat} {f : String × List Char} :
    field entry = .ok f ↔ Fields.ofLine? entry.1 = some f := by
  unfold field
  cases Fields.ofLine? entry.1 with
  | none => simp
  | some found => simp

theorem mapM_field_ok {fs : Fields} : block.body.mapM field = .ok fs ↔
    List.Forall₂ (fun entry f => Fields.ofLine? entry.1 = some f) block.body fs := by
  simp only [Outcome.mapM_ok, field_ok]

theorem filterMap_fields {body : List (List Char × Nat)} {fs : Fields}
    (h : List.Forall₂ (fun entry f => Fields.ofLine? entry.1 = some f) body fs) :
    (body.filterMap fun entry => Fields.ofLine? entry.1) = fs := by
  induction h with
  | nil => rfl
  | cons hentry _ ih =>
      rw [List.filterMap_cons, hentry]
      exact congrArg _ ih

theorem fields_of_mapM {fs : Fields} (h : block.body.mapM field = .ok fs) :
    block.fields = fs.reverse := by
  rw [fields, filterMap_fields (mapM_field_ok.mp h)]

theorem mapM_field_without {fs : Fields} (keys : List String) (h : block.body.mapM field = .ok fs) :
    (block.without keys).body.mapM field = .ok (Fields.without keys fs) := by
  refine mapM_field_ok.mpr (List.rel_filter ?_ (mapM_field_ok.mp h))
  intro entry f hentry
  simp only [hentry, Option.all_some]

theorem trimmed_fields (block : LineBlock) : block.fields.Trimmed := by
  intro entry hentry
  obtain ⟨line, -, hline⟩ := List.mem_filterMap.mp (List.mem_reverse.mp hentry)
  exact Fields.trimmed_nil.cons hline entry List.mem_cons_self

theorem Yields.ofFields (h : block.Yields b) : TreeBlock.ofFields b.index block.fields = .ok b := by
  obtain ⟨-, fs, -, -, hfields, hb⟩ := h
  rwa [fields_of_mapM hfields]

theorem Yields.numLeaves (h : block.Yields b) : b.numLeaves = block.numLeaves? :=
  TreeBlock.numLeaves_ofFields h.ofFields

theorem Yields.hasSplitLists (h : block.Yields b) (hleft : block.Gives "left_child") :
    (∀ key ∈ TreeBlock.splitKeys, block.Gives key) ∧ b.HasSplitLists :=
  TreeBlock.ofFields_of_leftChild block.trimmed_fields hleft h.ofFields

theorem Yields.leafShaped (h : block.Yields b) (hleft : ¬ block.Gives "left_child") :
    b.LeafShaped ∧ (block.without TreeBlock.splitKeys).Yields b := by
  obtain ⟨hleaf, hwithout⟩ :=
    TreeBlock.ofFields_of_leftChild_none block.trimmed_fields (not_not.mp hleft) h.ofFields
  obtain ⟨token, fs, htoken, hwrites, hfields, -⟩ := h
  refine ⟨hleaf, token, Fields.without TreeBlock.splitKeys fs, htoken, hwrites,
    mapM_field_without _ hfields, ?_⟩
  rwa [fields_of_mapM hfields, Fields.without, List.filter_reverse] at hwithout

theorem Yields.asksForSplits_iff (h : block.Yields b) :
    block.AsksForSplits ↔ block.Gives "left_child" := by
  refine ⟨?_, .inl⟩
  rintro (hleft | hmany)
  · exact hleft
  · by_contra hleft
    rw [← h.numLeaves] at hmany
    cases hn : b.numLeaves with
    | none => exact absurd (hn ▸ hmany) (by decide)
    | some n =>
        have hle := (h.leafShaped hleft).1.numLeaves n hn
        rw [hn, Option.getD_some] at hmany
        omega

end LineBlock

namespace Dump

theorem ofLines_splitLists (ls : List String) :
    (∀ d, ofLines ls = .ok d →
      List.Forall₂ (fun (b : TreeBlock) (block : LineBlock) => block.Yields b ∧
          (b.HasSplitLists ↔ block.AsksForSplits) ∧
          (block.AsksForSplits → ∀ key ∈ TreeBlock.splitKeys, block.Gives key) ∧
          (¬ block.AsksForSplits →
            b.LeafShaped ∧ (block.without TreeBlock.splitKeys).Yields b))
        d.trees.toList (LineBlock.ofTrees ((ls.map String.toList).zipIdx 1))) ∧
    ∀ block ∈ LineBlock.ofTrees ((ls.map String.toList).zipIdx 1), block.AsksForSplits →
      (∃ key ∈ TreeBlock.splitKeys, ¬ block.Gives key) → ∃ e, ofLines ls = .error e := by
  have hyields : ∀ {d}, ofLines ls = .ok d → List.Forall₂ LineBlock.Yields
      (LineBlock.ofTrees ((ls.map String.toList).zipIdx 1)) d.trees.toList :=
    LineBlock.trees_yielded
  constructor
  · intro d h
    have hblocks : List.Forall₂ (fun (b : TreeBlock) (block : LineBlock) => block.Yields b)
        d.trees.toList (LineBlock.ofTrees ((ls.map String.toList).zipIdx 1)) := (hyields h).flip
    refine hblocks.imp fun b block hb => ?_
    simp only [hb.asksForSplits_iff]
    refine ⟨hb, ⟨fun hsplits => ?_, fun hleft => (hb.hasSplitLists hleft).2⟩,
      fun hleft => (hb.hasSplitLists hleft).1, hb.leafShaped⟩
    by_contra hleft
    exact (hb.leafShaped hleft).1.not_hasSplitLists hsplits
  · rintro block hblock hasks ⟨key, hkey, hmissing⟩
    cases h : ofLines ls with
    | error e => exact ⟨e, rfl⟩
    | ok d =>
        obtain ⟨i, hi, rfl⟩ := List.getElem_of_mem hblock
        obtain ⟨hlength, hall⟩ := List.forall₂_iff_get.mp (hyields h)
        have hb := hall i hi (hlength ▸ hi)
        have hgiven := (hb.hasSplitLists (hb.asksForSplits_iff.mp hasks)).1
        exact absurd (hgiven key hkey) hmissing

def thresholdlessLines : List String :=
  ["tree", "num_class=1", "num_tree_per_iteration=1", "max_feature_idx=1", "objective=regression",
    "", "Tree=0", "split_feature=0", "decision_type=2", "left_child=-1", "right_child=-2",
    "leaf_value=7 8"]

theorem leafAndSplits_splitLists :
    (∃ d b c block block', ofLines Ensemble.leafAndSplits = .ok d ∧ d.trees.toList = [b, c] ∧
      LineBlock.ofTrees ((Ensemble.leafAndSplits.map String.toList).zipIdx 1) = [block, block'] ∧
      block.AsksForSplits ∧ (∀ key ∈ TreeBlock.splitKeys, block.Gives key) ∧ b.HasSplitLists ∧
      ¬ block'.AsksForSplits ∧ c.LeafShaped ∧ (block'.without TreeBlock.splitKeys).Yields c) ∧
    ∃ block ∈ LineBlock.ofTrees ((thresholdlessLines.map String.toList).zipIdx 1),
      block.AsksForSplits ∧ ¬ block.Gives "threshold" ∧
        ∃ e, ofLines thresholdlessLines = .error e := by
  constructor
  · obtain ⟨d, hd⟩ := Outcome.exists_ok (x := ofLines Ensemble.leafAndSplits) (by decide +kernel)
    have hasks : (LineBlock.ofTrees ((Ensemble.leafAndSplits.map String.toList).zipIdx 1)).map
        (fun block => decide block.AsksForSplits) = [true, false] := by decide +kernel
    obtain ⟨block, rest, hblocks, hfirst, hrest⟩ := List.map_eq_cons_iff.mp hasks
    obtain ⟨block', rfl, hsecond⟩ := List.map_eq_singleton_iff.mp hrest
    have hfirst := of_decide_eq_true hfirst
    have hsecond := of_decide_eq_false hsecond
    have hread := (ofLines_splitLists Ensemble.leafAndSplits).1 d hd
    rw [hblocks] at hread
    obtain ⟨b, trees, ⟨-, hb, hgiven, -⟩, hread, htrees⟩ := List.forall₂_cons_right_iff.mp hread
    obtain ⟨c, trees', ⟨-, -, -, hc⟩, hend, rfl⟩ := List.forall₂_cons_right_iff.mp hread
    obtain rfl := List.forall₂_nil_right_iff.mp hend
    exact ⟨d, b, c, block, block', hd, htrees, hblocks, hfirst, hgiven hfirst, hb.mpr hfirst,
      hsecond, hc hsecond⟩
  · have hasks : (LineBlock.ofTrees ((thresholdlessLines.map String.toList).zipIdx 1)).map
        (fun block => (decide block.AsksForSplits, decide (block.Gives "threshold"))) =
          [(true, false)] := by decide +kernel
    obtain ⟨block, hblocks, hflags⟩ := List.map_eq_singleton_iff.mp hasks
    have hmem : block ∈ LineBlock.ofTrees ((thresholdlessLines.map String.toList).zipIdx 1) :=
      hblocks ▸ List.mem_singleton_self block
    have hfirst := of_decide_eq_true (Prod.mk.inj hflags).1
    have hthreshold := of_decide_eq_false (Prod.mk.inj hflags).2
    exact ⟨block, hmem, hfirst, hthreshold,
      (ofLines_splitLists thresholdlessLines).2 block hmem hfirst
        ⟨"threshold", by decide, hthreshold⟩⟩

def leftlessLines : List String :=
  ["tree", "num_class=1", "num_tree_per_iteration=1", "max_feature_idx=1", "objective=regression",
    "", "Tree=0", "split_feature=0", "threshold=0.5", "decision_type=2", "right_child=-2",
    "leaf_value=7"]

theorem leftlessLines_dropped :
    ∃ d, ofLines leftlessLines = .ok d ∧
      (∀ block ∈ LineBlock.ofTrees ((leftlessLines.map String.toList).zipIdx 1),
        ∀ key ∈ TreeBlock.splitKeys, key ≠ "left_child" → block.Gives key) ∧
      ¬ List.Forall₂ (fun (b : TreeBlock) (block : LineBlock) =>
          (∃ key ∈ TreeBlock.splitKeys, block.Gives key) → b.HasSplitLists)
        d.trees.toList (LineBlock.ofTrees ((leftlessLines.map String.toList).zipIdx 1)) := by
  obtain ⟨d, hd⟩ := Outcome.exists_ok (x := ofLines leftlessLines) (by decide +kernel)
  have hgiven : ∀ block ∈ LineBlock.ofTrees ((leftlessLines.map String.toList).zipIdx 1),
      ∀ key ∈ TreeBlock.splitKeys, key ≠ "left_child" → block.Gives key := by decide +kernel
  have hcounts : (ofLines leftlessLines).map
      (fun d => d.trees.toList.map TreeBlock.numSplits) = .ok [0] := by decide +kernel
  rw [hd] at hcounts
  obtain ⟨b, hb, hsplits⟩ := List.map_eq_singleton_iff.mp (Except.ok.inj hcounts)
  refine ⟨d, hd, hgiven, fun hread => ?_⟩
  rw [hb] at hread
  obtain ⟨block, rest, hlists, -, hblocks⟩ := List.forall₂_cons_left_iff.mp hread
  have hfeature :=
    hgiven block (hblocks ▸ List.mem_cons_self) "split_feature" (by decide) (by decide)
  have hpos := (hlists ⟨"split_feature", by decide, hfeature⟩).splits
  omega

end Dump

end BoostedTrees
