import BoostedTrees.Dump.Draft
import BoostedTrees.Proofs.Binary64.ReadBack
import BoostedTrees.Proofs.Dump.Blocks
import BoostedTrees.Proofs.Dump.Written

namespace BoostedTrees

open DumpField (ReadsBack joined)

namespace TreeDraft

structure HasSplits (t : TreeDraft) : Prop where
  leftChild : t.leftChild ≠ []
  rightChild : t.rightChild.length = t.leftChild.length
  splitFeature : t.splitFeature.length = t.leftChild.length
  decisionType : t.decisionType.length = t.leftChild.length
  threshold : t.threshold.length = t.leftChild.length
  leafValue : t.leafValue.length = t.leftChild.length + 1
  numLeaves : t.numLeaves = t.leafValue.length

def IsInt32 (n : Int) : Prop := -2 ^ 31 ≤ n ∧ n < 2 ^ 31

instance (n : Int) : Decidable (IsInt32 n) := inferInstanceAs (Decidable (_ ∧ _))

structure Fits (t : TreeDraft) : Prop where
  numLeaves : t.numLeaves < 2 ^ 64
  numCategorical : t.numCategorical < 2 ^ 64
  splitFeature : ∀ n ∈ t.splitFeature, IsInt32 n
  decisionType : ∀ n ∈ t.decisionType, IsInt32 n
  leftChild : ∀ n ∈ t.leftChild, IsInt32 n
  rightChild : ∀ n ∈ t.rightChild, IsInt32 n
  boundaries : ∀ n ∈ t.boundaries, n < 2 ^ 32

def WellFormed (t : TreeDraft) : Prop := (∃ value, t = leaf value) ∨ (t.HasSplits ∧ t.Fits)

theorem readsBack_natural {width n : Nat} (h : n < 2 ^ width) :
    ReadsBack (Nat.toDigits 10) (Text.natural? width) n :=
  ⟨Text.isNumeral_toDigits n, Text.natural?_toDigits h⟩

theorem readsBack_integer (width : Nat) {n : Int} (hlow : -2 ^ (width - 1) ≤ n)
    (hhigh : n < 2 ^ (width - 1)) : ReadsBack Binary64.intChars (Text.integer? width) n := by
  have hpow : ((Nat.pow 2 (width - 1) : Nat) : Int) = 2 ^ (width - 1) := Nat.cast_pow 2 _
  rw [← hpow] at hlow hhigh
  exact ⟨Binary64.isNumeral_intChars n, Text.integer?_intChars hlow hhigh⟩

theorem readsBack_int32 {n : Int} (h : IsInt32 n) :
    ReadsBack Binary64.intChars (Text.integer? 32) n :=
  readsBack_integer 32 h.1 h.2

theorem readsBack_float (x : Float) : ReadsBack Binary64.plainChars Binary64.read? x :=
  ⟨Binary64.Datum.isNumeral_chars _ _, Binary64.read?_chars _ x⟩

theorem readsBack_word (w : UInt64) :
    ReadsBack (fun w : UInt64 => Nat.toDigits 10 w.toNat) DumpField.word64? w := by
  refine ⟨Text.isNumeral_toDigits _, ?_⟩
  rw [DumpField.word64?, Text.natural?_toDigits w.toNat_lt, Option.map_some, UInt64.ofNat_toNat]

def fields (t : TreeDraft) : List (String × List Char) :=
  [("num_leaves", Nat.toDigits 10 t.numLeaves), ("num_cat", Nat.toDigits 10 t.numCategorical)] ++
  (if t.leftChild.isEmpty then []
   else
    [("split_feature", joined Binary64.intChars t.splitFeature),
      ("threshold", joined Binary64.plainChars t.threshold),
      ("decision_type", joined Binary64.intChars t.decisionType),
      ("left_child", joined Binary64.intChars t.leftChild),
      ("right_child", joined Binary64.intChars t.rightChild)]) ++
  [("leaf_value", joined Binary64.plainChars t.leafValue)] ++
  (if t.boundaries.isEmpty then []
   else [("cat_boundaries", joined (Nat.toDigits 10) t.boundaries)]) ++
  (if t.words.isEmpty then []
   else [("cat_threshold", joined (fun w : UInt64 => Nat.toDigits 10 w.toNat) t.words)]) ++
  [("shrinkage", ['1'])]

theorem toList_listLine {α : Type} (key : String) (text : α → List Char) (values : List α) :
    (listLine key (fun x => String.ofList (text x)) values).toList =
      Fields.line (key, joined text values) := by
  simp [listLine, Fields.line, joined, Function.comp_def]

theorem toList_lines (t : TreeDraft) (position : Nat) :
    (t.lines position).map String.toList =
      LineBlock.writtenLines (treeLineStart ++ Nat.toDigits 10 position) t.fields := by
  have hints : ∀ key values, (listLine key intText values).toList =
      Fields.line (key, joined Binary64.intChars values) := fun key => toList_listLine key _
  have hfloats : ∀ key values, (listLine key Binary64.plain values).toList =
      Fields.line (key, joined Binary64.plainChars values) := fun key => toList_listLine key _
  have hnats : ∀ key values, (listLine key natText values).toList =
      Fields.line (key, joined (Nat.toDigits 10) values) := fun key => toList_listLine key _
  have hwords : ∀ key, (listLine key (fun w : UInt64 => natText w.toNat) t.words).toList =
      Fields.line (key, joined (fun w : UInt64 => Nat.toDigits 10 w.toNat) t.words) :=
    fun key => toList_listLine key _ _
  simp only [natText] at hwords
  unfold lines splitLines fields LineBlock.writtenLines
  split <;> split <;> split <;>
    simp [hints, hfloats, hnats, hwords, natText, Fields.line, treeLineStart]

def allKeys : List String :=
  ["num_leaves", "num_cat", "split_feature", "threshold", "decision_type", "left_child",
    "right_child", "leaf_value", "cat_boundaries", "cat_threshold", "shrinkage"]

theorem keys_sublist (t : TreeDraft) : (t.fields.map Prod.fst).Sublist allKeys := by
  unfold fields
  split <;> split <;> split <;> simp only [List.map_cons, List.map_append, List.map_nil] <;> decide

theorem nodup_keys (t : TreeDraft) : (t.fields.map Prod.fst).Nodup :=
  t.keys_sublist.nodup (by decide)

section Reading

variable {t : TreeDraft}

theorem WellFormed.fits (h : t.WellFormed) : t.Fits := by
  rcases h with ⟨value, rfl⟩ | h
  · exact ⟨by simp [leaf], by simp [leaf], nofun, nofun, nofun, nofun, nofun⟩
  · exact h.2

theorem WellFormed.leafValue_ne_nil (h : t.WellFormed) : t.leafValue ≠ [] := by
  rcases h with ⟨value, rfl⟩ | ⟨h, -⟩
  · simp [leaf]
  · intro hnil
    have := h.leafValue
    rw [hnil, List.length_nil] at this
    omega

theorem Fits.writable (h : t.Fits) : ∀ f ∈ t.fields, Fields.Writable f := by
  have hkeys : ∀ key ∈ allKeys, Fields.IsKey key := by decide
  have hints : ∀ key ∈ allKeys, ∀ xs : List Int, (∀ n ∈ xs, IsInt32 n) →
      Fields.Writable (key, joined Binary64.intChars xs) := fun key hkey xs hxs =>
    DumpField.writable_joined (hkeys key hkey) fun n hn => readsBack_int32 (hxs n hn)
  have hfloats : ∀ key ∈ allKeys, ∀ xs : List Float,
      Fields.Writable (key, joined Binary64.plainChars xs) := fun key hkey xs =>
    DumpField.writable_joined (hkeys key hkey) fun x _ => readsBack_float x
  unfold fields
  simp only [List.forall_mem_append]
  refine ⟨⟨⟨⟨⟨?_, ?_⟩, ?_⟩, ?_⟩, ?_⟩, ?_⟩
  · simp only [List.forall_mem_cons]
    exact ⟨DumpField.writable_text (hkeys _ (by decide)) (readsBack_natural h.numLeaves),
      DumpField.writable_text (hkeys _ (by decide)) (readsBack_natural h.numCategorical), nofun⟩
  · split
    · exact nofun
    · simp only [List.forall_mem_cons]
      exact ⟨hints _ (by decide) _ h.splitFeature, hfloats _ (by decide) _,
        hints _ (by decide) _ h.decisionType, hints _ (by decide) _ h.leftChild,
        hints _ (by decide) _ h.rightChild, nofun⟩
  · exact List.forall_mem_singleton.mpr (hfloats _ (by decide) _)
  · split
    · exact nofun
    · exact List.forall_mem_singleton.mpr (DumpField.writable_joined (hkeys _ (by decide))
        fun n hn => readsBack_natural (h.boundaries n hn))
  · split
    · exact nofun
    · exact List.forall_mem_singleton.mpr (DumpField.writable_joined (hkeys _ (by decide))
        fun w _ => readsBack_word w)
  · exact List.forall_mem_singleton.mpr ⟨hkeys _ (by decide), by decide, by decide⟩

theorem HasSplits.checkLeaves (h : t.HasSplits) {b : TreeBlock}
    (hnum : b.numLeaves = some t.numLeaves) (hleaf : b.leafValue = t.leafValue.toArray) :
    b.checkLeaves t.leftChild.toArray = .ok () := by
  have hcount : t.leftChild.length = t.numLeaves - 1 := by
    rw [h.numLeaves, h.leafValue, Nat.add_sub_cancel]
  have hleft : DumpField.checkSize "left_child" t.leftChild.toArray (t.numLeaves - 1) = .ok () := by
    rw [DumpField.checkSize, List.size_toArray, if_pos hcount]
  have hvalues : DumpField.checkSize "leaf_value" t.leafValue.toArray t.numLeaves = .ok () := by
    rw [DumpField.checkSize, List.size_toArray, if_pos h.numLeaves.symm]
  rw [TreeBlock.checkLeaves, hnum, hleaf]
  exact Outcome.bind_ok.mpr ⟨_, hleft, hvalues⟩

theorem HasSplits.mem_leftChild (h : t.HasSplits) :
    ("left_child", joined Binary64.intChars t.leftChild) ∈ t.fields := by
  simp [fields, h.leftChild]

theorem HasSplits.readSplits (h : t.HasSplits) (hfits : t.Fits) {b : TreeBlock}
    (hnum : b.numLeaves = some t.numLeaves) (hleaf : b.leafValue = t.leafValue.toArray) :
    b.readSplits (t.fields.map Fields.trimmed).reverse =
      .ok { b with
        leftChild := t.leftChild.toArray, rightChild := t.rightChild.toArray
        splitFeature := t.splitFeature.toArray, decisionType := t.decisionType.toArray
        threshold := t.threshold.toArray, boundaries := t.boundaries.toArray
        words := t.words.toArray } := by
  have hkeys := t.nodup_keys
  have hints : ∀ {xs : List Int}, (∀ n ∈ xs, IsInt32 n) →
      ∀ n ∈ xs, ReadsBack Binary64.intChars (Text.integer? 32) n :=
    fun hxs n hn => readsBack_int32 (hxs n hn)
  have hlength : t.leftChild.length ≠ 0 := by simpa using h.leftChild
  -- a list of splits has a line, as there are splits; one of categories if it has entries
  have hsplits : ("right_child", joined Binary64.intChars t.rightChild) ∈ t.fields ∧
      ("split_feature", joined Binary64.intChars t.splitFeature) ∈ t.fields ∧
      ("decision_type", joined Binary64.intChars t.decisionType) ∈ t.fields ∧
      ("threshold", joined Binary64.plainChars t.threshold) ∈ t.fields := by
    simp [fields, h.leftChild]
  obtain ⟨hright, hfeature, hdecision, hthreshold⟩ := hsplits
  refine TreeBlock.readSplits_ok.mpr ⟨_, _, _, _, _, _, _, _,
    DumpField.required_joined hkeys h.mem_leftChild (hints hfits.leftChild) h.leftChild _,
    DumpField.list_joined (hints hfits.leftChild) _,
    DumpField.sizedList_joined hkeys hright (hints hfits.rightChild) h.rightChild hlength _,
    DumpField.sizedList_joined hkeys hfeature (hints hfits.splitFeature) h.splitFeature hlength _,
    DumpField.sizedList_joined hkeys hdecision (hints hfits.decisionType) h.decisionType hlength _,
    DumpField.sizedList_joined hkeys hthreshold (fun x _ => readsBack_float x) h.threshold
      hlength _,
    h.checkLeaves hnum hleaf,
    DumpField.optionalList_joined hkeys (fun hne => ?_) (fun hnil => ?_)
      (fun n hn => readsBack_natural (hfits.boundaries n hn)),
    DumpField.optionalList_joined hkeys (fun hne => ?_) (fun hnil => ?_)
      (fun w _ => readsBack_word w), rfl⟩
  · simp [fields, hne]
  · simp [fields, hnil]
  · simp [fields, hne]
  · simp [fields, hnil]

theorem WellFormed.ofFields (h : t.WellFormed) (position : Nat) :
    TreeBlock.ofFields position (t.fields.map Fields.trimmed).reverse =
      .ok (t.toBlock position) := by
  have hkeys := t.nodup_keys
  have hvalues : ∀ x ∈ t.leafValue, ReadsBack Binary64.plainChars Binary64.read? x :=
    fun x _ => readsBack_float x
  have hnone : ∀ x ∈ ([] : List Float), ReadsBack Binary64.plainChars Binary64.read? x := nofun
  have hinternal : "internal_value" ∉ t.fields.map Prod.fst :=
    fun hmem => absurd (t.keys_sublist.subset hmem) (by decide)
  refine TreeBlock.ofFields_ok.mpr ⟨_, _, _, _, _,
    DumpField.optional_text hkeys (by simp [fields]) (readsBack_natural h.fits.numLeaves),
    DumpField.optional_text hkeys (by simp [fields]) (readsBack_natural h.fits.numCategorical),
    DumpField.required_joined hkeys (by simp [fields]) hvalues h.leafValue_ne_nil _,
    DumpField.list_joined hvalues _,
    DumpField.optionalList_joined hkeys (by simp) (fun _ => hinternal) hnone, ?_⟩
  rcases h with ⟨value, rfl⟩ | ⟨hsplits, hfits⟩
  · have hleft : "left_child" ∉ (leaf value).fields.map Prod.fst := by simp [fields, leaf]
    rw [if_pos (by rw [loneLeaf, Fields.value?_of_notMem hleft]; rfl)]
    exact ⟨rfl, rfl⟩
  · have hleft := DumpField.value?_joined hkeys hsplits.mem_leftChild
      (fun n hn => readsBack_int32 (hfits.leftChild n hn)) hsplits.leftChild
    rw [if_neg (by simp [loneLeaf, hleft]), hsplits.readSplits hfits rfl rfl]
    rfl

end Reading

end TreeDraft

namespace DumpDraft

structure WellFormed (d : DumpDraft) : Prop where
  objective : ¬Text.AllBlank d.objective.toList
  noEquals : '=' ∉ d.objective.toList
  noLineFeed : '\n' ∉ d.objective.toList
  numClasses : d.numClasses < 2 ^ 63
  treesPerIteration : d.treesPerIteration < 2 ^ 63
  maxFeature : d.maxFeature < 2 ^ 63
  count : d.trees.length ≤ 2 ^ 64
  trees : ∀ t ∈ d.trees, t.WellFormed

def fields (d : DumpDraft) : List (String × List Char) :=
  [("version", ['v', '4']), ("num_class", Binary64.intChars d.numClasses),
    ("num_tree_per_iteration", Binary64.intChars d.treesPerIteration), ("label_index", ['0']),
    ("max_feature_idx", Binary64.intChars d.maxFeature), ("objective", d.objective.toList)]

theorem toList_headerLines (d : DumpDraft) :
    d.headerLines.map String.toList = LineBlock.writtenLines headerLine d.fields := by
  have hnat : ∀ n : Nat, Nat.toDigits 10 n = Binary64.intChars n := fun _ => rfl
  simp [headerLines, fields, Fields.line, headerLine, TreeDraft.natText, LineBlock.writtenLines,
    hnat]

theorem readsBack_int64 {n : Nat} (h : n < 2 ^ 63) :
    ReadsBack Binary64.intChars (Text.integer? 64) (n : Int) :=
  TreeDraft.readsBack_integer 64 (by omega) (by omega)

section Reading

variable {d : DumpDraft}

theorem WellFormed.writable (h : d.WellFormed) : ∀ f ∈ d.fields, Fields.Writable f := by
  simp only [fields, List.forall_mem_cons]
  have hobjective : Fields.IsKey "objective" := by decide
  exact ⟨⟨by decide, by decide, by decide⟩,
    DumpField.writable_text (by decide) (readsBack_int64 h.numClasses),
    DumpField.writable_text (by decide) (readsBack_int64 h.treesPerIteration),
    ⟨by decide, by decide, by decide⟩,
    DumpField.writable_text (by decide) (readsBack_int64 h.maxFeature),
    ⟨hobjective, h.noEquals, h.noLineFeed⟩, nofun⟩

theorem WellFormed.ofFields (h : d.WellFormed) :
    Header.ofFields (d.fields.map Fields.trimmed).reverse = .ok d.header := by
  have hkeys : (d.fields.map Prod.fst).Nodup := by
    simp only [fields, List.map_cons, List.map_nil]
    decide
  have hobjective : Text.trim d.objective.toList ≠ [] :=
    fun hnil => h.objective (Text.allBlank_of_trim hnil)
  have hversion : ("version", ['v', '4']) ∈ d.fields := by simp [fields]
  have hversion := Fields.value?_of_mem hkeys hversion (by decide)
  have hvalue : ("objective", d.objective.toList) ∈ d.fields := by simp [fields]
  have hvalue := Fields.value?_of_mem hkeys hvalue hobjective
  have hnames : Fields.value? (d.fields.map Fields.trimmed).reverse "feature_names" = none :=
    Fields.value?_of_notMem (by simp [fields])
  refine Header.ofFields_ok.mpr ⟨Text.trim d.objective.toList, _, _, _, _, _, _,
    by rw [DumpField.required, hvalue],
    DumpField.required_text hkeys (by simp [fields]) (readsBack_int64 h.numClasses) _,
    (readsBack_int64 h.numClasses).scalar _,
    DumpField.required_text hkeys (by simp [fields]) (readsBack_int64 h.treesPerIteration) _,
    (readsBack_int64 h.treesPerIteration).scalar _,
    DumpField.required_text hkeys (by simp [fields]) (readsBack_int64 h.maxFeature) _,
    (readsBack_int64 h.maxFeature).scalar _, ?_⟩
  have htrim : Text.trim ['v', '4'] = ['v', '4'] := by decide
  have hwords : Text.words [] = [] := Text.words_of_nil rfl
  simp only [hversion, hnames, htrim, splitObjective, Text.trim_trim, Option.getD_none, hwords]
  rfl

theorem noBlank_treeLine (position : Nat) :
    Text.NoBlank (treeLineStart ++ Nat.toDigits 10 position) := by
  intro c hc
  rcases List.mem_append.mp hc with hc | hc
  · have hstart : Text.NoBlank treeLineStart := by decide
    exact hstart c hc
  · exact (Text.isNumeral_toDigits position).isWord.2 c hc

theorem ofLine?_treeLine (position : Nat) :
    BlockLine.ofLine? (treeLineStart ++ Nat.toDigits 10 position) =
      some (.tree (Nat.toDigits 10 position)) := by
  have hheader : treeLineStart ++ Nat.toDigits 10 position ≠ headerLine := by
    intro heq
    have : '=' ∈ headerLine := heq ▸ List.mem_append_left _ (by decide)
    exact absurd this (by decide)
  rw [BlockLine.ofLine?, Text.trimEnd_of_noBlank (noBlank_treeLine position), if_neg hheader,
    if_pos (by simp), List.drop_left]

theorem foldlM_trees (ts : List TreeDraft) (position : Nat) (hcount : position + ts.length ≤ 2 ^ 64)
    (hts : ∀ t ∈ ts, t.WellFormed) (dump : Dump) (rest : List (List Char)) (n : Nat) :
    ∃ m, (LineBlock.ofLines
        (((((ts.zipIdx position).flatMap fun entry => entry.1.lines entry.2).map String.toList).map
          fun l => Text.endedLine l.reverse) ++ rest |>.zipIdx n)).foldlM LineBlock.addTo dump =
      (LineBlock.ofLines (rest.zipIdx m)).foldlM LineBlock.addTo
        { dump with
          trees := dump.trees ++
            ((ts.zipIdx position).map fun entry => entry.1.toBlock entry.2).toArray } := by
  induction ts generalizing position dump n with
  | nil => exact ⟨n, by simp⟩
  | cons t ts ih =>
      have ht := hts t List.mem_cons_self
      rw [List.length_cons] at hcount
      have hposition : ReadsBack (Nat.toDigits 10) (Text.natural? 64) position :=
        TreeDraft.readsBack_natural (by omega)
      have hkind : BlockKind.ofBlockLine (.tree (Nat.toDigits 10 position)) =
          .ok (.tree position) := by
        rw [BlockKind.ofBlockLine, hposition.scalar]
        rfl
      have hadd : dump.addBlock ⟨.tree position, (t.fields.map Fields.trimmed).reverse⟩ =
          .ok { dump with trees := dump.trees.push (t.toBlock position) } := by
        rw [Dump.addBlock]
        simp only [ht.ofFields]
        rfl
      have hreturn : '\r' ∉ treeLineStart ++ Nat.toDigits 10 position :=
        fun hc => absurd (noBlank_treeLine position _ hc) (by decide)
      obtain ⟨m, hm⟩ := ih (position + 1) (by omega) (fun u hu => hts u (List.mem_cons_of_mem t hu))
        { dump with trees := dump.trees.push (t.toBlock position) } (n + 1 + t.fields.length + 1)
      refine ⟨m, ?_⟩
      rw [List.zipIdx_cons, List.flatMap_cons, List.map_append, List.map_append,
        TreeDraft.toList_lines, List.append_assoc,
        LineBlock.foldlM_writtenLines hreturn (ofLine?_treeLine position) (by simp) hkind
          ht.fits.writable, hadd]
      refine hm.trans ?_
      rw [List.map_cons, Array.push_eq_append, Array.append_assoc]
      simp

theorem ofLines_trailer (n : Nat) :
    LineBlock.ofLines
      (((trailerLines.map String.toList).map fun l => Text.endedLine l.reverse).zipIdx n) = [] := by
  rfl

theorem WellFormed.newline_notMem (h : d.WellFormed) :
    ∀ l ∈ d.lines.map String.toList, '\n' ∉ l := by
  rw [lines, List.map_append, List.map_append, toList_headerLines]
  simp only [List.forall_mem_append]
  refine ⟨⟨?_, ?_⟩, by decide⟩
  · exact LineBlock.newline_notMem_writtenLines (by decide) h.writable
  · intro l hl
    obtain ⟨line, hline, rfl⟩ := List.mem_map.mp hl
    obtain ⟨⟨t, position⟩, hentry, hline⟩ := List.mem_flatMap.mp hline
    have ht := h.trees t (List.fst_mem_of_mem_zipIdx hentry)
    have hmem : line.toList ∈ (t.lines position).map String.toList := List.mem_map_of_mem hline
    rw [TreeDraft.toList_lines] at hmem
    refine LineBlock.newline_notMem_writtenLines (fun hc => ?_) ht.fits.writable _ hmem
    exact absurd (noBlank_treeLine position _ hc) (by decide)

theorem ofText_text (h : d.WellFormed) : Dump.ofText d.text = .ok d.toDump := by
  have hheader : ({} : Dump).addBlock ⟨.header, (d.fields.map Fields.trimmed).reverse⟩ =
      .ok { header := some d.header } := by
    rw [Dump.addBlock]
    simp only [h.ofFields]
    rfl
  have hopening : BlockLine.ofLine? headerLine = some .header := by decide
  obtain ⟨m, htrees⟩ := foldlM_trees d.trees 0 (by simpa using h.count) h.trees
    { header := some d.header }
    ((trailerLines.map String.toList).map fun l => Text.endedLine l.reverse)
    (1 + 1 + d.fields.length + 1)
  rw [Dump.ofText, text, Text.toList_unlines, Text.splitLines_flatMap h.newline_notMem,
    Dump.ofCharLines_eq, Dump.ofLineBlocks, lines, List.map_append, List.map_append,
    List.map_append, List.map_append, toList_headerLines, List.append_assoc,
    LineBlock.foldlM_writtenLines (by decide) hopening (by simp) rfl h.writable, hheader]
  refine htrees.trans ?_
  rw [ofLines_trailer]
  simp [toDump]
  rfl

end Reading

def extremeDraft : DumpDraft where
  objective := " multiclass num_class:2 \r"
  numClasses := 2
  treesPerIteration := 2
  maxFeature := 2 ^ 63 - 1
  trees :=
    [.leaf Binary64.nan,
      (TreeDraft.stump (-2 ^ 31) (-Binary64.infinity) (2 ^ 31 - 1) Binary64.zero
        (-Binary64.zero)).withCategories 1 [0, 2 ^ 32 - 1] [0, 2 ^ 64 - 1]]

theorem extremeDraft_wellFormed : extremeDraft.WellFormed where
  objective := by decide
  noEquals := by decide
  noLineFeed := by decide
  numClasses := by decide
  treesPerIteration := by decide
  maxFeature := by decide
  count := by decide
  trees := by
    simp only [extremeDraft, List.forall_mem_cons]
    refine ⟨.inl ⟨_, rfl⟩, .inr ⟨⟨by decide, rfl, rfl, rfl, rfl, rfl, rfl⟩, ?_⟩, nofun⟩
    simp only [TreeDraft.withCategories, TreeDraft.stump]
    exact ⟨by decide, by decide, by decide, by decide, by decide, by decide, by decide⟩

theorem extremeDraft_readBack :
    extremeDraft.WellFormed ∧ Dump.ofText extremeDraft.text = .ok extremeDraft.toDump :=
  ⟨extremeDraft_wellFormed, ofText_text extremeDraft_wellFormed⟩

end DumpDraft

end BoostedTrees
