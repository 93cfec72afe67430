import BoostedTrees.Proofs.Dump.Blocks
import BoostedTrees.Proofs.Dump.Lines

namespace BoostedTrees

namespace DumpScan

variable {d : Dump}

theorem foldlM_outside {entries : List (List Char × Nat)}
    (h : ∀ entry ∈ entries, BlockLine.ofLine? entry.1 = none) :
    entries.foldlM step ⟨d, none⟩ = .ok ⟨d, none⟩ := by
  induction entries with
  | nil => rfl
  | cons entry entries ih =>
      rw [List.foldlM_cons, step_outside (h entry List.mem_cons_self)]
      exact ih fun other hother => h other (List.mem_cons_of_mem entry hother)

end DumpScan

namespace Dump

variable {d d' : Dump}

theorem ofCharLines_append {ls rest : List (List Char)} {blank : List Char}
    (hd : ofCharLines ls = .ok d) (hblank : Text.AllBlank blank)
    (hrest : ∀ line ∈ rest, BlockLine.ofLine? line = none) :
    ofCharLines (ls ++ blank :: rest) = .ok d := by
  obtain ⟨s, hs, hclose⟩ := Outcome.bind_ok.mp hd
  have houtside : ∀ n, (rest.zipIdx n).foldlM DumpScan.step ⟨d, none⟩ = .ok ⟨d, none⟩ := by
    intro n
    refine DumpScan.foldlM_outside fun entry hentry => hrest entry.1 ?_
    exact List.fst_mem_of_mem_zipIdx hentry
  rw [ofCharLines, List.zipIdx_append, List.foldlM_append, hs, List.zipIdx_cons]
  change ((DumpScan.step s _ >>= fun s => _) : Except DumpError DumpScan).bind DumpScan.close = _
  rw [DumpScan.step_blank hblank, hclose]
  change ((List.foldlM DumpScan.step ⟨d, none⟩ _) : Except DumpError DumpScan).bind _ = _
  rw [houtside]
  rfl

theorem size_trees {ls : List (List Char)} (h : ofCharLines ls = .ok d) :
    d.trees.size = ((ls.filterMap BlockLine.ofLine?).filterMap BlockLine.token?).length := by
  rw [(ofCharLines_ok h).1.length_eq, Array.length_toList]

end Dump

abbrev BlankLine := { line : String // Text.AllBlank line.toList }

structure FeatureName where
  text : String
  isWord : Text.IsWord text.toList
  noEquals : '=' ∉ text.toList

structure DumpTrailer where
  blankLines : Fin 3 → BlankLine
  importances : List (FeatureName × Nat)
  parameters : List (String × String)

namespace DumpTrailer

def importanceLine (entry : FeatureName × Nat) : String := entry.1.text ++ "=" ++ toString entry.2

def parameterLine (entry : String × String) : String :=
  "[" ++ entry.1 ++ ": " ++ entry.2 ++ "]"

def innerLines (t : DumpTrailer) : List String :=
  "end of trees" :: (t.blankLines 1).val :: "feature_importances:" ::
    (t.importances.map importanceLine ++ (t.blankLines 2).val :: "parameters:" ::
      (t.parameters.map parameterLine ++ ["end of parameters"]))

def lines (t : DumpTrailer) : List String := (t.blankLines 0).val :: t.innerLines

def opening? (line : String) : Option BlockLine := BlockLine.ofLine? line.toList

theorem opening?_importanceLine (entry : FeatureName × Nat) :
    opening? (importanceLine entry) =
      if entry.1.text = "Tree" then some (.tree (Text.trimEnd (toString entry.2).toList))
      else none := by
  have hline : (importanceLine entry).toList =
      entry.1.text.toList ++ '=' :: (toString entry.2).toList := by
    simp [importanceLine]
  have htree : entry.1.text.toList = BlockLine.treeKey ↔ entry.1.text = "Tree" :=
    @String.toList_inj entry.1.text "Tree"
  rw [opening?, hline, BlockLine.ofLine?_equation entry.1.noEquals]
  simp only [htree]

theorem opening?_parameterLine (entry : String × String) :
    opening? (parameterLine entry) = none := by
  have hline : (parameterLine entry).toList =
      '[' :: (entry.1.toList ++ ": ".toList ++ entry.2.toList ++ "]".toList) := by
    simp [parameterLine]
  rw [opening?, hline]
  exact BlockLine.ofLine?_of_head (by decide) (by decide) (by decide) _

theorem opening?_blankLine (line : BlankLine) : opening? line.val = none :=
  BlockLine.ofLine?_of_allBlank line.property

def treeFeatures (t : DumpTrailer) : List (FeatureName × Nat) :=
  t.importances.filter fun entry => entry.1.text == "Tree"

theorem openings_importances (importances : List (FeatureName × Nat)) :
    (importances.map importanceLine).filterMap opening? =
      (importances.filter fun entry => entry.1.text == "Tree").map
        fun entry => .tree (Text.trimEnd (toString entry.2).toList) := by
  induction importances with
  | nil => rfl
  | cons entry rest ih =>
      rw [List.map_cons, List.filter_cons]
      by_cases htree : entry.1.text = "Tree"
      · have hopens := (opening?_importanceLine entry).trans (if_pos htree)
        rw [List.filterMap_cons_some hopens, if_pos (beq_iff_eq.mpr htree), List.map_cons, ih]
      · have hopens := (opening?_importanceLine entry).trans (if_neg htree)
        rw [List.filterMap_cons_none hopens, if_neg (by simpa using htree), ih]

theorem openings_parameters (parameters : List (String × String)) :
    (parameters.map parameterLine).filterMap opening? = [] := by
  rw [List.filterMap_eq_nil_iff, List.forall_mem_map]
  exact fun entry _ => opening?_parameterLine entry

theorem openings_lines (t : DumpTrailer) : t.lines.filterMap opening? =
    t.treeFeatures.map fun entry => .tree (Text.trimEnd (toString entry.2).toList) := by
  have htrees : opening? "end of trees" = none := by decide
  have htitle : opening? "feature_importances:" = none := by decide
  have hsection : opening? "parameters:" = none := by decide
  have hend : opening? "end of parameters" = none := by decide
  rw [lines, innerLines, List.filterMap_cons_none (opening?_blankLine _),
    List.filterMap_cons_none htrees, List.filterMap_cons_none (opening?_blankLine _),
    List.filterMap_cons_none htitle, List.filterMap_append, openings_importances,
    List.filterMap_cons_none (opening?_blankLine _), List.filterMap_cons_none hsection,
    List.filterMap_append, openings_parameters, List.filterMap_cons_none hend,
    List.filterMap_nil, List.append_nil, List.append_nil, treeFeatures]

variable {ls : List String} {d d' : Dump}

theorem size_trees_append (hd : Dump.ofLines ls = .ok d) (t : DumpTrailer)
    (hd' : Dump.ofLines (ls ++ t.lines) = .ok d') :
    d'.trees.size = d.trees.size + t.treeFeatures.length := by
  have htokens : ∀ entries : List (FeatureName × Nat), (entries.map fun entry =>
      BlockLine.tree (Text.trimEnd (toString entry.2).toList)).filterMap BlockLine.token? =
        entries.map fun entry => Text.trimEnd (toString entry.2).toList := by
    intro entries
    rw [List.filterMap_map]
    exact congrFun List.filterMap_eq_map entries
  have hlines : (t.lines.map String.toList).filterMap BlockLine.ofLine? =
      t.lines.filterMap opening? := List.filterMap_map
  rw [Dump.size_trees hd, Dump.size_trees hd', List.map_append, List.filterMap_append,
    List.filterMap_append, List.length_append, hlines, openings_lines, htokens, List.length_map]

theorem ofLines_append_iff (ls : List String) (d : Dump) (hd : Dump.ofLines ls = .ok d)
    (t : DumpTrailer) :
    Dump.ofLines (ls ++ t.lines) = .ok d ↔ ∀ entry ∈ t.importances, entry.1.text ≠ "Tree" := by
  have htrees : t.treeFeatures = [] ↔ ∀ entry ∈ t.importances, entry.1.text ≠ "Tree" := by
    simp [treeFeatures, List.filter_eq_nil_iff]
  rw [← htrees]
  constructor
  · intro h
    have hsize := size_trees_append hd t h
    exact List.length_eq_zero_iff.mp (by omega)
  · intro h
    have hopenings := openings_lines t
    rw [h, List.map_nil, List.filterMap_eq_nil_iff, lines, List.forall_mem_cons] at hopenings
    rw [Dump.ofLines, List.map_append, lines, List.map_cons]
    refine Dump.ofCharLines_append hd (t.blankLines 0).property ?_
    exact List.forall_mem_map.mpr hopenings.2

def stumpLines : List String :=
  ["tree", "version=v4", "num_class=1", "num_tree_per_iteration=1", "max_feature_idx=2",
    "objective=binary sigmoid:1", "feature_names=Treed Tree c", "tree_sizes=300", "", "Tree=0",
    "num_leaves=2", "split_feature=1", "threshold=0.5", "decision_type=2", "left_child=-1",
    "right_child=-2", "leaf_value=-0.25 0.75"]

def usedOnce (name : FeatureName) : DumpTrailer where
  blankLines := fun _ => ⟨"", by decide⟩
  importances := [(name, 1)]
  parameters := [("boosting", "gbdt")]

def treedFeature : FeatureName := ⟨"Treed", ⟨by decide, by decide⟩, by decide⟩

def treeFeature : FeatureName := ⟨"Tree", ⟨by decide, by decide⟩, by decide⟩

theorem treedFeature_ignored :
    ∃ d, Dump.ofLines stumpLines = .ok d ∧
      Dump.ofLines (stumpLines ++ (usedOnce treedFeature).lines) = .ok d := by
  obtain ⟨d, hd⟩ := Outcome.exists_ok (x := Dump.ofLines stumpLines) (by decide +kernel)
  exact ⟨d, hd, (ofLines_append_iff stumpLines d hd (usedOnce treedFeature)).mpr (by decide)⟩

theorem treeFeature_unreadable :
    ∃ d, Dump.ofLines stumpLines = .ok d ∧
      Dump.ofLines (stumpLines ++ (usedOnce treeFeature).lines) =
        .error (.missingField (some 1) "leaf_value") := by
  obtain ⟨d, hd⟩ := Outcome.exists_ok (x := Dump.ofLines stumpLines) (by decide +kernel)
  refine ⟨d, hd, ?_⟩
  have herror : (Dump.ofLines (stumpLines ++ (usedOnce treeFeature).lines)).map (fun _ => ()) =
      .error (.missingField (some 1) "leaf_value") := by decide +kernel
  exact Outcome.map_error.mp herror

end DumpTrailer

end BoostedTrees
