import BoostedTrees.Dump.Scan
import BoostedTrees.Proofs.Text.Words

namespace BoostedTrees

theorem bne_equals {s : List Char} (h : '=' ∉ s) : ∀ c ∈ s, (c != '=') = true :=
  fun _ hc => bne_iff_ne.mpr fun heq => h (heq ▸ hc)

namespace BlockLine

theorem ofLine?_of_allBlank {line : List Char} (h : Text.AllBlank line) : ofLine? line = none := by
  have hreverse : ∀ c ∈ line.reverse, Text.isBlank c = true :=
    fun c hc => h c (List.mem_reverse.mp hc)
  have htrim : Text.trimEnd line = [] := by
    rw [Text.trimEnd, List.dropWhile_eq_nil_iff.mpr hreverse, List.reverse_nil]
  rw [ofLine?, htrim]
  rfl

theorem ofLine?_of_head {c : Char} (hblank : Text.isBlank c = false) (hheader : c ≠ 't')
    (htree : c ≠ 'T') (rest : List Char) : ofLine? (c :: rest) = none := by
  rw [ofLine?, Text.trimEnd_cons hblank, if_neg, if_neg]
  · intro hprefix
    exact htree (List.cons_prefix_cons.mp (List.isPrefixOf_iff_prefix.mp hprefix)).1.symm
  · intro heq
    exact hheader (List.cons.inj heq).1

def treeKey : List Char := ['T', 'r', 'e', 'e']

theorem ofLine?_equation {key : List Char} (hkey : '=' ∉ key) (value : List Char) :
    ofLine? (key ++ '=' :: value) =
      if key = treeKey then some (.tree (Text.trimEnd value)) else none := by
  have hsign : Text.trimEnd ('=' :: value) = '=' :: Text.trimEnd value :=
    Text.trimEnd_cons (by decide) value
  have htrim : Text.trimEnd (key ++ '=' :: value) = key ++ '=' :: Text.trimEnd value := by
    rw [Text.trimEnd_append (by rw [hsign]; exact List.cons_ne_nil _ _), hsign]
  have hheader : key ++ '=' :: Text.trimEnd value ≠ headerLine := by
    intro heq
    have hmem : '=' ∈ headerLine := heq ▸ List.mem_append_right key List.mem_cons_self
    exact absurd hmem (by decide)
  rw [ofLine?, htrim, if_neg hheader]
  by_cases htree : key = treeKey
  · subst htree
    rfl
  · have hprefix : ¬ treeLineStart.isPrefixOf (key ++ '=' :: Text.trimEnd value) = true := by
      intro hprefix
      obtain ⟨rest, hrest⟩ := List.isPrefixOf_iff_prefix.mp hprefix
      -- both sides have their first equals sign behind the key
      have hstart : treeKey ++ '=' :: rest = key ++ '=' :: Text.trimEnd value := hrest
      have htake := congrArg (List.takeWhile (· != '=')) hstart
      rw [List.takeWhile_append_of_pos (bne_equals (by simp [treeKey])),
        List.takeWhile_append_of_pos (bne_equals hkey)] at htake
      exact htree (by simpa using htake.symm)
    rw [if_neg hprefix, if_neg htree]

end BlockLine

namespace Fields

theorem ofLine?_of_notMem {line : List Char} (h : '=' ∉ line) : ofLine? line = none := by
  rw [ofLine?, List.dropWhile_eq_nil_iff.mpr (bne_equals h)]

theorem ofLine?_equation {key : List Char} (hkey : '=' ∉ key) (value : List Char) :
    ofLine? (key ++ '=' :: value) =
      if '=' ∈ value then none else some (String.ofList (Text.trim key), Text.trim value) := by
  have hpos := bne_equals hkey
  have hstop : ¬('=' != '=') = true := by decide
  rw [ofLine?, List.dropWhile_append_of_pos hpos,
    List.dropWhile_cons_of_neg (p := fun c => c != '=') hstop, List.takeWhile_append_of_pos hpos,
    List.takeWhile_cons_of_neg (p := fun c => c != '=') hstop, List.append_nil]
  simp only [List.contains_iff_mem]

theorem trim_ne_nil {line : List Char} (h : '=' ∈ line) : (Text.trim line).isEmpty = false := by
  rw [Bool.eq_false_iff]
  intro hempty
  have hblank := Text.allBlank_of_trim (List.isEmpty_iff.mp hempty) '=' h
  exact absurd hblank (by decide)

end Fields

namespace DumpScan

variable {entry : List Char × Nat}

theorem step_blank (h : Text.AllBlank entry.1) (s : DumpScan) :
    s.step entry = s.close.map fun d => ⟨d, none⟩ := by
  have hblank : (Text.trim entry.1).isEmpty = true := by
    rw [Text.trim, Text.trimStart, List.dropWhile_eq_nil_iff.mpr h]
    rfl
  rw [step, BlockLine.ofLine?_of_allBlank h]
  simp only [hblank, if_true]

theorem step_outside (h : BlockLine.ofLine? entry.1 = none) (d : Dump) :
    step ⟨d, none⟩ entry = .ok ⟨d, none⟩ := by
  simp only [step, h]
  split <;> rfl

def addField (s : DumpScan) (field : String × List Char) : DumpScan :=
  ⟨s.dump, s.block.map fun b => { b with fields := field :: b.fields }⟩

theorem step_field {field : String × List Char} (h : BlockLine.ofLine? entry.1 = none)
    (hfield : Fields.ofLine? entry.1 = some field) (s : DumpScan) :
    s.step entry = .ok (s.addField field) := by
  have hsign : '=' ∈ entry.1 := by
    by_contra hnone
    rw [Fields.ofLine?_of_notMem hnone] at hfield
    exact absurd hfield (by simp)
  obtain ⟨d, _ | b⟩ := s
  · exact step_outside h d
  · simp only [step, h, Fields.trim_ne_nil hsign, addLine, hfield]
    rfl

end DumpScan

end BoostedTrees
