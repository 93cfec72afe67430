import BoostedTrees.Dump.Fields
import BoostedTrees.Proofs.Text.Words

namespace BoostedTrees

open Text

structure ObjectiveParts (text name config : List Char) : Prop where
  name_noBlank : NoBlank name
  config_trimmed : Trimmed config
  layout : ∃ before gap after, AllBlank before ∧ AllBlank gap ∧ AllBlank after ∧
    text = before ++ (name ++ gap ++ config) ++ after ∧ Trimmed (name ++ gap ++ config) ∧
    (gap = [] ↔ config = [])
  nameless : name = [] → AllBlank text ∧ config = []

theorem noBlank_firstWord (s : List Char) : NoBlank (firstWord s) := by
  intro c hc
  have hword := List.mem_takeWhile_imp hc
  simpa using hword

theorem head?_afterWord (s : List Char) : ∀ c ∈ (afterWord s).head?, isBlank c = true := by
  intro c hc
  have hhead := List.head?_dropWhile_not (fun d => !isBlank d) s
  rw [afterWord, Option.mem_def] at hc
  rw [hc] at hhead
  simpa using hhead

theorem eq_nil_of_trimmed {s : List Char} (h : Trimmed s)
    (hblank : ∀ c ∈ s.head?, isBlank c = true) : s = [] := by
  cases s with
  | nil => rfl
  | cons c s => exact absurd ((hblank c rfl).symm.trans (h.1 c rfl)) (by decide)

theorem eq_nil_of_getLast {s blanks : List Char} (hblanks : AllBlank blanks)
    (h : ∀ c ∈ (s ++ blanks).getLast?, isBlank c = false) : blanks = [] := by
  cases blanks using List.reverseRecOn with
  | nil => rfl
  | append_singleton blanks c =>
      have hc := h c (by simp)
      rw [hblanks c (by simp)] at hc
      exact absurd hc (by decide)

theorem exists_gap {s : List Char} (h : Trimmed s) :
    ∃ gap, AllBlank gap ∧ afterWord s = gap ++ trim (afterWord s) ∧
      (gap = [] ↔ trim (afterWord s) = []) := by
  have hhead := head?_afterWord s
  have hlast := h.2
  rw [← firstWord_append_afterWord s] at hlast
  obtain ⟨gap, tail, hgap, htail, hrest⟩ := exists_blanks_trim (afterWord s)
  have htrimmed := trimmed_trim (afterWord s)
  generalize afterWord s = rest at *
  have htail : tail = [] := by
    rw [hrest, ← List.append_assoc] at hlast
    exact eq_nil_of_getLast htail hlast
  rw [htail, List.append_nil] at hrest
  refine ⟨gap, hgap, hrest, fun hnone => ?_, fun hnone => ?_⟩
  · rw [hnone, List.nil_append] at hrest
    exact eq_nil_of_trimmed htrimmed (by rw [← hrest]; exact hhead)
  · rw [hnone, List.append_nil] at hrest
    rw [hrest] at hlast
    exact eq_nil_of_getLast hgap hlast

theorem objectiveParts_split (text : List Char) :
    ObjectiveParts text (splitObjective text).1 (splitObjective text).2 := by
  have htrimmed := trimmed_trim text
  obtain ⟨before, after, hbefore, hafter, htext⟩ := exists_blanks_trim text
  obtain ⟨gap, hgap, hrest, hnone⟩ := exists_gap htrimmed
  have hparts : trim text =
      firstWord (trim text) ++ gap ++ trim (afterWord (trim text)) := by
    rw [List.append_assoc, ← hrest, firstWord_append_afterWord]
  refine ⟨noBlank_firstWord _, trimmed_trim _, ⟨before, gap, after, hbefore, hgap, hafter, ?_, ?_,
    hnone⟩, fun hname => ?_⟩
  · change text = before ++ (firstWord (trim text) ++ gap ++ trim (afterWord (trim text))) ++ after
    rw [← hparts]
    exact htext
  · change Trimmed (firstWord (trim text) ++ gap ++ trim (afterWord (trim text)))
    rw [← hparts]
    exact htrimmed
  · have hname : firstWord (trim text) = [] := hname
    have hafterWord : afterWord (trim text) = trim text := by
      conv_rhs => rw [← firstWord_append_afterWord (trim text), hname, List.nil_append]
    have hempty : trim text = [] :=
      eq_nil_of_trimmed htrimmed (by rw [← hafterWord]; exact head?_afterWord _)
    refine ⟨allBlank_of_trim hempty, ?_⟩
    change trim (afterWord (trim text)) = []
    rw [hempty]
    rfl

theorem splitObjective_of_parts {name config before gap after : List Char} (hname : NoBlank name)
    (hne : name ≠ []) (hconfig : Trimmed config) (hbefore : AllBlank before) (hgap : AllBlank gap)
    (hafter : AllBlank after) (hgapNe : gap ≠ []) :
    splitObjective (before ++ name ++ gap ++ config ++ after) = (name, config) := by
  have htrim : trim (before ++ name ++ gap ++ config ++ after) = trim (name ++ gap ++ config) := by
    rw [trim_append_blanks hafter, List.append_assoc, List.append_assoc, trim_blanks_append hbefore,
      List.append_assoc]
  rw [splitObjective, htrim]
  by_cases hempty : config = []
  · subst hempty
    have hend : ∀ c ∈ ([] : List Char).head?, isBlank c = true := nofun
    obtain ⟨hfirst, hrest⟩ := firstWord_append hname hend
    rw [List.append_nil] at hfirst hrest
    rw [List.append_nil, trim_append_blanks hgap, trim_of_noBlank hname, hfirst, hrest]
    rfl
  · have htrimmed : Trimmed (name ++ gap ++ config) := by
      refine ⟨?_, by rw [List.getLast?_append_of_ne_nil _ hempty]; exact hconfig.2⟩
      obtain ⟨d, name, rfl⟩ := List.exists_cons_of_ne_nil hne
      exact fun c hc => Option.mem_some_iff.mp hc ▸ hname d List.mem_cons_self
    have hstart : ∀ c ∈ (gap ++ config).head?, isBlank c = true := by
      obtain ⟨d, gap, rfl⟩ := List.exists_cons_of_ne_nil hgapNe
      exact fun c hc => Option.mem_some_iff.mp hc ▸ hgap d List.mem_cons_self
    obtain ⟨hfirst, hrest⟩ := firstWord_append hname hstart
    rw [trim_of_trimmed htrimmed, List.append_assoc, hfirst, hrest, trim_blanks_append hgap,
      trim_of_trimmed hconfig]

theorem splitObjective_normalForm :
    (∀ text, ObjectiveParts text (splitObjective text).1 (splitObjective text).2) ∧
      ∀ name config before gap after : List Char, NoBlank name → name ≠ [] → Trimmed config →
        AllBlank before → AllBlank gap → AllBlank after → gap ≠ [] →
          splitObjective (before ++ name ++ gap ++ config ++ after) = (name, config) :=
  ⟨objectiveParts_split, fun _ _ _ _ _ hname hne hconfig hbefore hgap hafter hgapNe =>
    splitObjective_of_parts hname hne hconfig hbefore hgap hafter hgapNe⟩

theorem spacedObjective_split :
    splitObjective ("\u00a0 ".toList ++ "binary".toList ++ " \t".toList ++ "sigmoid:1 x".toList ++
      "\u3000".toList) = ("binary".toList, "sigmoid:1 x".toList) :=
  splitObjective_normalForm.2 _ _ _ _ _ (by decide) (by decide) (by decide) (by decide) (by decide)
    (by decide) (by decide)

end BoostedTrees
