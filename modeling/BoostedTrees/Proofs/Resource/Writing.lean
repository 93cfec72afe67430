import BoostedTrees.Proofs.Outcome
import BoostedTrees.Proofs.Resource.Paths

namespace BoostedTrees.FileTree

variable {t t' : FileTree} {p q current : Place} {names rest : List String}
  {directory path name : String} {bytes : List UInt8}

def IsRooted (t : FileTree) (p : Place) : Prop := ∀ q, q <+: p → t.isDirectory q = true

def Passes (t : FileTree) : Place → List String → Prop
  | p, [] => t.isDirectory p = true
  | p, part :: rest => t.isDirectory p = true ∧ t.Passes (descend p [part]) rest

theorem IsRooted.origin (h : t.IsRooted current) (path : String) :
    t.IsRooted (origin current path) := by
  unfold FileTree.origin
  split
  · intro q hq
    obtain rfl := List.prefix_nil.mp hq
    rfl
  · exact h

namespace Passes

theorem isDirectory (h : t.Passes p names) : t.isDirectory (descend p names) = true := by
  induction names generalizing p with
  | nil => exact h
  | cons part rest ih =>
      have hrest := ih h.2
      rwa [← descend_append] at hrest

theorem of_append (h : t.Passes p (names ++ rest)) : t.Passes p names := by
  induction names generalizing p with
  | nil =>
      cases rest with
      | nil => exact h
      | cons part rest => exact h.1
  | cons part names ih => exact ⟨h.1, ih h.2⟩

theorem mono (h : t.Passes p names)
    (hkept : ∀ q, t.isDirectory q = true → t'.isDirectory q = true) : t'.Passes p names := by
  induction names generalizing p with
  | nil => exact hkept p h
  | cons part rest ih => exact ⟨hkept p h.1, ih h.2⟩

end Passes

theorem walk_cons {part : String} (hp : t.isDirectory p = true) (hpart : isLongName part = false) :
    t.walk p (part :: rest) = t.walk (descend p [part]) rest := by
  rw [walk, if_pos hp, descend]
  split
  · rfl
  · split
    · rfl
    · rw [hpart]
      rfl

theorem Passes.walk (h : t.Passes p names) (hnames : ∀ part ∈ names, isLongName part = false) :
    t.walk p (names ++ rest) = t.walk (descend p names) rest := by
  induction names generalizing p with
  | nil => rfl
  | cons part names ih =>
      obtain ⟨hpart, hnames⟩ := List.forall_mem_cons.mp hnames
      rw [List.cons_append, walk_cons h.1 hpart, ih h.2 hnames, ← descend_append]
      rfl

theorem Passes.walk_join (h : t.Passes (origin current directory) (parts directory))
    (hparts : ∀ part ∈ parts directory, isLongName part = false)
    (hpath : isAbsolute path = false) :
    t.walk (origin current (join directory path)) (parts (join directory path)) =
      t.walk (place current directory) (parts path) := by
  obtain ⟨habsolute, front, hfront, hjoined⟩ := parts_join directory hpath
  have hends : t.Passes (origin current directory) front ∧
      ∀ part ∈ front, part ∈ parts directory := by
    rcases hfront with rfl | hfront
    · exact ⟨h, fun _ hpart => hpart⟩
    · rw [hfront] at h ⊢
      exact ⟨h.of_append, fun _ => List.mem_append_left _⟩
  rw [hjoined, origin, habsolute, place, descend_closed hfront]
  exact hends.1.walk fun part hpart => hparts part (hends.2 part hpart)

theorem makeDirectories_cases (t : FileTree) (p : Place) (part : String) (rest : List String) :
    t.makeDirectories p (part :: rest) = (t, none) ∨
      ∃ t' : FileTree,
        t.makeDirectories p (part :: rest) = t'.makeDirectories (descend p [part]) rest ∧
        t'.files = t.files ∧ (∀ q, t.isDirectory q = true → t'.isDirectory q = true) ∧
        (t.IsRooted p → t'.IsRooted (descend p [part])) := by
  rw [makeDirectories, descend]
  split
  · exact .inr ⟨t, rfl, rfl, fun _ h => h, fun h => h⟩
  · split
    · exact .inr ⟨t, rfl, rfl, fun _ h => h,
        fun h q hq => h q (hq.trans (List.dropLast_prefix p))⟩
    · have hrooted : ∀ t' : FileTree, t'.isDirectory (p ++ [part]) = true →
          (∀ q, t.isDirectory q = true → t'.isDirectory q = true) → t.IsRooted p →
            t'.IsRooted (p ++ [part]) := by
        intro t' hmade hkept h q hq
        rcases List.prefix_concat_iff.mp hq with rfl | hq
        · exact hmade
        · exact hkept q (h q hq)
      dsimp only
      split
      · rename_i hthere
        exact .inr ⟨t, rfl, rfl, fun _ h => h, hrooted t hthere fun _ h => h⟩
      · split
        · exact .inl rfl
        · have hkept : ∀ q, t.isDirectory q = true →
              isDirectory { t with directories := pathTo (p ++ [part]) :: t.directories } q =
                true := by
            intro q hq
            rcases Bool.or_eq_true_iff.mp hq with hroot | hlisted
            · simp [isDirectory, hroot]
            · simp [isDirectory, List.contains_iff_mem.mp hlisted]
          refine .inr ⟨_, rfl, rfl, hkept, hrooted _ ?_ hkept⟩
          simp [isDirectory]

theorem files_makeDirectories : (t.makeDirectories p names).1.files = t.files := by
  induction names generalizing t p with
  | nil => rfl
  | cons part rest ih =>
      rcases makeDirectories_cases t p part rest with hblocked | ⟨t', hmake, hfiles, -, -⟩
      · rw [hblocked]
      · rw [hmake, ih, hfiles]

theorem isDirectory_makeDirectories {reached : Option Place}
    (h : t.makeDirectories p names = (t', reached)) (hq : t.isDirectory q = true) :
    t'.isDirectory q = true := by
  induction names generalizing t p with
  | nil =>
      obtain rfl := (Prod.mk.inj h).1
      exact hq
  | cons part rest ih =>
      rcases makeDirectories_cases t p part rest with hblocked | ⟨made, hmake, -, hkept, -⟩
      · obtain rfl := (Prod.mk.inj (hblocked.symm.trans h)).1
        exact hq
      · exact ih (hmake.symm.trans h) (hkept q hq)

theorem makeDirectories_ok (h : t.makeDirectories p names = (t', some q)) :
    q = descend p names := by
  induction names generalizing t p with
  | nil => exact (Option.some.inj (Prod.mk.inj h).2).symm
  | cons part rest ih =>
      rcases makeDirectories_cases t p part rest with hblocked | ⟨made, hmake, -⟩
      · exact absurd (Prod.mk.inj (hblocked.symm.trans h)).2 (by simp)
      · rw [ih (hmake.symm.trans h), ← descend_append]
        rfl

theorem passes_of_makeDirectories (h : t.makeDirectories p names = (t', some q))
    (hp : t.IsRooted p) : t'.Passes p names := by
  induction names generalizing t p with
  | nil => exact isDirectory_makeDirectories h (hp p (List.prefix_refl p))
  | cons part rest ih =>
      refine ⟨isDirectory_makeDirectories h (hp p (List.prefix_refl p)), ?_⟩
      rcases makeDirectories_cases t p part rest with hblocked | ⟨made, hmake, -, -, hrooted⟩
      · exact absurd (Prod.mk.inj (hblocked.symm.trans h)).2 (by simp)
      · exact ih (hmake.symm.trans h) (hrooted hp)

theorem put?_some (h : t.put? p name bytes = some t') :
    t'.directories = t.directories ∧ isLongName name = false ∧
      ∀ q, t'.contents? q =
        if pathTo q = pathTo (p ++ [name]) then some bytes else t.contents? q := by
  unfold put? at h
  dsimp only at h
  split at h
  · exact absurd h (by simp)
  · rename_i hfree
    obtain rfl := Option.some.inj h
    refine ⟨rfl, by simpa using (not_or.mp (mt Bool.or_eq_true_iff.mpr hfree)).2, fun q => ?_⟩
    rw [contents?, List.lookup_cons]
    by_cases hq : pathTo q = pathTo (p ++ [name])
    · rw [if_pos hq, beq_iff_eq.mpr hq]
    · rw [if_neg hq, beq_eq_false_iff_ne.mpr hq, Outcome.lookup_removed, if_neg hq]
      rfl

theorem files_addDirectory : (t.addDirectory current path).1.files = t.files := by
  unfold addDirectory
  split
  · rfl
  · exact files_makeDirectories

theorem addDirectory_ok (h : t.addDirectory current path = (t', some p)) :
    hasNul path = false ∧
      t.makeDirectories (origin current path) (parts path) = (t', some p) := by
  unfold addDirectory at h
  split at h
  · exact absurd (Prod.mk.inj h).2 (by simp)
  · rename_i hpath
    exact ⟨(Bool.or_eq_false_iff.mp (Bool.eq_false_iff.mpr hpath)).1, h⟩

theorem write_true (h : t.write current directory name bytes = (t', true)) :
    ∃ made p, t.addDirectory current directory = (made, some p) ∧ hasNul name = false ∧
      isLongPath (join directory name) = false ∧ made.put? p name bytes = some t' := by
  unfold write at h
  split at h
  · exact absurd (Prod.mk.inj h).2 (by simp)
  · rename_i made p hmade
    split at h
    · exact absurd (Prod.mk.inj h).2 (by simp)
    · rename_i hname
      obtain ⟨hnul, hlong⟩ := Bool.or_eq_false_iff.mp (Bool.eq_false_iff.mpr hname)
      refine ⟨made, p, hmade, hnul, hlong, ?_⟩
      split at h
      · rename_i hput
        obtain rfl := (Prod.mk.inj h).1
        exact hput
      · exact absurd (Prod.mk.inj h).2 (by simp)

theorem write_false (h : t.write current directory name bytes = (t', false)) :
    t'.files = t.files := by
  have hfiles : (t.addDirectory current directory).1.files = t.files := files_addDirectory
  unfold write at h
  split at h
  all_goals
    rename_i hmade
    rw [hmade] at hfiles
  · obtain rfl := (Prod.mk.inj h).1
    exact hfiles
  · split at h
    · obtain rfl := (Prod.mk.inj h).1
      exact hfiles
    · split at h
      · exact absurd (Prod.mk.inj h).2 (by simp)
      · obtain rfl := (Prod.mk.inj h).1
        exact hfiles

theorem contents?_of_write (h : t.write current directory name bytes = (t', true)) (q : Place) :
    t'.contents? q =
      if pathTo q = pathTo (place current directory ++ [name]) then some bytes
      else t.contents? q := by
  obtain ⟨made, p, hmade, -, -, hput⟩ := write_true h
  have hfiles : (t.addDirectory current directory).1.files = t.files := files_addDirectory
  rw [hmade] at hfiles
  obtain rfl : p = place current directory := makeDirectories_ok (addDirectory_ok hmade).2
  rw [(put?_some hput).2.2 q, contents?, contents?, hfiles]

theorem read_of_write (h : t.write current directory name bytes = (t', true))
    (hname : IsPlainName name) (hcurrent : t.IsRooted current)
    (hparts : ∀ part ∈ parts directory, isLongName part = false) :
    t'.read current (join directory name) = .ok bytes := by
  obtain ⟨made, p, hmade, hnul, hlong, hput⟩ := write_true h
  obtain ⟨hdirectoryNul, hmade⟩ := addDirectory_ok hmade
  obtain ⟨hdirectories, hshort, hcontents⟩ := put?_some hput
  obtain rfl : p = place current directory := makeDirectories_ok hmade
  -- the walk that reads the file goes through the directories that were made for it
  have hpasses : t'.Passes (origin current directory) (parts directory) := by
    refine (passes_of_makeDirectories hmade (hcurrent.origin directory)).mono fun q hq => ?_
    rwa [FileTree.isDirectory, hdirectories]
  have hfound : t'.contents? (place current directory ++ [name]) = some bytes := by
    rw [hcontents, if_pos rfl]
  have hwalk : t'.walk (place current directory) (parts name) =
      .ok (place current directory ++ [name]) := by
    have hdirectory : t'.isDirectory (place current directory) = true := hpasses.isDirectory
    rw [hname.parts, walk_cons hdirectory hshort, hname.descend, walk, hfound, if_pos (by simp)]
  have hnul := hasNul_join hname.isAbsolute hdirectoryNul hnul
  have hempty : (join directory name).isEmpty = false := by
    obtain ⟨slash, -, hjoin⟩ := join_eq directory
    rw [hjoin _ hname.isAbsolute]
    simp [hname.nonempty]
  have hresolve : t'.resolve current (join directory name) =
      .ok (place current directory ++ [name]) := by
    rw [← hwalk, ← hpasses.walk_join hparts hname.isAbsolute, resolve, hnul, hempty, hlong]
    rfl
  rw [read, hresolve]
  refine Outcome.bind_ok.mpr ⟨_, rfl, ?_⟩
  rw [hfound]
  rfl

end BoostedTrees.FileTree
