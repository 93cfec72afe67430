import BoostedTrees.Resource.FileTree
import Mathlib.Data.List.Basic

namespace BoostedTrees.FileTree

variable {t : FileTree} {p q current : Place} {names rest : List String}
  {directory path name : String}

def descend : Place → List String → Place
  | p, [] => p
  | p, part :: rest =>
      if part = "" || part = "." then descend p rest
      else if part = ".." then descend p.dropLast rest
      else descend (p ++ [part]) rest

def origin (current : Place) (path : String) : Place := if isAbsolute path then [] else current

def place (current : Place) (path : String) : Place := descend (origin current path) (parts path)

theorem descend_append : descend p (names ++ rest) = descend (descend p names) rest := by
  induction names generalizing p with
  | nil => rfl
  | cons part names ih =>
      rw [List.cons_append, descend, descend]
      split
      · exact ih
      · split
        · exact ih
        · exact ih

theorem walk_ok (h : t.walk p names = .ok q) : q = descend p names := by
  induction names generalizing p with
  | nil =>
      rw [walk] at h
      split at h
      · exact (Except.ok.inj h).symm
      · exact absurd h (by simp)
  | cons part rest ih =>
      rw [walk] at h
      rw [descend]
      split at h
      · split at h
        · rw [if_pos ‹_›]
          exact ih h
        · rw [if_neg ‹_›]
          split at h
          · rw [if_pos ‹_›]
            exact ih h
          · rw [if_neg ‹_›]
            split at h
            · exact absurd h (by simp)
            · exact ih h
      · split at h <;> exact absurd h (by simp)

theorem resolve_ok (h : t.resolve current path = .ok p) : p = place current path := by
  unfold resolve at h
  split at h
  · exact absurd h (by simp)
  · split at h
    · exact absurd h (by simp)
    · split at h
      · exact absurd h (by simp)
      · exact walk_ok h

structure IsPlainName (name : String) : Prop where
  nonempty : name ≠ ""
  notHere : name ≠ "."
  notUp : name ≠ ".."
  noSlash : '/' ∉ name.toList

namespace IsPlainName

theorem descend (h : IsPlainName name) : descend p [name] = p ++ [name] := by
  simp [FileTree.descend, h.nonempty, h.notHere, h.notUp]

theorem parts (h : IsPlainName name) : parts name = [name] := by
  rw [FileTree.parts, List.splitOn_eq_singleton h.noSlash, List.map_singleton, String.ofList_toList]

theorem isAbsolute (h : IsPlainName name) : isAbsolute name = false := by
  rw [FileTree.isAbsolute, beq_eq_false_iff_ne]
  intro hhead
  exact h.noSlash (List.mem_of_mem_head? hhead)

end IsPlainName

theorem pathTo_cons {part : String} (h : p ≠ []) :
    pathTo (part :: p) = part ++ "/" ++ pathTo p := by
  apply String.toList_injective
  have hmap : p.map String.toList ≠ [] := by simpa using h
  rw [pathTo, String.toList_intercalate, List.map_cons, List.intercalate_cons_of_ne_nil hmap]
  simp [pathTo, String.toList_intercalate]

theorem pathTo_append_inj {r r' : Place} (hr : r ≠ []) (hr' : r' ≠ [])
    (h : pathTo (p ++ r) = pathTo (p ++ r')) : pathTo r = pathTo r' := by
  induction p with
  | nil => exact h
  | cons part rest ih =>
      rw [List.cons_append, List.cons_append, pathTo_cons (by simp [hr]),
        pathTo_cons (by simp [hr']), String.append_right_inj] at h
      exact ih h

theorem parts_append_slash (a b : String) : parts (a ++ "/" ++ b) = parts a ++ parts b := by
  have hslash : (a ++ "/" ++ b).toList = a.toList ++ '/' :: b.toList := by simp
  rw [parts, hslash, List.splitOn, List.splitOnP_append_cons _ _ (by rfl), List.map_append]
  rfl

theorem isAbsolute_append (a b : String) (ha : a ≠ "") : isAbsolute (a ++ b) = isAbsolute a := by
  have hne : a.toList ≠ [] := by simpa using ha
  rw [isAbsolute, isAbsolute, String.toList_append, List.head?_append]
  cases hlist : a.toList with
  | nil => exact absurd hlist hne
  | cons c rest => rfl

theorem parts_join (directory : String) (hpath : isAbsolute path = false) :
    isAbsolute (join directory path) = isAbsolute directory ∧
      ∃ front, (parts directory = front ∨ parts directory = front ++ [""]) ∧
        parts (join directory path) = front ++ parts path := by
  have hempty : parts "" = [""] := rfl
  unfold join
  rw [if_neg (by simp [hpath])]
  split
  · rename_i hclosed
    cases hlist : directory.toList.getLast? with
    | none =>
        obtain rfl : directory = "" := by simpa using hlist
        rw [String.empty_append]
        exact ⟨hpath, [], .inr hempty, rfl⟩
    | some last =>
        obtain ⟨front, hfront⟩ := List.getLast?_eq_some_iff.mp hlist
        have hne : directory ≠ "" := by
          rintro rfl
          simp at hlist
        obtain rfl : last = '/' := by simpa [hne, hlist] using hclosed
        have hdirectory : directory = String.ofList front ++ "/" ++ "" := by
          apply String.toList_injective
          simp [hfront]
        -- a directory that ends with a slash has an empty last part, which leads nowhere
        refine ⟨isAbsolute_append _ _ hne, parts (String.ofList front), .inr ?_, ?_⟩
        · rw [hdirectory, parts_append_slash, hempty]
        · rw [hdirectory, String.append_empty, parts_append_slash]
  · rename_i hopen
    have hne : directory ≠ "" := by
      rintro rfl
      simp at hopen
    rw [String.append_assoc]
    refine ⟨isAbsolute_append _ _ hne, parts directory, .inl rfl, ?_⟩
    rw [← String.append_assoc, parts_append_slash]

theorem mem_parts_join {part : String} (hpath : isAbsolute path = false)
    (h : part ∈ parts (join directory path)) : part ∈ parts directory ∨ part ∈ parts path := by
  obtain ⟨-, front, hfront, hparts⟩ := parts_join directory hpath
  rw [hparts] at h
  rcases List.mem_append.mp h with hmem | hmem
  · rcases hfront with heq | heq
    · exact .inl (heq ▸ hmem)
    · exact .inl (heq ▸ List.mem_append_left _ hmem)
  · exact .inr hmem

theorem descend_closed {front : List String} (h : names = front ∨ names = front ++ [""]) :
    descend p names = descend p front := by
  rcases h with rfl | rfl
  · rfl
  · rw [descend_append]
    rfl

theorem place_join (hpath : isAbsolute path = false) :
    place current (join directory path) = descend (place current directory) (parts path) := by
  obtain ⟨habsolute, front, hfront, hparts⟩ := parts_join directory hpath
  rw [place, place, origin, origin, habsolute, hparts, descend_append, descend_closed hfront]

theorem place_join_name (hname : IsPlainName name) :
    place current (join directory name) = place current directory ++ [name] := by
  rw [place_join hname.isAbsolute, hname.parts, hname.descend]

theorem join_eq (directory : String) : ∃ slash, (slash = "" ∨ slash = "/") ∧
    ∀ path, isAbsolute path = false → join directory path = directory ++ slash ++ path := by
  cases hclosed : directory.isEmpty || directory.toList.getLast? == some '/' with
  | true =>
      refine ⟨"", .inl rfl, fun path hpath => ?_⟩
      rw [join, hpath, hclosed, String.append_empty]
      rfl
  | false =>
      refine ⟨"/", .inr rfl, fun path hpath => ?_⟩
      rw [join, hpath, hclosed]
      rfl

theorem hasNul_join (hpath : isAbsolute path = false) (hdirectory : hasNul directory = false)
    (hnul : hasNul path = false) : hasNul (join directory path) = false := by
  obtain ⟨slash, hslash, hjoin⟩ := join_eq directory
  rw [hjoin _ hpath]
  rcases hslash with rfl | rfl <;> simp_all [hasNul]

theorem join_join (hname : IsPlainName name) (hpath : isAbsolute path = false) :
    join (join directory name) path = join directory (name ++ "/" ++ path) := by
  obtain ⟨slash, -, hjoin⟩ := join_eq directory
  have hlong : isAbsolute (name ++ "/" ++ path) = false := by
    rw [String.append_assoc, isAbsolute_append _ _ hname.nonempty, hname.isAbsolute]
  have hopen : ((directory ++ slash ++ name).isEmpty ||
      (directory ++ slash ++ name).toList.getLast? == some '/') = false := by
    have hlast : (directory ++ slash ++ name).toList.getLast? = name.toList.getLast? := by
      rw [String.toList_append, List.getLast?_append_of_ne_nil]
      simpa using hname.nonempty
    rw [hlast, Bool.or_eq_false_iff, beq_eq_false_iff_ne]
    exact ⟨by simp [hname.nonempty], fun h => hname.noSlash (List.mem_of_getLast? h)⟩
  rw [hjoin _ hlong, hjoin _ hname.isAbsolute, join, hpath, hopen]
  simp [String.append_assoc]

theorem join_inj {other : String} (hpath : isAbsolute path = false)
    (hother : isAbsolute other = false)
    (h : join directory path = join directory other) : path = other := by
  obtain ⟨slash, -, hjoin⟩ := join_eq directory
  rw [hjoin _ hpath, hjoin _ hother] at h
  exact (String.append_right_inj _).mp h

end BoostedTrees.FileTree
