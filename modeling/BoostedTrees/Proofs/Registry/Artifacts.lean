import BoostedTrees.Proofs.Resource.Writing
import BoostedTrees.Registry.Build

namespace BoostedTrees

open FileTree (IsPlainName join place pathTo)

variable {directory name other : String} {current : Place}

theorem toList_artifactName :
    (artifactName name).toList = '_' :: (name.toList ++ ".rs".toList) := by
  simp [artifactName]

theorem isPlainName_artifactName (h : isModelName name = true) :
    IsPlainName (artifactName name) := by
  have hchars : ∀ c ∈ name.toList, isNameChar c = true := by
    simpa [isModelName, List.all_eq_true] using (Bool.and_eq_true_iff.mp h).2
  -- the underscore in front tells the name from those that stay or go up
  have hhead : ∀ {text : String}, text.toList.head? ≠ some '_' → artifactName name ≠ text := by
    rintro _ htext rfl
    simp [toList_artifactName] at htext
  refine ⟨hhead (by decide), hhead (by decide), hhead (by decide), fun hslash => ?_⟩
  rw [toList_artifactName, List.mem_cons, List.mem_append] at hslash
  rcases hslash with heq | hmem | hmem
  · exact absurd heq (by decide)
  · exact absurd (hchars '/' hmem) (by decide)
  · exact absurd hmem (by decide)

theorem isPlainName_library : IsPlainName "lgbm_infer" := by
  constructor <;> decide

theorem isPlainName_predictor : IsPlainName "predictor" := by
  constructor <;> decide

theorem place_artifactDirectory :
    place current (artifactDirectory directory) =
      place current directory ++ ["lgbm_infer", "predictor"] := by
  rw [artifactDirectory, FileTree.place_join_name isPlainName_predictor,
    FileTree.place_join_name isPlainName_library, List.append_assoc]
  rfl

theorem place_artifactPath (h : isModelName name = true) :
    place current (artifactPath directory name) =
      place current (artifactDirectory directory) ++ [artifactName name] :=
  FileTree.place_join_name (isPlainName_artifactName h)

theorem artifactPath_eq (h : isModelName name = true) : artifactPath directory name =
    join directory ("lgbm_infer/predictor/_" ++ name ++ ".rs") := by
  have hname := (isPlainName_artifactName h).isAbsolute
  have htext : "lgbm_infer/predictor/_" ++ name ++ ".rs" =
      "lgbm_infer" ++ "/" ++ ("predictor" ++ "/" ++ artifactName name) := by
    apply String.toList_injective
    simp [artifactName]
  have hrest : FileTree.isAbsolute ("predictor" ++ "/" ++ artifactName name) = false := by
    rw [String.append_assoc, FileTree.isAbsolute_append _ _ (by decide)]
    exact isPlainName_predictor.isAbsolute
  rw [artifactPath, artifactDirectory, FileTree.join_join isPlainName_predictor hname,
    FileTree.join_join isPlainName_library hrest, htext]

theorem artifactName_inj (h : artifactName name = artifactName other) : name = other :=
  (String.append_right_inj _).mp ((String.append_left_inj _).mp h)

theorem artifactPath_ne (h : isModelName name = true) (hother : isModelName other = true)
    (hne : name ≠ other) : artifactPath directory name ≠ artifactPath directory other ∧
      pathTo (place current (artifactPath directory name)) ≠
        pathTo (place current (artifactPath directory other)) := by
  constructor
  · intro heq
    exact hne (artifactName_inj (FileTree.join_inj (isPlainName_artifactName h).isAbsolute
      (isPlainName_artifactName hother).isAbsolute heq))
  · intro heq
    rw [place_artifactPath h, place_artifactPath hother] at heq
    exact hne (artifactName_inj
      (FileTree.pathTo_append_inj (List.cons_ne_nil _ _) (List.cons_ne_nil _ _) heq))

theorem not_isLongName_artifactDirectory
    (h : ∀ part ∈ FileTree.parts directory, FileTree.isLongName part = false) :
    ∀ part ∈ FileTree.parts (artifactDirectory directory), FileTree.isLongName part = false := by
  intro part hpart
  rcases FileTree.mem_parts_join isPlainName_predictor.isAbsolute hpart with hpart | hpart
  · rcases FileTree.mem_parts_join isPlainName_library.isAbsolute hpart with hpart | hpart
    · exact h part hpart
    · rw [isPlainName_library.parts] at hpart
      obtain rfl := List.mem_singleton.mp hpart
      decide
  · rw [isPlainName_predictor.parts] at hpart
    obtain rfl := List.mem_singleton.mp hpart
    decide

namespace Build

structure Writes (e : Ensemble) (name directory : String) (current : Place)
    (before after : FileTree) (event : Event) : Prop where
  reported : event = .artifactWritten name (artifactPath directory name) ∨
    event = .artifactFailed name (artifactPath directory name)
  written : event = .artifactWritten name (artifactPath directory name) → ∀ q,
    after.contents? q = if pathTo q = pathTo (place current (artifactPath directory name)) then
      some (Routine.text e name).toUTF8.toList else before.contents? q
  readBack : event = .artifactWritten name (artifactPath directory name) → before.IsRooted current →
    (∀ part ∈ FileTree.parts directory, FileTree.isLongName part = false) →
    after.read current (artifactPath directory name) = .ok (Routine.text e name).toUTF8.toList
  failed : event = .artifactFailed name (artifactPath directory name) → after.files = before.files

theorem writes_writeArtifact (h : isModelName name = true) (e : Ensemble) (before : FileTree) :
    Writes e name directory current before (writeArtifact before current directory name e).1
      (writeArtifact before current directory name e).2 := by
  have hname := isPlainName_artifactName h
  unfold writeArtifact
  dsimp only
  split
  · rename_i after hwrite
    refine ⟨.inl rfl, fun _ q => ?_, fun _ hcurrent hdirectory => ?_, nofun⟩
    · rw [FileTree.contents?_of_write hwrite, place_artifactPath h]
    · exact FileTree.read_of_write hwrite hname hcurrent
        (not_isLongName_artifactDirectory hdirectory)
  · rename_i after hwrite
    exact ⟨.inr rfl, nofun, nofun, fun _ => FileTree.write_false hwrite⟩

end Build

end BoostedTrees
