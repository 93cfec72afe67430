import BoostedTrees.Text.Line

namespace BoostedTrees.Text

theorem foldl_step_of_not_mem {s : List Char} (h : '\n' ∉ s) (scan : LineScan) :
    s.foldl LineScan.step scan = { scan with pending := s.reverse ++ scan.pending } := by
  induction s generalizing scan with
  | nil => rfl
  | cons c s ih =>
      have hc : c ≠ '\n' := fun e => h (e ▸ List.mem_cons_self)
      rw [List.foldl_cons, LineScan.step, if_neg hc, ih fun hs => h (List.mem_cons_of_mem c hs)]
      simp

theorem foldl_step_lines {ls : List (List Char)} (h : ∀ l ∈ ls, '\n' ∉ l)
    (done : List (List Char)) :
    (ls.flatMap (· ++ ['\n'])).foldl LineScan.step ⟨done, []⟩ =
      ⟨(ls.map fun l => endedLine l.reverse).reverse ++ done, []⟩ := by
  induction ls generalizing done with
  | nil => rfl
  | cons l ls ih =>
      rw [List.flatMap_cons, List.foldl_append, List.foldl_append,
        foldl_step_of_not_mem (h l List.mem_cons_self)]
      change (ls.flatMap (· ++ ['\n'])).foldl LineScan.step
        ⟨endedLine (l.reverse ++ []) :: done, []⟩ = _
      rw [ih fun l hl => h l (List.mem_cons_of_mem _ hl)]
      simp

theorem splitLines_flatMap {ls : List (List Char)} (h : ∀ l ∈ ls, '\n' ∉ l) :
    splitLines (ls.flatMap (· ++ ['\n'])) = ls.map fun l => endedLine l.reverse := by
  rw [splitLines, foldl_step_lines h]
  simp [LineScan.finish]

theorem toList_unlines (ls : List String) :
    (unlines ls).toList = (ls.map String.toList).flatMap (· ++ ['\n']) := by
  simp [unlines, String.toList_join, List.flatMap_map]

theorem endedLine_of_ne {c : Char} (h : c ≠ '\r') (s : List Char) :
    endedLine (c :: s) = (c :: s).reverse := by
  unfold endedLine
  split
  · next heq => exact absurd (List.cons.inj heq).1 h
  · rfl

theorem endedLine_of_notMem {s : List Char} (h : '\r' ∉ s) : endedLine s.reverse = s := by
  cases hs : s.reverse with
  | nil => exact (List.reverse_eq_nil_iff.mp hs).symm
  | cons c rest =>
      rw [endedLine_of_ne, ← hs, List.reverse_reverse]
      rintro rfl
      exact h (List.mem_reverse.mp (hs ▸ List.mem_cons_self))

theorem endedLine_append {s : List Char} (h : s ≠ []) (t : List Char) :
    endedLine (s ++ t) = t.reverse ++ endedLine s := by
  obtain ⟨c, s, rfl⟩ := List.exists_cons_of_ne_nil h
  by_cases hc : c = '\r'
  · subst hc
    exact List.reverse_append
  · rw [List.cons_append, endedLine_of_ne hc, endedLine_of_ne hc, ← List.cons_append,
      List.reverse_append]

theorem exists_endedLine (s : List Char) :
    s = endedLine s.reverse ∨ s = endedLine s.reverse ++ ['\r'] := by
  unfold endedLine
  split
  · next rest heq =>
      right
      rw [← List.reverse_reverse s, heq, List.reverse_cons]
  · exact .inl (List.reverse_reverse s).symm

end BoostedTrees.Text
