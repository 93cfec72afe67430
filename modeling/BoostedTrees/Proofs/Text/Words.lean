import BoostedTrees.Text.Blank
import Mathlib.Data.List.DropRight
import Mathlib.Data.List.TakeWhile

namespace BoostedTrees.Text

def IsWord (s : List Char) : Prop := s ≠ [] ∧ NoBlank s

theorem trimStart_of_head {c : Char} (h : isBlank c = false) (s : List Char) :
    trimStart (c :: s) = c :: s :=
  List.dropWhile_cons_of_neg (by simp [h])

theorem trimEnd_append {s t : List Char} (h : trimEnd t ≠ []) :
    trimEnd (s ++ t) = s ++ trimEnd t := by
  rw [trimEnd, List.reverse_append, List.dropWhile_append, if_neg, List.reverse_append,
    List.reverse_reverse, trimEnd]
  intro hnil
  exact h (by rw [trimEnd, List.isEmpty_iff.mp hnil, List.reverse_nil])

theorem trimEnd_cons {c : Char} (h : isBlank c = false) (s : List Char) :
    trimEnd (c :: s) = c :: trimEnd s := by
  rw [trimEnd, List.reverse_cons, List.dropWhile_append]
  by_cases hs : (s.reverse.dropWhile isBlank).isEmpty = true
  · rw [if_pos hs, trimEnd, List.isEmpty_iff.mp hs, List.dropWhile_cons_of_neg (by simp [h])]
    rfl
  · rw [if_neg hs, List.reverse_append, List.reverse_singleton, List.singleton_append, trimEnd]

theorem trim_of_head {c : Char} (h : isBlank c = false) (s : List Char) :
    trim (c :: s) = c :: trimEnd s := by
  rw [trim, trimStart_of_head h, trimEnd_cons h]

theorem trimEnd_append_blank {c : Char} (h : isBlank c = true) (s : List Char) :
    trimEnd (s ++ [c]) = trimEnd s := by
  rw [trimEnd, List.reverse_append, List.reverse_singleton, List.singleton_append,
    List.dropWhile_cons_of_pos h, trimEnd]

theorem trim_append_blank {c : Char} (h : isBlank c = true) (s : List Char) :
    trim (s ++ [c]) = trim s := by
  rw [trim, trimStart, List.dropWhile_append]
  split
  · next hs =>
      rw [List.isEmpty_iff] at hs
      rw [List.dropWhile_cons_of_pos h, List.dropWhile_nil, trim, trimStart, hs]
  · exact trimEnd_append_blank h _

theorem trimEnd_append_blanks {blanks : List Char} (h : AllBlank blanks) (s : List Char) :
    trimEnd (s ++ blanks) = trimEnd s := by
  have hrev : ∀ c ∈ blanks.reverse, isBlank c = true := fun c hc => h c (List.mem_reverse.mp hc)
  rw [trimEnd, List.reverse_append, List.dropWhile_append_of_pos hrev, trimEnd]

theorem trim_append_blanks {blanks : List Char} (h : AllBlank blanks) (s : List Char) :
    trim (s ++ blanks) = trim s := by
  induction blanks generalizing s with
  | nil => rw [List.append_nil]
  | cons c blanks ih =>
      obtain ⟨hc, hrest⟩ := List.forall_mem_cons.mp h
      rw [List.append_cons, ih hrest, trim_append_blank hc]

theorem trim_blanks_append {blanks : List Char} (h : AllBlank blanks) (s : List Char) :
    trim (blanks ++ s) = trim s := by
  rw [trim, trimStart, List.dropWhile_append_of_pos h, trim, trimStart]

theorem trimEnd_trimEnd (s : List Char) : trimEnd (trimEnd s) = trimEnd s := by
  rw [trimEnd, trimEnd, List.reverse_reverse, List.dropWhile_idempotent isBlank]

theorem trimStart_head {s : List Char} {c : Char} {rest : List Char} (h : trimStart s = c :: rest) :
    isBlank c = false := by
  have hne : s.dropWhile isBlank ≠ [] := by rw [← trimStart, h]; simp
  have hhead := List.head_dropWhile_not isBlank hne
  simp only [trimStart] at h
  simpa only [h, List.head_cons] using hhead

theorem trim_trim (s : List Char) : trim (trim s) = trim s := by
  cases hs : trimStart s with
  | nil =>
      have : trim s = [] := by rw [trim, hs]; rfl
      rw [this]
      rfl
  | cons c rest =>
      have hc := trimStart_head hs
      have : trim s = c :: trimEnd rest := by rw [trim, hs, trimEnd_cons hc]
      rw [this, trim_of_head hc, trimEnd_trimEnd]

theorem allBlank_of_trim {s : List Char} (h : trim s = []) : AllBlank s := by
  have hstart : trimStart s = [] := by
    cases hs : trimStart s with
    | nil => rfl
    | cons c rest =>
        have hc := trimStart_head hs
        rw [trim, hs, trimEnd_cons hc] at h
        exact absurd h (List.cons_ne_nil _ _)
  exact List.dropWhile_eq_nil_iff.mp hstart

theorem dropWhile_of_noBlank {s : List Char} (h : NoBlank s) : s.dropWhile isBlank = s := by
  cases s with
  | nil => rfl
  | cons c s => exact trimStart_of_head (h c List.mem_cons_self) s

theorem trimEnd_of_noBlank {s : List Char} (h : NoBlank s) : trimEnd s = s := by
  have hrev : NoBlank s.reverse := fun c hc => h c (List.mem_reverse.mp hc)
  rw [trimEnd, dropWhile_of_noBlank hrev, List.reverse_reverse]

theorem trim_of_noBlank {s : List Char} (h : NoBlank s) : trim s = s := by
  rw [trim, trimStart, dropWhile_of_noBlank h, trimEnd_of_noBlank h]

theorem firstWord_append {w : List Char} (hw : NoBlank w) {rest : List Char}
    (hrest : ∀ c ∈ rest.head?, isBlank c = true) :
    firstWord (w ++ rest) = w ∧ afterWord (w ++ rest) = rest := by
  have hw : ∀ d ∈ w, (!isBlank d) = true := by
    intro d hd
    rw [hw d hd]
    rfl
  have hstop : rest.takeWhile (fun d => !isBlank d) = [] ∧
      rest.dropWhile (fun d => !isBlank d) = rest := by
    cases rest with
    | nil => exact ⟨rfl, rfl⟩
    | cons d rest =>
        have hd : ¬(!isBlank d) = true := by simp [hrest d rfl]
        exact ⟨List.takeWhile_cons_of_neg hd, List.dropWhile_cons_of_neg hd⟩
  rw [firstWord, afterWord, List.takeWhile_append_of_pos hw, List.dropWhile_append_of_pos hw,
    hstop.1, hstop.2, List.append_nil]
  exact ⟨rfl, rfl⟩

theorem words_append {w : List Char} (hw : IsWord w) {rest : List Char}
    (hrest : ∀ c ∈ rest.head?, isBlank c = true) : words (w ++ rest) = w :: words rest := by
  obtain ⟨hne, hblank⟩ := hw
  obtain ⟨c, w, rfl⟩ := List.exists_cons_of_ne_nil hne
  obtain ⟨hc, hblank⟩ := List.forall_mem_cons.mp hblank
  obtain ⟨hfirst, hafter⟩ := firstWord_append hblank hrest
  rw [List.cons_append, words_of_cons (trimStart_of_head hc _), hfirst, hafter]

theorem words_space (s : List Char) : words (' ' :: s) = words s := by
  have h : trimStart (' ' :: s) = trimStart s := List.dropWhile_cons_of_pos (by decide)
  cases hs : trimStart s with
  | nil => rw [words_of_nil hs, words_of_nil (h.trans hs)]
  | cons c rest => rw [words_of_cons hs, words_of_cons (h.trans hs)]

theorem mem_intercalate {c : Char} {ws : List (List Char)} (h : c ∈ [' '].intercalate ws) :
    c = ' ' ∨ ∃ w ∈ ws, c ∈ w := by
  induction ws with
  | nil => exact absurd h List.not_mem_nil
  | cons w ws ih =>
      cases ws with
      | nil => exact .inr ⟨w, List.mem_cons_self, by simpa using h⟩
      | cons v ws =>
          rw [List.intercalate_cons_cons, List.append_assoc, List.mem_append, List.mem_append,
            List.mem_singleton] at h
          rcases h with hw | rfl | hrest
          · exact .inr ⟨w, List.mem_cons_self, hw⟩
          · exact .inl rfl
          · exact (ih hrest).imp_right fun ⟨u, hu, hc⟩ => ⟨u, List.mem_cons_of_mem w hu, hc⟩

theorem words_intercalate {ws : List (List Char)} (h : ∀ w ∈ ws, IsWord w) :
    words ([' '].intercalate ws) = ws := by
  induction ws with
  | nil => exact words_of_nil rfl
  | cons w ws ih =>
      have hw := h w List.mem_cons_self
      have ih := ih fun v hv => h v (List.mem_cons_of_mem w hv)
      cases ws with
      | nil =>
          have hend : words [] = [] := words_of_nil rfl
          rw [List.intercalate_singleton]
          conv_lhs => rw [← List.append_nil w, words_append hw (by simp), hend]
      | cons v ws =>
          rw [List.intercalate_cons_cons, List.append_assoc, words_append hw (by simp; decide),
            List.singleton_append, words_space, ih]

theorem trimEnd_intercalate {ws : List (List Char)} (h : ∀ w ∈ ws, IsWord w) :
    trimEnd ([' '].intercalate ws) = [' '].intercalate ws := by
  induction ws with
  | nil => rfl
  | cons w ws ih =>
      have ih := ih fun v hv => h v (List.mem_cons_of_mem w hv)
      cases ws with
      | nil =>
          rw [List.intercalate_singleton]
          exact trimEnd_of_noBlank (h w List.mem_cons_self).2
      | cons v ws =>
          have hne : [' '].intercalate (v :: ws) ≠ [] := by
            have := (h v (by simp)).1
            cases ws <;> simp [this]
          rw [List.intercalate_cons_cons, trimEnd_append (ih.symm ▸ hne), ih]

theorem trim_intercalate {ws : List (List Char)} (h : ∀ w ∈ ws, IsWord w) :
    trim ([' '].intercalate ws) = [' '].intercalate ws := by
  have hstart : trimStart ([' '].intercalate ws) = [' '].intercalate ws := by
    cases ws with
    | nil => rfl
    | cons w ws =>
        obtain ⟨hne, hblank⟩ := h w List.mem_cons_self
        obtain ⟨c, w, rfl⟩ := List.exists_cons_of_ne_nil hne
        have hc := hblank c List.mem_cons_self
        cases ws with
        | nil => exact trimStart_of_head hc _
        | cons v ws => exact trimStart_of_head hc _
  rw [trim, hstart, trimEnd_intercalate h]

section Trimmed

def Trimmed (s : List Char) : Prop :=
  (∀ c ∈ s.head?, isBlank c = false) ∧ ∀ c ∈ s.getLast?, isBlank c = false

-- the first and the last character are looked at, not every character there is
instance (s : List Char) : Decidable (Trimmed s) :=
  @instDecidableAnd _ _ (Option.decidableForallMem s.head?) (Option.decidableForallMem s.getLast?)

theorem trimEnd_of_getLast {s : List Char} (h : ∀ c ∈ s.getLast?, isBlank c = false) :
    trimEnd s = s := by
  cases s using List.reverseRecOn with
  | nil => rfl
  | append_singleton s c =>
      have hc : ¬isBlank c = true := by simp [h c (by simp)]
      rw [trimEnd, List.reverse_append, List.reverse_singleton, List.singleton_append,
        List.dropWhile_cons_of_neg hc, List.reverse_cons, List.reverse_reverse]

theorem trim_of_trimmed {s : List Char} (h : Trimmed s) : trim s = s := by
  have hstart : trimStart s = s := by
    cases s with
    | nil => rfl
    | cons c s => exact trimStart_of_head (h.1 c rfl) s
  rw [trim, hstart, trimEnd_of_getLast h.2]

theorem exists_blanks_trim (s : List Char) :
    ∃ before after, AllBlank before ∧ AllBlank after ∧ s = before ++ trim s ++ after := by
  refine ⟨s.takeWhile isBlank, ((trimStart s).reverse.takeWhile isBlank).reverse,
    fun c hc => List.mem_takeWhile_imp hc,
    fun c hc => List.mem_takeWhile_imp (List.mem_reverse.mp hc), ?_⟩
  have hend : trim s ++ ((trimStart s).reverse.takeWhile isBlank).reverse = trimStart s := by
    rw [trim, trimEnd, ← List.reverse_append, List.takeWhile_append_dropWhile,
      List.reverse_reverse]
  rw [List.append_assoc, hend, trimStart, List.takeWhile_append_dropWhile]

theorem head?_trimStart (s : List Char) : ∀ c ∈ (trimStart s).head?, isBlank c = false := by
  intro c hc
  have hhead := List.head?_dropWhile_not isBlank s
  rw [trimStart, Option.mem_def] at hc
  rwa [hc] at hhead

theorem trimmed_trim (s : List Char) : Trimmed (trim s) := by
  constructor
  · have hhead := head?_trimStart s
    rw [trim]
    cases hs : trimStart s with
    | nil => exact nofun
    | cons d rest =>
        rw [trimEnd_cons (trimStart_head hs)]
        rwa [hs] at hhead
  · rw [trim, trimEnd, List.getLast?_reverse]
    exact head?_trimStart (trimStart s).reverse

end Trimmed

end BoostedTrees.Text
