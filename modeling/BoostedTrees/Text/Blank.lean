namespace BoostedTrees.Text

-- the characters with the white-space property of Unicode, of which ASCII has only some
def isBlank (c : Char) : Bool :=
  let n := c.toNat
  (9 ≤ n && n ≤ 13) || n == 0x20 || n == 0x85 || n == 0xA0 || n == 0x1680 ||
    (0x2000 ≤ n && n ≤ 0x200A) || n == 0x2028 || n == 0x2029 || n == 0x202F ||
    n == 0x205F || n == 0x3000

def AllBlank (s : List Char) : Prop := ∀ c ∈ s, isBlank c = true

instance (s : List Char) : Decidable (AllBlank s) :=
  List.decidableBAll (fun c => isBlank c = true) s

def NoBlank (s : List Char) : Prop := ∀ c ∈ s, isBlank c = false

instance (s : List Char) : Decidable (NoBlank s) :=
  List.decidableBAll (fun c => isBlank c = false) s

def trimStart (s : List Char) : List Char := s.dropWhile isBlank

def trimEnd (s : List Char) : List Char := (s.reverse.dropWhile isBlank).reverse

def trim (s : List Char) : List Char := trimEnd (trimStart s)

def firstWord (s : List Char) : List Char := s.takeWhile fun c => !isBlank c

def afterWord (s : List Char) : List Char := s.dropWhile fun c => !isBlank c

theorem firstWord_append_afterWord (s : List Char) : firstWord s ++ afterWord s = s :=
  List.takeWhile_append_dropWhile

theorem length_dropWhile_le (p : Char → Bool) (s : List Char) :
    (s.dropWhile p).length ≤ s.length :=
  (List.dropWhile_sublist p).length_le

theorem length_afterWord_lt {s : List Char} {c : Char} {rest : List Char}
    (h : trimStart s = c :: rest) : (afterWord rest).length < s.length := by
  have h1 : (afterWord rest).length ≤ rest.length := length_dropWhile_le _ _
  have h2 : (trimStart s).length ≤ s.length := length_dropWhile_le _ _
  rw [h] at h2
  simp only [List.length_cons] at h2
  omega

def collectWords (found : List (List Char)) (s : List Char) : List (List Char) :=
  match _h : trimStart s with
  | [] => found.reverse
  | c :: rest => collectWords ((c :: firstWord rest) :: found) (afterWord rest)
termination_by s.length
decreasing_by exact length_afterWord_lt _h

def words (s : List Char) : List (List Char) := collectWords [] s

theorem collectWords_of_nil {found : List (List Char)} {s : List Char} (h : trimStart s = []) :
    collectWords found s = found.reverse := by
  rw [collectWords.eq_def]
  split <;> simp_all

theorem collectWords_of_cons {found : List (List Char)} {s : List Char} {c : Char}
    {rest : List Char} (h : trimStart s = c :: rest) :
    collectWords found s = collectWords ((c :: firstWord rest) :: found) (afterWord rest) := by
  rw [collectWords.eq_def]
  split
  · simp_all
  · next h' => rw [h] at h'; cases h'; rfl

theorem collectWords_eq (found : List (List Char)) (s : List Char) :
    collectWords found s = found.reverse ++ words s := by
  unfold words
  induction hn : s.length using Nat.strongRecOn generalizing found s with
  | _ n ih =>
      cases h : trimStart s with
      | nil => simp [collectWords_of_nil h]
      | cons c rest =>
          have hlt := length_afterWord_lt h
          rw [collectWords_of_cons h, collectWords_of_cons h, ih _ (hn ▸ hlt) _ _ rfl,
            ih _ (hn ▸ hlt) [c :: firstWord rest] _ rfl]
          simp

theorem words_of_nil {s : List Char} (h : trimStart s = []) : words s = [] :=
  collectWords_of_nil h

theorem words_of_cons {s : List Char} {c : Char} {rest : List Char} (h : trimStart s = c :: rest) :
    words s = (c :: firstWord rest) :: words (afterWord rest) := by
  rw [words, collectWords_of_cons h, collectWords_eq]
  rfl

end BoostedTrees.Text
