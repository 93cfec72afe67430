import BoostedTrees.Dump.Blocks
import BoostedTrees.Proofs.Binary64.Numerals
import BoostedTrees.Proofs.Dump.Lines
import BoostedTrees.Proofs.Outcome
import BoostedTrees.Proofs.Text.Lines
import Mathlib.Data.List.Nodup

namespace BoostedTrees

namespace Fields

def IsKey (key : String) : Prop :=
  Text.NoBlank key.toList ∧ '=' ∉ key.toList ∧ key.toList.head?.any (· != 'T') = true

instance (key : String) : Decidable (IsKey key) :=
  inferInstanceAs (Decidable (Text.NoBlank key.toList ∧ _ ∧ _))

theorem IsKey.exists_cons {key : String} (h : IsKey key) :
    ∃ c rest, key.toList = c :: rest ∧ Text.isBlank c = false ∧ c ≠ 'T' := by
  obtain ⟨hblank, -, hfirst⟩ := h
  cases hkey : key.toList with
  | nil =>
      rw [hkey] at hfirst
      exact absurd hfirst (by simp)
  | cons c rest =>
      rw [hkey] at hfirst
      exact ⟨c, rest, rfl, hblank c (hkey ▸ List.mem_cons_self), by simpa using hfirst⟩

def line (field : String × List Char) : List Char := field.1.toList ++ '=' :: field.2

structure Writable (field : String × List Char) : Prop where
  key : IsKey field.1
  noEquals : '=' ∉ field.2
  noLineFeed : '\n' ∉ field.2

def trimmed (field : String × List Char) : String × List Char := (field.1, Text.trim field.2)

variable {field : String × List Char}

theorem Writable.ofLine?_line (h : Writable field) :
    ofLine? (line field) = some (trimmed field) := by
  obtain ⟨hblank, hequals, -⟩ := h.key
  rw [line, ofLine?_equation hequals, if_neg h.noEquals, Text.trim_of_noBlank hblank,
    String.ofList_toList]
  rfl

theorem Writable.blockLine_line (h : Writable field) : BlockLine.ofLine? (line field) = none := by
  obtain ⟨c, rest, hkey, -, hc⟩ := h.key.exists_cons
  rw [line, BlockLine.ofLine?_equation h.key.2.1, if_neg]
  rw [hkey, BlockLine.treeKey]
  exact fun heq => hc (List.cons.inj heq).1

theorem Writable.endsBlock_line (h : Writable field) :
    LineBlock.endsBlock (line field) = false := by
  obtain ⟨c, rest, hkey, hblank, -⟩ := h.key.exists_cons
  rw [LineBlock.endsBlock, h.blockLine_line, line, hkey, List.cons_append,
    Text.trim_of_head hblank]
  rfl

def ended (field : String × List Char) : String × List Char :=
  (field.1, Text.endedLine field.2.reverse)

theorem endedLine_line (field : String × List Char) :
    Text.endedLine (line field).reverse = line (ended field) := by
  have hline : (line field).reverse = field.2.reverse ++ ('=' :: field.1.toList.reverse) := by
    simp [line]
  rw [hline, ended]
  by_cases hv : field.2 = []
  · rw [hv, List.reverse_nil, List.nil_append, Text.endedLine_of_ne (by decide)]
    simp [line, Text.endedLine]
  · rw [Text.endedLine_append (by simpa using hv)]
    simp [line]

theorem trimmed_ended (field : String × List Char) : trimmed (ended field) = trimmed field := by
  have htrim : Text.trim (Text.endedLine field.2.reverse) = Text.trim field.2 := by
    rcases Text.exists_endedLine field.2 with h | h
    · rw [← h]
    · conv_rhs => rw [h, Text.trim_append_blank (by decide)]
  rw [trimmed, ended, htrim, trimmed]

theorem Writable.ended (h : Writable field) : Writable (Fields.ended field) := by
  have hsub : ∀ c ∈ Text.endedLine field.2.reverse, c ∈ field.2 := by
    intro c hc
    rcases Text.exists_endedLine field.2 with heq | heq <;> rw [heq] <;> simp [hc]
  exact ⟨h.key, fun hc => h.noEquals (hsub _ hc), fun hc => h.noLineFeed (hsub _ hc)⟩

theorem Writable.newline_notMem (h : Writable field) : '\n' ∉ line field := by
  intro hc
  rcases List.mem_append.mp hc with hkey | hvalue
  · exact absurd (h.key.1 _ hkey) (by decide)
  · rcases List.mem_cons.mp hvalue with heq | hvalue
    · exact absurd heq (by decide)
    · exact h.noLineFeed hvalue

section Lookup

variable {fs : List (String × List Char)} {key : String} {v : List Char}

theorem value?_of_mem (hkeys : (fs.map Prod.fst).Nodup) (hmem : (key, v) ∈ fs)
    (hv : Text.trim v ≠ []) :
    Fields.value? (fs.map trimmed).reverse key = some (Text.trim v) := by
  have hlookup : List.lookup key (fs.map trimmed).reverse = some (Text.trim v) := by
    obtain ⟨before, after, rfl⟩ := List.append_of_mem hmem
    refine List.lookup_eq_some_iff.mpr
      ⟨(after.map trimmed).reverse, (before.map trimmed).reverse, by simp [trimmed], ?_⟩
    intro entry hentry
    obtain ⟨f, hf, rfl⟩ := List.mem_map.mp (List.mem_reverse.mp hentry)
    rw [List.map_append, List.map_cons] at hkeys
    have hnot := (List.nodup_cons.mp (List.nodup_append.mp hkeys).2.1).1
    rw [bne_iff_ne]
    rintro rfl
    exact hnot (List.mem_map.mpr ⟨f, hf, rfl⟩)
  rw [value?, hlookup]
  exact Option.filter_some_pos (by simpa using hv)

theorem value?_of_notMem (h : key ∉ fs.map Prod.fst) :
    Fields.value? (fs.map trimmed).reverse key = none := by
  have hlookup : List.lookup key (fs.map trimmed).reverse = none := by
    refine List.lookup_eq_none_iff.mpr fun entry hentry => ?_
    obtain ⟨f, hf, rfl⟩ := List.mem_map.mp (List.mem_reverse.mp hentry)
    rw [bne_iff_ne]
    rintro rfl
    exact h (List.mem_map.mpr ⟨f, hf, rfl⟩)
  rw [value?, hlookup]
  rfl

end Lookup

end Fields

namespace LineBlock

open Fields

variable {fs : List (String × List Char)}

theorem mapM_field (hfs : ∀ f ∈ fs, Writable f) (n : Nat) :
    ((fs.map line).zipIdx n).mapM field = .ok (fs.map trimmed) := by
  induction fs generalizing n with
  | nil => rfl
  | cons f fs ih =>
      have hfield : field (line f, n) = .ok (trimmed f) := by
        rw [field, (hfs f List.mem_cons_self).ofLine?_line]
      have hrest := ih (fun g hg => hfs g (List.mem_cons_of_mem f hg)) (n + 1)
      rw [List.map_cons, List.zipIdx_cons, List.mapM_cons, hfield]
      exact Outcome.bind_ok.mpr ⟨_, rfl, Outcome.bind_ok.mpr ⟨_, hrest, rfl⟩⟩

theorem ofLines_cons {opening : BlockLine} {first : List Char}
    (hfirst : BlockLine.ofLine? first = some opening) (hfs : ∀ f ∈ fs, Writable f)
    (rest : List (List Char)) (n : Nat) :
    ofLines ((first :: (fs.map line ++ [] :: rest)).zipIdx n) =
      ⟨opening, n, (fs.map line).zipIdx (n + 1)⟩ ::
        ofLines (rest.zipIdx (n + 1 + fs.length + 1)) := by
  have hbody : ∀ (fs : List (String × List Char)) (n : Nat), (∀ f ∈ fs, Writable f) →
      (((fs.map line ++ [] :: rest).zipIdx n).takeWhile fun entry => !endsBlock entry.1) =
          (fs.map line).zipIdx n ∧
        ofLines ((fs.map line ++ [] :: rest).zipIdx n) =
          ofLines (rest.zipIdx (n + fs.length + 1)) := by
    intro fs
    induction fs with
    | nil => exact fun n _ => ⟨rfl, rfl⟩
    | cons f fs ih =>
        intro n hfs
        have hf := hfs f List.mem_cons_self
        obtain ⟨htake, hskip⟩ := ih (n + 1) fun g hg => hfs g (List.mem_cons_of_mem f hg)
        rw [List.map_cons, List.cons_append, List.zipIdx_cons, List.zipIdx_cons, ofLines,
          hf.blockLine_line, List.takeWhile_cons_of_pos (by simp [hf.endsBlock_line]), htake, hskip,
          List.length_cons, Nat.add_right_comm n 1, Nat.add_assoc n]
        exact ⟨rfl, rfl⟩
  obtain ⟨htake, hskip⟩ := hbody fs (n + 1) hfs
  rw [List.zipIdx_cons, ofLines, hfirst]
  simp only [htake, hskip]

def writtenLines (first : List Char) (fs : List (String × List Char)) : List (List Char) :=
  first :: (fs.map line ++ [[]])

theorem newline_notMem_writtenLines {first : List Char} (hfirst : '\n' ∉ first)
    (hfs : ∀ f ∈ fs, Writable f) : ∀ l ∈ writtenLines first fs, '\n' ∉ l := by
  simp only [writtenLines, List.forall_mem_cons, List.forall_mem_append, List.forall_mem_map]
  exact ⟨hfirst, fun f hf => (hfs f hf).newline_notMem, nofun, nofun⟩

theorem foldlM_writtenLines {d : Dump} {opening : BlockLine} {kind : BlockKind} {first : List Char}
    (hreturn : '\r' ∉ first) (hfirst : BlockLine.ofLine? first = some opening)
    (hsecond : ¬(opening = .header ∧ d.header.isSome))
    (hkind : BlockKind.ofBlockLine opening = .ok kind) (hfs : ∀ f ∈ fs, Writable f)
    (rest : List (List Char)) (n : Nat) :
    (ofLines ((((writtenLines first fs).map fun l => Text.endedLine l.reverse) ++ rest).zipIdx
        n)).foldlM addTo d =
      d.addBlock ⟨kind, (fs.map trimmed).reverse⟩ >>= fun d =>
        (ofLines (rest.zipIdx (n + 1 + fs.length + 1))).foldlM addTo d := by
  have hlines : (writtenLines first fs).map (fun l => Text.endedLine l.reverse) ++ rest =
      first :: ((fs.map ended).map line ++ [] :: rest) := by
    have hblank : Text.endedLine [] = [] := rfl
    simp [writtenLines, Text.endedLine_of_notMem hreturn, endedLine_line, Function.comp_def, hblank]
  have hended : ∀ f ∈ fs.map ended, Writable f := by
    intro f hf
    obtain ⟨g, hg, rfl⟩ := List.mem_map.mp hf
    exact (hfs g hg).ended
  have hadd : ∀ n m, addTo d ⟨opening, n, ((fs.map ended).map line).zipIdx m⟩ =
      d.addBlock ⟨kind, (fs.map trimmed).reverse⟩ := by
    intro n m
    rw [addTo, if_neg hsecond]
    change (BlockKind.ofBlockLine opening >>= fun kind =>
      (((fs.map ended).map line).zipIdx m).mapM field >>= fun fields =>
        d.addBlock ⟨kind, fields.reverse⟩) = _
    rw [hkind, mapM_field hended, List.map_map, Function.comp_def]
    simp only [trimmed_ended]
    rfl
  rw [hlines, ofLines_cons hfirst hended, List.foldlM_cons, hadd, List.length_map]

end LineBlock

namespace DumpField

variable {α : Type} {text : α → List Char} {read : List Char → Option α} {x : α} {xs : List α}

def ReadsBack (text : α → List Char) (read : List Char → Option α) (x : α) : Prop :=
  Text.IsNumeral (text x) ∧ read (text x) = some x

theorem ReadsBack.scalar (h : ReadsBack text read x) (field : String) :
    scalar read field (text x) = .ok x := by
  rw [DumpField.scalar, Text.trim_of_noBlank h.1.isWord.2, h.2]

def joined (text : α → List Char) (xs : List α) : List Char := [' '].intercalate (xs.map text)

theorem isWord_of_mem_map (h : ∀ x ∈ xs, ReadsBack text read x) :
    ∀ w ∈ xs.map text, Text.IsWord w := by
  intro w hw
  obtain ⟨x, hx, rfl⟩ := List.mem_map.mp hw
  exact (h x hx).1.isWord

theorem trim_joined (h : ∀ x ∈ xs, ReadsBack text read x) :
    Text.trim (joined text xs) = joined text xs :=
  Text.trim_intercalate (isWord_of_mem_map h)

theorem joined_ne_nil (h : ∀ x ∈ xs, ReadsBack text read x) (hne : xs ≠ []) :
    joined text xs ≠ [] := by
  obtain ⟨x, xs, rfl⟩ := List.exists_cons_of_ne_nil hne
  have hx := (h x List.mem_cons_self).1.1
  cases xs <;> simp [joined, hx]

theorem list_joined (h : ∀ x ∈ xs, ReadsBack text read x) (field : String) :
    list read field (joined text xs) = .ok xs.toArray := by
  have hmap : (xs.map text).mapM (DumpField.scalar read field) = .ok xs := by
    refine Outcome.mapM_ok.mpr (List.forall₂_map_left_iff.mpr (List.forall₂_same.mpr ?_))
    exact fun x hx => (h x hx).scalar field
  rw [list, joined, Text.words_intercalate (isWord_of_mem_map h), hmap]
  rfl

theorem writable_text {key : String} (hkey : Fields.IsKey key) (h : ReadsBack text read x) :
    Fields.Writable (key, text x) :=
  ⟨hkey, h.1.equals_notMem, fun hc => absurd (h.1.isWord.2 _ hc) (by decide)⟩

theorem writable_joined {key : String} (hkey : Fields.IsKey key)
    (h : ∀ x ∈ xs, ReadsBack text read x) : Fields.Writable (key, joined text xs) := by
  have hchars : ∀ c ∈ joined text xs, c = ' ' ∨ ∃ x ∈ xs, c ∈ text x := by
    intro c hc
    rcases Text.mem_intercalate hc with hspace | ⟨w, hw, hc⟩
    · exact .inl hspace
    · obtain ⟨x, hx, rfl⟩ := List.mem_map.mp hw
      exact .inr ⟨x, hx, hc⟩
  refine ⟨hkey, fun hc => ?_, fun hc => ?_⟩
  · rcases hchars _ hc with heq | ⟨x, hx, hc⟩
    · exact absurd heq (by decide)
    · exact (writable_text hkey (h x hx)).noEquals hc
  · rcases hchars _ hc with heq | ⟨x, hx, hc⟩
    · exact absurd heq (by decide)
    · exact (writable_text hkey (h x hx)).noLineFeed hc

variable {fs : List (String × List Char)} {key : String}

theorem value?_text (hkeys : (fs.map Prod.fst).Nodup) (hmem : (key, text x) ∈ fs)
    (h : ReadsBack text read x) :
    Fields.value? (fs.map Fields.trimmed).reverse key = some (text x) := by
  have htrim := Text.trim_of_noBlank h.1.isWord.2
  rw [Fields.value?_of_mem hkeys hmem (by rw [htrim]; exact h.1.1), htrim]

theorem value?_joined (hkeys : (fs.map Prod.fst).Nodup) (hmem : (key, joined text xs) ∈ fs)
    (h : ∀ x ∈ xs, ReadsBack text read x) (hne : xs ≠ []) :
    Fields.value? (fs.map Fields.trimmed).reverse key = some (joined text xs) := by
  have htrim := trim_joined h
  rw [Fields.value?_of_mem hkeys hmem (by rw [htrim]; exact joined_ne_nil h hne), htrim]

theorem required_joined (hkeys : (fs.map Prod.fst).Nodup) (hmem : (key, joined text xs) ∈ fs)
    (h : ∀ x ∈ xs, ReadsBack text read x) (hne : xs ≠ []) (tree : Option Nat) :
    required (fs.map Fields.trimmed).reverse tree key = .ok (joined text xs) := by
  rw [required, value?_joined hkeys hmem h hne]

theorem sizedList_joined (hkeys : (fs.map Prod.fst).Nodup) (hmem : (key, joined text xs) ∈ fs)
    (h : ∀ x ∈ xs, ReadsBack text read x) {n : Nat} (hn : xs.length = n) (hpos : n ≠ 0)
    (tree : Nat) :
    sizedList (fs.map Fields.trimmed).reverse tree key read n = .ok xs.toArray := by
  have hne : xs ≠ [] := by
    rintro rfl
    exact hpos hn.symm
  have hsize : checkSize key xs.toArray n = .ok () := by rw [checkSize, if_pos (by simpa using hn)]
  exact Outcome.bind_ok.mpr ⟨_, required_joined hkeys hmem h hne _,
    Outcome.bind_ok.mpr ⟨_, list_joined h key, Outcome.bind_ok.mpr ⟨_, hsize, rfl⟩⟩⟩

theorem optionalList_joined (hkeys : (fs.map Prod.fst).Nodup)
    (hmem : xs ≠ [] → (key, joined text xs) ∈ fs) (hnot : xs = [] → key ∉ fs.map Prod.fst)
    (h : ∀ x ∈ xs, ReadsBack text read x) :
    optionalList (fs.map Fields.trimmed).reverse key read = .ok xs.toArray := by
  by_cases hne : xs = []
  · rw [optionalList, optional, Fields.value?_of_notMem (hnot hne), hne]
    rfl
  · rw [optionalList, optional, value?_joined hkeys (hmem hne) h hne]
    simp only [list_joined h]
    rfl

theorem optional_text (hkeys : (fs.map Prod.fst).Nodup) (hmem : (key, text x) ∈ fs)
    (h : ReadsBack text read x) :
    optional (fs.map Fields.trimmed).reverse key (scalar read) = .ok (some x) := by
  rw [optional, value?_text hkeys hmem h]
  simp only [h.scalar]
  rfl

theorem required_text (hkeys : (fs.map Prod.fst).Nodup) (hmem : (key, text x) ∈ fs)
    (h : ReadsBack text read x) (tree : Option Nat) :
    required (fs.map Fields.trimmed).reverse tree key = .ok (text x) := by
  rw [required, value?_text hkeys hmem h]

end DumpField

end BoostedTrees
