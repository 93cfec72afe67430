import BoostedTrees.Proofs.Dump.Blocks
import BoostedTrees.Proofs.Dump.Keys
import BoostedTrees.Proofs.Dump.Lines
import Mathlib.Logic.Relation

namespace BoostedTrees

def DumpError.unplaced : DumpError → DumpError
  | .malformedLine _ _ => .malformedLine 0 ""
  | .secondHeader _ => .secondHeader 0
  | e => e

inductive SameOutcome {α β : Type} (R : α → β → Prop) :
    Except DumpError α → Except DumpError β → Prop
  | ok {a : α} {b : β} : R a b → SameOutcome R (.ok a) (.ok b)
  | error {e e' : DumpError} : e.unplaced = e'.unplaced → SameOutcome R (.error e) (.error e')

namespace SameOutcome

variable {α β γ δ : Type} {R : α → β → Prop} {S : γ → δ → Prop}

theorem bind {x : Except DumpError α} {y : Except DumpError β} {f : α → Except DumpError γ}
    {g : β → Except DumpError δ} (h : SameOutcome R x y)
    (hfg : ∀ a b, R a b → SameOutcome S (f a) (g b)) : SameOutcome S (x >>= f) (y >>= g) := by
  cases h with
  | ok hab => exact hfg _ _ hab
  | error he => exact .error he

theorem refl_of {R : α → α → Prop} (h : ∀ a, R a a) (x : Except DumpError α) :
    SameOutcome R x x := by
  cases x with
  | ok a => exact .ok (h a)
  | error e => exact .error rfl

theorem refl (x : Except DumpError α) : SameOutcome (· = ·) x x := refl_of (fun _ => rfl) x

theorem trans {x y z : Except DumpError α} (h : SameOutcome (· = ·) x y)
    (h' : SameOutcome (· = ·) y z) : SameOutcome (· = ·) x z := by
  cases h with
  | ok hab =>
      subst hab
      exact h'
  | error he =>
      cases h' with
      | error he' => exact .error (he.trans he')

end SameOutcome

structure SameLine (line line' : List Char) : Prop where
  opening : BlockLine.ofLine? line = BlockLine.ofLine? line'
  blank : (Text.trim line).isEmpty = (Text.trim line').isEmpty
  field : Fields.ofLine? line = Fields.ofLine? line'

namespace SameLine

theorem refl (line : List Char) : SameLine line line := ⟨rfl, rfl, rfl⟩

theorem equals_notMem {blanks : List Char} (h : Text.AllBlank blanks) : '=' ∉ blanks :=
  fun hmem => absurd (h '=' hmem) (by decide)

theorem append_blanks {blanks : List Char} (h : Text.AllBlank blanks) (line : List Char) :
    SameLine line (line ++ blanks) where
  opening := by rw [BlockLine.ofLine?, BlockLine.ofLine?, Text.trimEnd_append_blanks h]
  blank := by rw [Text.trim_append_blanks h]
  field := by
    by_cases hsign : '=' ∈ line
    · obtain ⟨key, value, rfl, hkey⟩ := List.eq_append_cons_of_mem hsign
      rw [List.append_assoc, List.cons_append, Fields.ofLine?_equation hkey,
        Fields.ofLine?_equation hkey, Text.trim_append_blanks h]
      simp [equals_notMem h]
    · rw [Fields.ofLine?_of_notMem hsign, Fields.ofLine?_of_notMem]
      simp [hsign, equals_notMem h]

theorem equation {key value left right : List Char} (hkey : '=' ∉ key)
    (hopens : BlockLine.ofLine? (key ++ '=' :: value) = none) (hleft : Text.AllBlank left)
    (hright : Text.AllBlank right) :
    SameLine (key ++ '=' :: value) (key ++ left ++ '=' :: (right ++ value)) := by
  have hkey' : '=' ∉ key ++ left := by simp [hkey, equals_notMem hleft]
  rw [BlockLine.ofLine?_equation hkey] at hopens
  have hne : key ++ left ≠ BlockLine.treeKey := by
    intro heq
    have hnone : left = [] := by
      refine List.eq_nil_iff_forall_not_mem.mpr fun c hc => ?_
      have hblank : Text.NoBlank BlockLine.treeKey := by decide
      have hfalse := hblank c (heq ▸ List.mem_append_right key hc)
      rw [hleft c hc] at hfalse
      exact absurd hfalse (by simp)
    rw [hnone, List.append_nil] at heq
    rw [if_pos heq] at hopens
    exact absurd hopens (by simp)
  refine ⟨?_, ?_, ?_⟩
  · rw [BlockLine.ofLine?_equation hkey, BlockLine.ofLine?_equation hkey', hopens, if_neg hne]
  · rw [Fields.trim_ne_nil (by simp), Fields.trim_ne_nil (by simp)]
  · rw [Fields.ofLine?_equation hkey, Fields.ofLine?_equation hkey', Text.trim_append_blanks hleft,
      Text.trim_blanks_append hright]
    simp [equals_notMem hright]

end SameLine

namespace DumpScan

inductive Alike : DumpScan → DumpScan → Prop
  | outside (d : Dump) : Alike ⟨d, none⟩ ⟨d, none⟩
  | inside (d : Dump) (kind : BlockKind) {fs fs' : Fields} :
      fs.AgreeOn kind.keys fs' → Alike ⟨d, some ⟨kind, fs⟩⟩ ⟨d, some ⟨kind, fs'⟩⟩

variable {s s' : DumpScan} {line line' : List Char}

theorem Alike.refl (s : DumpScan) : s.Alike s := by
  obtain ⟨d, _ | ⟨kind, fs⟩⟩ := s
  · exact .outside d
  · exact .inside d kind fun _ _ => rfl

theorem Alike.close_eq (h : s.Alike s') : s.close = s'.close := by
  cases h with
  | outside d => rfl
  | inside d kind hfields => exact Dump.addBlock_congr hfields d

theorem openBlock_alike (d : Dump) (n n' : Nat) (line : BlockLine) :
    SameOutcome Alike (openBlock d n line) (openBlock d n' line) := by
  unfold openBlock
  split
  · exact .error rfl
  · exact SameOutcome.refl_of Alike.refl _

theorem Alike.step (hs : s.Alike s') (hline : SameLine line line') (n n' : Nat) :
    SameOutcome Alike (s.step (line, n)) (s'.step (line', n')) := by
  simp only [DumpScan.step, hline.opening, hline.blank, hs.close_eq]
  cases BlockLine.ofLine? line' with
  | some opening =>
      exact (SameOutcome.refl s'.close).bind fun d d' hd =>
        hd ▸ openBlock_alike d n n' opening
  | none =>
      by_cases hblank : (Text.trim line').isEmpty = true
      · simp only [hblank, if_true]
        exact SameOutcome.refl_of Alike.refl _
      · simp only [hblank]
        cases hs with
        | outside d => exact .ok (.outside d)
        | inside d kind hfields =>
            simp only [addLine, hline.field]
            cases Fields.ofLine? line' with
            | none => exact .error rfl
            | some field => exact .ok (.inside d kind (hfields.cons field))

theorem Alike.run {ls ls' : List (List Char)} (hls : List.Forall₂ SameLine ls ls') (hs : s.Alike s')
    (n n' : Nat) :
    SameOutcome Alike ((ls.zipIdx n).foldlM DumpScan.step s)
      ((ls'.zipIdx n').foldlM DumpScan.step s') := by
  induction hls generalizing s s' n n' with
  | nil => exact .ok hs
  | cons hline _ ih =>
      rw [List.zipIdx_cons, List.zipIdx_cons, List.foldlM_cons, List.foldlM_cons]
      exact (hs.step hline n n').bind fun _ _ hnext => ih hnext (n + 1) (n' + 1)

theorem ofCharLines_alike (before mid mid' after : List (List Char))
    (h : ∀ n s, (before.zipIdx 1).foldlM DumpScan.step {} = .ok s →
      SameOutcome Alike ((mid.zipIdx n).foldlM DumpScan.step s)
        ((mid'.zipIdx n).foldlM DumpScan.step s)) :
    SameOutcome (· = ·) (Dump.ofCharLines (before ++ (mid ++ after)))
      (Dump.ofCharLines (before ++ (mid' ++ after))) := by
  have hafter : ∀ n n' s s', s.Alike s' → SameOutcome (· = ·)
      ((after.zipIdx n).foldlM DumpScan.step s >>= close)
      ((after.zipIdx n').foldlM DumpScan.step s' >>= close) := by
    intro n n' s s' hs
    -- their numbers may have moved, but a number only shows in a fault
    have hsame := List.forall₂_same.mpr fun line (_ : line ∈ after) => SameLine.refl line
    refine (hs.run hsame n n').bind fun t t' ht => ?_
    rw [ht.close_eq]
    exact SameOutcome.refl _
  have hsplit : ∀ mid : List (List Char), Dump.ofCharLines (before ++ (mid ++ after)) =
      (before.zipIdx 1).foldlM DumpScan.step {} >>= fun s =>
        (mid.zipIdx (1 + before.length)).foldlM DumpScan.step s >>= fun s =>
          (after.zipIdx (1 + before.length + mid.length)).foldlM DumpScan.step s >>= close := by
    intro mid
    rw [Dump.ofCharLines, List.zipIdx_append, List.zipIdx_append, List.foldlM_append]
    simp only [List.foldlM_append]
    change (_ >>= close : Except DumpError Dump) = _
    simp only [bind_assoc]
  rw [hsplit, hsplit]
  cases hbefore : (before.zipIdx 1).foldlM DumpScan.step ({} : DumpScan) with
  | error e => exact .error rfl
  | ok s => exact (h _ s hbefore).bind (hafter _ _)

theorem ofCharLines_sameLine (h : SameLine line line') (before after : List (List Char)) :
    SameOutcome (· = ·) (Dump.ofCharLines (before ++ line :: after))
      (Dump.ofCharLines (before ++ line' :: after)) :=
  ofCharLines_alike before [line] [line'] after fun n s _ =>
    Alike.run (.cons h .nil) (.refl s) n n

theorem ofCharLines_insert (before after : List (List Char))
    (h : ∀ n s, (before.zipIdx 1).foldlM DumpScan.step {} = .ok s →
      ∃ s', s.step (line, n) = .ok s' ∧ s.Alike s') :
    SameOutcome (· = ·) (Dump.ofCharLines (before ++ after))
      (Dump.ofCharLines (before ++ line :: after)) := by
  refine ofCharLines_alike before [] [line] after fun n s hbefore => ?_
  obtain ⟨s', hstep, halike⟩ := h n s hbefore
  rw [List.zipIdx_singleton, List.foldlM_cons, hstep]
  exact .ok halike

theorem step_endsBlock (h : LineBlock.endsBlock line = true) (n : Nat) (s : DumpScan) :
    s.step (line, n) = s.close >>= fun d => step ⟨d, none⟩ (line, n) := by
  cases hopening : BlockLine.ofLine? line with
  | some opening =>
      simp only [step, hopening]
      rfl
  | none =>
      rw [LineBlock.endsBlock, hopening, Option.isSome_none, Bool.or_false] at h
      simp only [step, hopening, h, if_true]
      cases s.close <;> rfl

theorem ofCharLines_closed (hblank : Text.AllBlank line) (ls : List (List Char)) :
    Dump.ofCharLines (ls ++ [line]) = Dump.ofCharLines ls := by
  rw [Dump.ofCharLines, Dump.ofCharLines, List.zipIdx_append, List.foldlM_append]
  cases (ls.zipIdx 1).foldlM step ({} : DumpScan) with
  | error e => rfl
  | ok s =>
      change ((step s _ >>= fun s => pure s) >>= close : Except DumpError Dump) = s.close
      rw [step_blank hblank]
      cases s.close <;> rfl

theorem ofCharLines_closing (hblank : Text.AllBlank line) (before after : List (List Char))
    (hafter : ∀ next ∈ after.head?, LineBlock.endsBlock next = true) :
    SameOutcome (· = ·) (Dump.ofCharLines (before ++ after))
      (Dump.ofCharLines (before ++ line :: after)) := by
  cases after with
  | nil =>
      rw [ofCharLines_closed hblank, List.append_nil]
      exact SameOutcome.refl _
  | cons next after =>
      refine ofCharLines_alike before [next] [line, next] after fun n s _ => ?_
      have hclosed : ([line, next].zipIdx n).foldlM step s =
          s.close >>= fun d => step ⟨d, none⟩ (next, n + 1) := by
        simp only [List.zipIdx_cons, List.zipIdx_nil, List.foldlM_cons, List.foldlM_nil, bind_pure]
        rw [step_blank hblank]
        cases s.close <;> rfl
      rw [hclosed, List.zipIdx_singleton, List.foldlM_cons, step_endsBlock (hafter next rfl)]
      simp only [List.foldlM_nil, bind_pure]
      refine (SameOutcome.refl s.close).bind fun d d' hd => ?_
      exact hd ▸ (Alike.refl _).step (SameLine.refl next) n (n + 1)

theorem ofCharLines_swap (before after : List (List Char))
    (h : ∀ n n' (s : DumpScan), ∃ t t', (s.step (line, n) >>= (step · (line', n'))) = .ok t ∧
      (s.step (line', n) >>= (step · (line, n'))) = .ok t' ∧ t.Alike t') :
    SameOutcome (· = ·) (Dump.ofCharLines (before ++ line :: line' :: after))
      (Dump.ofCharLines (before ++ line' :: line :: after)) := by
  refine ofCharLines_alike before [line, line'] [line', line] after fun n s _ => ?_
  obtain ⟨t, t', ht, ht', halike⟩ := h n (n + 1) s
  have hrun : ∀ line line' : List Char, ([line, line'].zipIdx n).foldlM step s =
      s.step (line, n) >>= (step · (line', n + 1)) := by
    intro line line'
    simp only [List.zipIdx_cons, List.zipIdx_nil, List.foldlM_cons, List.foldlM_nil, bind_pure]
  rw [hrun, hrun, ht, ht']
  exact .ok halike

end DumpScan

def BlockLine.openAfter (ls : List (List Char)) : Option BlockLine :=
  ls.foldl (fun found line => if LineBlock.endsBlock line then ofLine? line else found) none

namespace DumpScan

variable {s s' : DumpScan}

def openKeys (s : DumpScan) : Option (List String) := s.block.map fun b => b.kind.keys

theorem openKeys_step {entry : List Char × Nat} (h : s.step entry = .ok s') :
    s'.openKeys = if LineBlock.endsBlock entry.1 then
      (BlockLine.ofLine? entry.1).map BlockLine.keys else s.openKeys := by
  rw [LineBlock.endsBlock]
  rcases step_ok h with ⟨opening, d, kind, hopening, -, hkind, rfl⟩ |
    ⟨hopening, hblank, d, -, rfl⟩ | ⟨hopening, hblank, b, field, hb, -, rfl⟩ |
    ⟨hopening, hblank, -, rfl⟩
  · rw [hopening, Option.isSome_some, Bool.or_true, if_pos rfl]
    exact congrArg some (BlockKind.keys_ofBlockLine hkind)
  · rw [hopening, hblank, Bool.true_or, if_pos rfl]
    rfl
  · rw [hopening, hblank, if_neg (by simp), openKeys, openKeys, hb]
    rfl
  · rw [hopening, hblank, if_neg (by simp)]

theorem openKeys_run {ls : List (List Char)} {n : Nat} (found : Option BlockLine)
    (hs : s.openKeys = found.map BlockLine.keys) (h : (ls.zipIdx n).foldlM step s = .ok s') :
    s'.openKeys = (ls.foldl (fun found line =>
      if LineBlock.endsBlock line then BlockLine.ofLine? line else found) found).map
        BlockLine.keys := by
  induction ls generalizing found s n with
  | nil =>
      cases h
      exact hs
  | cons line ls ih =>
      rw [List.zipIdx_cons, List.foldlM_cons] at h
      obtain ⟨next, hnext, h⟩ := Outcome.bind_ok.mp h
      rw [List.foldl_cons]
      refine ih _ ?_ h
      rw [openKeys_step hnext]
      split
      · rfl
      · exact hs

theorem openKeys_before {before : List (List Char)}
    (h : (before.zipIdx 1).foldlM step {} = .ok s) :
    s.openKeys = (BlockLine.openAfter before).map BlockLine.keys :=
  openKeys_run none rfl h

theorem addField_alike {field : String × List Char} {keys : List String}
    (hopen : s.openKeys = some keys) (hkey : field.1 ∉ keys) : s.Alike (s.addField field) := by
  obtain ⟨d, _ | ⟨kind, fs⟩⟩ := s
  · exact absurd hopen (by simp [openKeys])
  · obtain rfl : kind.keys = keys := Option.some.inj hopen
    exact .inside d kind (Fields.agreeOn_cons_of_notMem hkey fs)

theorem addField_swap {f g : String × List Char} (h : f.1 ≠ g.1) (s : DumpScan) :
    ((s.addField f).addField g).Alike ((s.addField g).addField f) := by
  obtain ⟨d, _ | ⟨kind, fs⟩⟩ := s
  · exact .outside d
  · exact .inside d kind (Fields.agreeOn_swap h fs)

end DumpScan

inductive LayoutEdit : List String → List String → Prop
  | endBlanks (before after : List String) (line blanks : String) :
      Text.AllBlank blanks.toList →
      LayoutEdit (before ++ line :: after) (before ++ (line ++ blanks) :: after)
  | equalsBlanks (before after : List String) (key value left right : String) :
      '=' ∉ key.toList → BlockLine.ofLine? (key ++ "=" ++ value).toList = none →
      Text.AllBlank left.toList → Text.AllBlank right.toList →
      LayoutEdit (before ++ (key ++ "=" ++ value) :: after)
        (before ++ (key ++ left ++ "=" ++ right ++ value) :: after)
  | swapFields (before after : List String) (line line' : String) (f g : String × List Char) :
      BlockLine.ofLine? line.toList = none → Fields.ofLine? line.toList = some f →
      BlockLine.ofLine? line'.toList = none → Fields.ofLine? line'.toList = some g → f.1 ≠ g.1 →
      LayoutEdit (before ++ line :: line' :: after) (before ++ line' :: line :: after)
  | unreadField (before after : List String) (line : String) (opening : BlockLine)
      (field : String × List Char) :
      BlockLine.openAfter (before.map String.toList) = some opening →
      BlockLine.ofLine? line.toList = none → Fields.ofLine? line.toList = some field →
      field.1 ∉ opening.keys → LayoutEdit (before ++ after) (before ++ line :: after)
  | outsideLine (before after : List String) (line : String) :
      BlockLine.openAfter (before.map String.toList) = none →
      BlockLine.ofLine? line.toList = none → LayoutEdit (before ++ after) (before ++ line :: after)
  | closingLine (before after : List String) (line : String) :
      Text.AllBlank line.toList →
      (∀ next ∈ after.head?, LineBlock.endsBlock next.toList = true) →
      LayoutEdit (before ++ after) (before ++ line :: after)

namespace LayoutEdit

open DumpScan

theorem sameOutcome {ls ls' : List String} (h : LayoutEdit ls ls') :
    SameOutcome (· = ·) (Dump.ofLines ls) (Dump.ofLines ls') := by
  unfold Dump.ofLines
  cases h with
  | endBlanks before after line blanks hblanks =>
      rw [List.map_append, List.map_append, List.map_cons, List.map_cons, String.toList_append]
      exact ofCharLines_sameLine (.append_blanks hblanks _) _ _
  | equalsBlanks before after key value left right hkey hopens hleft hright =>
      have hsign : ∀ key value : String,
          (key ++ "=" ++ value).toList = key.toList ++ '=' :: value.toList := by
        intro key value
        rw [String.toList_append, String.toList_append, List.append_assoc]
        rfl
      have hedited : (key ++ left ++ "=" ++ right ++ value).toList =
          key.toList ++ left.toList ++ '=' :: (right.toList ++ value.toList) := by
        simp only [String.toList_append, List.append_assoc]
        rfl
      rw [hsign] at hopens
      rw [List.map_append, List.map_append, List.map_cons, List.map_cons, hsign, hedited]
      exact ofCharLines_sameLine (.equation hkey hopens hleft hright) _ _
  | swapFields before after line line' f g hline hf hline' hg hne =>
      rw [List.map_append, List.map_append, List.map_cons, List.map_cons, List.map_cons,
        List.map_cons]
      have hfirst : ∀ n (s : DumpScan), s.step (line.toList, n) = .ok (s.addField f) :=
        fun n s => step_field hline hf s
      have hsecond : ∀ n (s : DumpScan), s.step (line'.toList, n) = .ok (s.addField g) :=
        fun n s => step_field hline' hg s
      refine ofCharLines_swap _ _ fun n n' s => ⟨_, _, ?_, ?_, addField_swap hne s⟩
      · rw [hfirst]
        exact hsecond n' _
      · rw [hsecond]
        exact hfirst n' _
  | unreadField before after line opening field hopen hline hfield hkey =>
      rw [List.map_append, List.map_append, List.map_cons]
      refine ofCharLines_insert _ _ fun n s hbefore => ⟨_, step_field hline hfield s, ?_⟩
      have hkeys := openKeys_before hbefore
      rw [hopen] at hkeys
      exact addField_alike hkeys hkey
  | outsideLine before after line hopen hline =>
      rw [List.map_append, List.map_append, List.map_cons]
      refine ofCharLines_insert _ _ fun n s hbefore => ⟨s, ?_, .refl s⟩
      have hkeys := openKeys_before hbefore
      rw [hopen] at hkeys
      obtain ⟨d, _ | b⟩ := s
      · exact step_outside hline d
      · exact absurd hkeys (by simp [openKeys])
  | closingLine before after line hblank hafter =>
      rw [List.map_append, List.map_append, List.map_cons]
      refine ofCharLines_closing hblank _ _ ?_
      rw [List.head?_map]
      simpa using hafter

end LayoutEdit

theorem Dump.ofLines_layout (ls ls' : List String) (h : Relation.ReflTransGen LayoutEdit ls ls') :
    (∃ d, Dump.ofLines ls = .ok d ∧ Dump.ofLines ls' = .ok d) ∨
      ∃ e e', Dump.ofLines ls = .error e ∧ Dump.ofLines ls' = .error e' ∧
        e.unplaced = e'.unplaced := by
  have hsame : SameOutcome (· = ·) (Dump.ofLines ls) (Dump.ofLines ls') := by
    induction h with
    | refl => exact SameOutcome.refl _
    | tail _ hedit ih => exact ih.trans hedit.sameOutcome
  generalize Dump.ofLines ls = x, Dump.ofLines ls' = y at hsame
  cases hsame with
  | ok hab =>
      subst hab
      exact .inl ⟨_, rfl, rfl⟩
  | error he => exact .inr ⟨_, _, rfl, rfl, he⟩

namespace LayoutEdit

def plainLines : List String :=
  ["tree", "num_class=1", "num_tree_per_iteration=1", "max_feature_idx=1", "objective=regression",
    "", "Tree=0", "num_leaves=1", "leaf_value=1"]

def editedLines : List String :=
  ["tree\r", "num_tree_per_iteration=1", "num_class=1", "max_feature_idx=1", "label_index=0",
    "objective=regression", "", "feature_infos=none", "Tree=0", "num_leaves=1", "leaf_value\t= 1",
    ""]

theorem editedLines_of_plainLines : Relation.ReflTransGen LayoutEdit plainLines editedLines := by
  have hblanks : LayoutEdit plainLines (editedLines.take 1 ++ plainLines.drop 1) :=
    .endBlanks [] (plainLines.drop 1) "tree" "\r" (by decide)
  have hswap : LayoutEdit (editedLines.take 1 ++ plainLines.drop 1)
      (editedLines.take 3 ++ plainLines.drop 3) :=
    .swapFields ["tree\r"] (plainLines.drop 3) _ _ ("num_class", ['1'])
      ("num_tree_per_iteration", ['1']) (by decide) (by decide) (by decide) (by decide) (by decide)
  have hunread : LayoutEdit (editedLines.take 3 ++ plainLines.drop 3)
      (editedLines.take 5 ++ plainLines.drop 4) :=
    .unreadField (editedLines.take 4) (plainLines.drop 4) "label_index=0" .header
      ("label_index", ['0']) (by decide) (by decide) (by decide) (by decide)
  have houtside : LayoutEdit (editedLines.take 5 ++ plainLines.drop 4)
      (editedLines.take 8 ++ plainLines.drop 6) :=
    .outsideLine (editedLines.take 7) (plainLines.drop 6) "feature_infos=none" (by decide)
      (by decide)
  have hequals : LayoutEdit (editedLines.take 8 ++ plainLines.drop 6) (editedLines.take 11) :=
    .equalsBlanks (editedLines.take 10) [] "leaf_value" "1" "\t" " " (by decide) (by decide)
      (by decide) (by decide)
  have hclosing : LayoutEdit (editedLines.take 11) editedLines :=
    .closingLine (editedLines.take 11) [] "" (by decide) (by decide)
  exact (((((Relation.ReflTransGen.single hblanks).tail hswap).tail hunread).tail houtside).tail
    hequals).tail hclosing

theorem editedLines_layout : Relation.ReflTransGen LayoutEdit plainLines editedLines ∧
    ∃ d, Dump.ofLines plainLines = .ok d ∧ Dump.ofLines editedLines = .ok d := by
  have hread : (Dump.ofLines plainLines).isOk = true := by decide +kernel
  refine ⟨editedLines_of_plainLines, ?_⟩
  rcases Dump.ofLines_layout _ _ editedLines_of_plainLines with hok | ⟨e, -, he, -, -⟩
  · exact hok
  · rw [he] at hread
    exact absurd hread (by simp [Except.isOk, Except.toBool])

end LayoutEdit

end BoostedTrees
