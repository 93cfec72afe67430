import BoostedTrees.Dump.Blocks
import BoostedTrees.Proofs.Dump.Fields

namespace BoostedTrees

namespace LineBlock

variable {d : Dump} {entry : List Char × Nat} {rest : List (List Char × Nat)}

def readFrom (s : DumpScan) (rest : List (List Char × Nat)) : Except DumpError Dump :=
  match s.block with
  | none => (ofLines rest).foldlM addTo s.dump
  | some b => do
      let fields ← (rest.takeWhile fun entry => !endsBlock entry.1).mapM field
      let d ← s.dump.addBlock ⟨b.kind, fields.reverse ++ b.fields⟩
      (ofLines rest).foldlM addTo d

theorem readFrom_nil (s : DumpScan) : readFrom s [] = s.close := by
  obtain ⟨d, _ | b⟩ := s
  · rfl
  · change (d.addBlock ⟨b.kind, b.fields⟩ >>= fun d => Except.ok d) = d.addBlock b
    cases d.addBlock b <;> rfl

theorem readFrom_ends (hends : endsBlock entry.1 = true) (s : DumpScan) :
    readFrom s (entry :: rest) =
      s.close.bind fun d => (ofLines (entry :: rest)).foldlM addTo d := by
  obtain ⟨d, _ | b⟩ := s
  · rfl
  · rw [readFrom, List.takeWhile_cons_of_neg (by simp [hends])]
    rfl

theorem addTo_opening (opening : BlockLine) (number : Nat) (rest : List (List Char × Nat)) :
    addTo d ⟨opening, number, rest.takeWhile fun entry => !endsBlock entry.1⟩ >>=
        (ofLines rest).foldlM addTo =
      (DumpScan.openBlock d number opening).bind fun s => readFrom s rest := by
  rw [addTo, DumpScan.openBlock]
  by_cases hsecond : opening = .header ∧ d.header.isSome
  · rw [if_pos hsecond, if_pos hsecond]
    rfl
  · rw [if_neg hsecond, if_neg hsecond]
    cases BlockKind.ofBlockLine opening with
    | error e => rfl
    | ok kind =>
        change (((rest.takeWhile fun entry => !endsBlock entry.1).mapM field >>= fun fields =>
            d.addBlock ⟨kind, fields.reverse⟩) >>= fun d => (ofLines rest).foldlM addTo d) =
          readFrom ⟨d, some ⟨kind, []⟩⟩ rest
        simp only [readFrom, List.append_nil, bind_assoc]

theorem readFrom_cons (s : DumpScan) :
    readFrom s (entry :: rest) = (s.step entry).bind fun s => readFrom s rest := by
  obtain ⟨line, number⟩ := entry
  cases hline : BlockLine.ofLine? line with
  | some opening =>
      have hends : endsBlock line = true := by simp [endsBlock, hline]
      rw [readFrom_ends hends, DumpScan.step, hline]
      cases s.close with
      | error e => rfl
      | ok d =>
          change (ofLines ((line, number) :: rest)).foldlM addTo d =
            (DumpScan.openBlock d number opening).bind fun s => readFrom s rest
          rw [ofLines, hline]
          exact addTo_opening opening number rest
  | none =>
      by_cases hblank : (Text.trim line).isEmpty = true
      · have hends : endsBlock line = true := by simp [endsBlock, hblank]
        rw [readFrom_ends hends, ofLines, DumpScan.step, hline]
        simp only [hblank, if_true]
        cases s.close <;> rfl
      · have hkeeps : endsBlock line = false := by simp [endsBlock, hline, hblank]
        obtain ⟨d, _ | b⟩ := s
        · rw [DumpScan.step, hline]
          simp only [hblank, readFrom, ofLines, hline]
          rfl
        · rw [DumpScan.step, hline]
          simp only [hblank, readFrom, ofLines, hline]
          rw [List.takeWhile_cons_of_pos (by simp [hkeeps]), List.mapM_cons, field,
            DumpScan.addLine]
          cases Fields.ofLine? line with
          | none => rfl
          | some f =>
              simp only [Except.map, Except.bind, bind_assoc, pure_bind, List.reverse_cons,
                List.append_assoc, List.singleton_append]
              rfl

theorem scan_eq (rest : List (List Char × Nat)) (s : DumpScan) :
    (rest.foldlM DumpScan.step s).bind DumpScan.close = readFrom s rest := by
  induction rest generalizing s with
  | nil => exact (readFrom_nil s).symm
  | cons entry rest ih =>
      rw [readFrom_cons, List.foldlM_cons]
      cases s.step entry with
      | error e => rfl
      | ok next => exact ih next

end LineBlock

def BlockLine.token? : BlockLine → Option (List Char)
  | .header => none
  | .tree token => some token

namespace LineBlock

variable {d d' : Dump}

def Writes (token : List Char) (b : TreeBlock) : Prop :=
  Text.natural? 64 (Text.trim token) = some b.index

theorem addTo_eq_ok {b : LineBlock} :
    addTo d b = .ok d' ↔ ¬(b.opening = .header ∧ d.header.isSome) ∧
      ∃ kind fields, BlockKind.ofBlockLine b.opening = .ok kind ∧
        b.body.mapM field = .ok fields ∧ d.addBlock ⟨kind, fields.reverse⟩ = .ok d' := by
  rw [addTo]
  by_cases hsecond : b.opening = .header ∧ d.header.isSome
  · simp [hsecond, throw, throwThe, MonadExceptOf.throw, bind, Except.bind]
  · simp only [hsecond, if_false, Outcome.bind_ok, not_false_eq_true, true_and, exists_and_left]

theorem addTo_ok {b : LineBlock} (h : addTo d b = .ok d') :
    (b.opening = .header ∧ d'.trees = d.trees ∧ d'.header.isSome = true) ∨
      ∃ token t, b.opening = .tree token ∧ Writes token t ∧ d'.trees = d.trees.push t ∧
        d'.header = d.header := by
  obtain ⟨-, kind, fields, hkind, -, h⟩ := addTo_eq_ok.mp h
  cases hopening : b.opening with
  | header =>
      rw [hopening] at hkind
      cases hkind
      obtain ⟨header, -, rfl⟩ := Outcome.map_ok.mp h
      exact .inl ⟨rfl, rfl, rfl⟩
  | tree token =>
      rw [hopening] at hkind
      obtain ⟨index, hindex, rfl⟩ := Outcome.map_ok.mp hkind
      obtain ⟨t, ht, rfl⟩ := Outcome.map_ok.mp h
      refine .inr ⟨token, t, rfl, ?_, rfl, rfl⟩
      rw [Writes, TreeBlock.index_ofFields ht]
      exact DumpField.scalar_ok.mp hindex

theorem foldlM_addTo_ok {blocks : List LineBlock} (h : blocks.foldlM addTo d = .ok d') :
    (∃ trees, d'.trees.toList = d.trees.toList ++ trees ∧
      List.Forall₂ Writes ((blocks.map LineBlock.opening).filterMap BlockLine.token?) trees) ∧
    (d'.header.isSome = true ↔
      d.header.isSome = true ∨ .header ∈ blocks.map LineBlock.opening) := by
  induction blocks generalizing d with
  | nil =>
      cases h
      exact ⟨⟨[], by simp, .nil⟩, by simp⟩
  | cons b blocks ih =>
      rw [List.foldlM_cons] at h
      obtain ⟨next, hnext, h⟩ := Outcome.bind_ok.mp h
      obtain ⟨⟨trees, htrees, hindices⟩, hheader⟩ := ih h
      rw [List.map_cons, List.mem_cons]
      rcases addTo_ok hnext with ⟨hopening, hkept, hsome⟩ | ⟨token, t, hopening, ht, hpush, hkept⟩
      · rw [hopening]
        exact ⟨⟨trees, hkept ▸ htrees, hindices⟩, by simp [hheader, hsome]⟩
      · rw [hopening]
        refine ⟨⟨t :: trees, ?_, .cons ht hindices⟩, by simp [hheader, hkept]⟩
        rw [htrees, hpush, Array.toList_push, List.append_assoc, List.singleton_append]

theorem openings_ofLines (entries : List (List Char × Nat)) :
    (ofLines entries).map LineBlock.opening =
      (entries.map Prod.fst).filterMap BlockLine.ofLine? := by
  induction entries with
  | nil => rfl
  | cons entry entries ih =>
      rw [ofLines, List.map_cons, List.filterMap_cons]
      cases BlockLine.ofLine? entry.1 with
      | none => exact ih
      | some opening => exact congrArg _ ih

end LineBlock

theorem Fields.value?_reverse (fs : Fields) (key : String) :
    Fields.value? fs.reverse key =
      (((fs.filter fun field => field.1 == key).getLast?).map Prod.snd).filter
        fun v => !v.isEmpty := by
  have hlookup : ∀ xs : Fields,
      xs.lookup key = ((xs.filter fun field => field.1 == key).head?).map Prod.snd := by
    intro xs
    induction xs with
    | nil => rfl
    | cons field xs ih =>
        rw [List.lookup_cons, List.filter_cons, BEq.comm]
        cases h : field.1 == key <;> simp [ih]
  rw [value?, hlookup, List.filter_reverse, List.head?_reverse]

namespace Dump

theorem ofCharLines_eq (ls : List (List Char)) : ofCharLines ls = ofLineBlocks ls :=
  LineBlock.scan_eq (ls.zipIdx 1) {}

theorem ofCharLines_ok {ls : List (List Char)} {d : Dump} (h : ofCharLines ls = .ok d) :
    List.Forall₂ LineBlock.Writes
      ((ls.filterMap BlockLine.ofLine?).filterMap BlockLine.token?) d.trees.toList ∧
    (d.header.isSome = true ↔ .header ∈ ls.filterMap BlockLine.ofLine?) := by
  rw [ofCharLines_eq] at h
  obtain ⟨⟨trees, htrees, hindices⟩, hheader⟩ := LineBlock.foldlM_addTo_ok h
  rw [LineBlock.openings_ofLines, List.zipIdx_map_fst] at hindices hheader
  obtain rfl : d.trees.toList = trees := htrees
  exact ⟨hindices, by simpa using hheader⟩

theorem ofLines_eq_blocks (ls : List String) :
    ofLines ls = ofLineBlocks (ls.map String.toList) ∧
    (∀ (fs : Fields) (key : String), Fields.value? fs.reverse key =
      (((fs.filter fun field => field.1 == key).getLast?).map Prod.snd).filter
        fun v => !v.isEmpty) ∧
    ∀ d, ofLines ls = .ok d →
      List.Forall₂ (fun token b => Text.natural? 64 (Text.trim token) = some b.index)
        (((ls.map String.toList).filterMap BlockLine.ofLine?).filterMap BlockLine.token?)
        d.trees.toList ∧
      (d.header.isSome = true ↔
        ∃ line ∈ ls, BlockLine.ofLine? line.toList = some .header) := by
  refine ⟨ofCharLines_eq _, Fields.value?_reverse, ?_⟩
  intro d h
  obtain ⟨hindices, hheader⟩ := ofCharLines_ok h
  refine ⟨hindices, hheader.trans ?_⟩
  simp

def outOfOrderLines : List String :=
  ["tree_sizes=3", "Tree=5 ", "leaf_value=1", "leaf_value=2", "", "no field", "tree",
    "objective=binary sigmoid:1", "num_class=1", "num_tree_per_iteration=1", "max_feature_idx=0",
    "Tree=+3", "leaf_value=0.5", "", "end of trees"]

theorem outOfOrderLines_blocks :
    ∃ d, ofLines outOfOrderLines = .ok d ∧
      List.Forall₂ (fun token b => Text.natural? 64 (Text.trim token) = some b.index)
        [['5'], ['+', '3']] d.trees.toList ∧ d.header.isSome = true := by
  obtain ⟨d, h⟩ := Outcome.exists_ok (x := ofLines outOfOrderLines) (by decide +kernel)
  obtain ⟨hindices, hheader⟩ := (ofLines_eq_blocks outOfOrderLines).2.2 d h
  exact ⟨d, h, hindices, hheader.mpr ⟨"tree", by decide, by decide⟩⟩

end Dump

end BoostedTrees
