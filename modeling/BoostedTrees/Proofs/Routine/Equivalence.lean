import BoostedTrees.Proofs.Ensemble.Acceptance
import BoostedTrees.Proofs.Ensemble.Sums
import BoostedTrees.Proofs.Routine.Program
import BoostedTrees.Proofs.Routine.Values

namespace BoostedTrees.Routine

open Code

theorem treeName_inj {t t' : Tree} : treeName t = treeName t' ↔ t.index = t'.index := by
  constructor
  · intro h
    have hlists := congrArg String.toList h
    rw [toList_treeName, toList_treeName] at hlists
    have hdigits := congrArg Text.digits? (List.append_cancel_left hlists)
    rw [Text.digits?_toDigits, Text.digits?_toDigits] at hdigits
    exact Option.some.inj hdigits
  · intro h
    rw [treeName, treeName, h]

theorem ne_treeName {name : String} (h : name.toList.head? ≠ some 't') (t : Tree) :
    name ≠ treeName t := by
  rintro rfl
  rw [toList_treeName] at h
  exact h rfl

section Program

variable (e : Ensemble)

theorem indices_nodup : (e.trees.map Tree.index).Nodup :=
  (EnsembleDraft.wellFormed_iff.mpr ⟨_, e.accepted⟩).indices.nodup_iff.mpr List.nodup_range

theorem names_nodup : ((program e).functions.map Function.name).Nodup := by
  have htrees : (e.trees.map treeName).Nodup :=
    List.pairwise_map.mpr ((List.pairwise_map.mp (indices_nodup e)).imp
      fun hne heq => hne (treeName_inj.mp heq))
  have hnames : (program e).functions.map Function.name =
      helpers.map Function.name ++ (e.trees.map treeName ++ ["predict_raw"]) := by
    rw [program, List.map_append, List.map_append, List.map_map, List.append_assoc]
    rfl
  have hother : ∀ name ∈ "predict_raw" :: helpers.map Function.name, ∀ t : Tree,
      name ≠ treeName t := by
    intro name hname
    refine ne_treeName ?_
    simp only [helpers, List.map_cons, List.map_nil, List.mem_cons, List.not_mem_nil,
      or_false] at hname
    rcases hname with rfl | rfl | rfl | rfl <;> decide
  rw [hnames, List.nodup_append, List.nodup_append]
  refine ⟨by decide, ⟨htrees, List.nodup_singleton _, ?_⟩, ?_⟩
  · intro name hname sum hsum
    obtain ⟨t, -, rfl⟩ := List.mem_map.mp hname
    rw [List.mem_singleton.mp hsum]
    exact (hother _ List.mem_cons_self t).symm
  · intro helper hhelper name hname
    rcases List.mem_append.mp hname with hname | hname
    · obtain ⟨t, -, rfl⟩ := List.mem_map.mp hname
      exact hother helper (List.mem_cons_of_mem _ hhelper) t
    · rw [List.mem_singleton.mp hname]
      rintro rfl
      exact absurd hhelper (by decide)

variable {e}

theorem function?_tree {t : Tree} (ht : t ∈ e.trees) :
    (program e).function? (treeName t) = some (treeFunction t) :=
  Program.function?_of_mem (names_nodup e) (f := treeFunction t)
    (List.mem_append_left _ (List.mem_append_right _ (List.mem_map_of_mem ht)))

variable (e)

theorem function?_sum : (program e).function? "predict_raw" = some (sumFunction e) :=
  Program.function?_of_mem (names_nodup e) (f := sumFunction e)
    (List.mem_append_right _ List.mem_cons_self)

theorem function?_helper {f : Function} (hf : f ∈ helpers) :
    (program e).function? f.name = some f :=
  Program.function?_of_mem (names_nodup e) (List.mem_append_left _ (List.mem_append_left _ hf))

theorem constant?_numClasses : (program e).constant? "NUM_CLASSES" = some (.int e.numClasses) :=
  Program.constant?_of_eval (x := numberTerm e.numClasses) rfl fun _ _ => eval_numberTerm _

theorem constant?_zeroThreshold :
    (program e).constant? "ZERO_THRESHOLD" = some (.float zeroThreshold) := by
  refine Program.constant?_of_eval (x := zeroThresholdTerm) rfl fun g scope => ?_
  have hsingle : single? "1e-35".toList = some zeroThreshold := by decide +kernel
  have hliteral : literal? "1e-35_f32".toList = some (.single zeroThreshold) := by
    change (single? "1e-35".toList).map Value.single = _
    rw [hsingle]
    rfl
  have hnumber : (Term.number "1e-35_f32".toList).eval g scope = .ok (.single zeroThreshold) := by
    rw [Term.eval, hliteral]
    rfl
  exact eval_cast hnumber rfl

def globals (depth : Nat) : Globals := ⟨(program e).constant?, (program e).call? depth⟩

theorem helps (depth : Nat) : Helps (globals e (depth + 1)) where
  feature row i := by
    have hfunction := function?_helper e (f := featureFunction) (by simp [helpers])
    exact (Program.call?_of_function hfunction depth).trans (call?_feature _ row i)
  isZero x := by
    have hfunction := function?_helper e (f := isZeroFunction) (by simp [helpers])
    have hthreshold := constant?_zeroThreshold e
    exact (Program.call?_of_function hfunction depth).trans (call?_isZero _ hthreshold x)
  inBitset words x := by
    have hfunction := function?_helper e (f := inBitsetFunction) (by simp [helpers])
    exact (Program.call?_of_function hfunction depth).trans (call?_inBitset _ words x)

variable {e}

theorem call?_tree {t : Tree} (ht : t ∈ e.trees) (row : Row) (depth : Nat) :
    (program e).call? (depth + 2) (treeName t) [rowValue row] = some (.float (t.eval row)) := by
  have hbinds : Binds ([] ++ [("f", rowValue row)]) row none :=
    ⟨rfl, fun x hx => absurd hx (by simp)⟩
  rw [Program.call?_of_function (function?_tree ht)]
  exact call?_of_ok rfl
    ((Expr.ofTree t).eval_block (helps e depth) hbinds (Expr.eval?_ofTree t row))

end Program

def slotsValue (slots : Array Float) : Value := .list (slots.toList.map .float)

theorem addAt?_slots {slots : Array Float} {c : Nat} (hc : c < slots.size) (y : Float) :
    addAt? (slotsValue slots) (.int c) (.float y) =
      some (slotsValue (Ensemble.addTo slots (c, y))) := by
  have hentry : (slots.toList.map Value.float)[c]? = some (.float slots[c]) := by simp [hc]
  have hset : (slots.toList.map Value.float).set c (.float (slots[c] + y)) =
      (Ensemble.addTo slots (c, y)).toList.map Value.float := by
    have hlength : c < slots.toList.length := hc
    rw [Ensemble.addTo, Array.toList_modify, List.modify_eq_set_get _ hlength, List.map_set]
    rfl
  change addAt? (.list _) (.int (.ofNat c)) (.float y) = _
  rw [addAt?, hentry]
  exact congrArg (fun xs => some (Value.list xs)) hset

variable {e : Ensemble}

theorem eval_sumBlock {g : Globals} {row : Row} {ts : List Tree}
    (hg : ∀ t ∈ ts, g.call? (treeName t) [rowValue row] = some (.float (t.eval row)))
    (slots : Array Float) (hsize : slots.size = e.numClasses) (hclasses : 0 < e.numClasses) :
    (sumBlock e ts).eval g [("f", rowValue row)] [("raw", slotsValue slots)] =
      .ok (slotsValue
        ((ts.map fun t => (e.treeClass t, t.eval row)).foldl Ensemble.addTo slots)) := by
  induction ts generalizing slots with
  | nil => exact eval_variable rfl rfl
  | cons t ts ih =>
      have hc : e.treeClass t < slots.size := hsize ▸ Nat.mod_lt _ hclasses
      have hvalue : (Term.call (treeName t) [.name ["f"]]).eval g
          ([("raw", slotsValue slots)] ++ [("f", rowValue row)]) = .ok (.float (t.eval row)) :=
        eval_call (evalAll_cons (eval_variable rfl rfl) rfl) (hg t List.mem_cons_self)
      have hchange : changeFirst? "raw" (addAt? · (.int (e.treeClass t)) (.float (t.eval row)))
          [("raw", slotsValue slots)] =
            some [("raw", slotsValue (Ensemble.addTo slots (e.treeClass t, t.eval row)))] := by
        rw [changeFirst?, if_pos rfl, addAt?_slots hc]
        rfl
      -- the only variable of its own that the block has is the one that it changes
      rw [sumBlock, Block.eval, eval_numberTerm, hvalue]
      change orStuck (changeFirst? "raw" _ _) >>= _ = _
      rw [hchange]
      exact ih (fun s hs => hg s (List.mem_cons_of_mem t hs)) _
        (by simpa [Ensemble.addTo] using hsize)

variable (e)

def sums (row : Row) : Array Float :=
  (e.trees.map fun t => (e.treeClass t, t.eval row)).foldl Ensemble.addTo
    (Array.replicate e.numClasses Binary64.zero)

theorem call?_sum (row : Row) (depth : Nat) :
    (program e).call? (depth + 3) "predict_raw" [rowValue row] =
      some (slotsValue (sums e row)) := by
  have hzeros : zerosTerm.eval (globals e (depth + 2)) ([] ++ [("f", rowValue row)]) =
      .ok (slotsValue (Array.replicate e.numClasses Binary64.zero)) := by
    rw [zerosTerm, Term.eval, eval_constant rfl rfl (constant?_numClasses e)]
    change Except.ok (Value.list (List.replicate e.numClasses (.float Binary64.zero))) = _
    rw [slotsValue, Array.toList_replicate, List.map_replicate]
  rw [Program.call?_of_function (function?_sum e)]
  refine call?_of_ok rfl ?_
  change (sumFunction e).body.eval (globals e (depth + 2)) [("f", rowValue row)] [] = _
  rw [sumFunction, eval_bind hzeros]
  exact eval_sumBlock (fun t ht => call?_tree ht row depth) _ (by simp) e.numClasses_pos

theorem sumsInto?_eq {x : Executor} (hx : x = .interpreted ∨ ∃ limits, e.compile limits = .ok x)
    (row : Row) {buffer : Array Float} (hsize : buffer.size = e.numClasses) :
    e.sumsInto? x row buffer = some (sums e row) := by
  have hzeros : buffer.map (fun _ => Binary64.zero) =
      Array.replicate e.numClasses Binary64.zero := by
    rw [Array.map_const', hsize]
  rw [Ensemble.sumsInto?, if_pos hsize, Ensemble.Runs.treeValues_eq hx, hzeros, sums,
    Ensemble.treeClasses, List.zip_map']

theorem text_computes (name : String) :
    text e name = Text.unlines (titleLines e name) ++ Text.unlines (programLines e) ∧
    ∃ p, Program.ofText? (Text.unlines (programLines e)).toList = some p ∧
      ((∀ l ∈ titleLines e name, '\n' ∉ l.toList ∧ '\r' ∉ l.toList) →
        Program.ofText? (text e name).toList = some p) ∧
      (p.functions.map Function.name).Nodup ∧
      (∀ t ∈ e.trees, ∃ f : Function,
        Program.ofText? (Text.unlines (treeLines t)).toList = some ⟨[], [f]⟩ ∧
        p.function? (treeName t) = some f ∧
        f.parameters = [("f", listType "f64")] ∧ f.result = [.name "f64"] ∧
        f.body.endsInNumber = true ∧
        ∀ row, t.eval? row = some (t.eval row) ∧
          ∀ depth, p.call? (depth + 2) (treeName t) [rowValue row] = some (.float (t.eval row))) ∧
      ∀ row, ∃ slots : Array Float,
        (∀ depth, p.call? (depth + 3) "predict_raw" [rowValue row] =
          some (.list (slots.toList.map .float))) ∧
        ∀ x, (x = .interpreted ∨ ∃ limits, e.compile limits = .ok x) →
          e.sumsInto? x row (Array.replicate e.numClasses Binary64.zero) = some slots ∧
          e.sums? x row = e.newBuffer?.map fun _ => slots := by
  have htext : text e name = Text.unlines (titleLines e name) ++ Text.unlines (programLines e) := by
    rw [text, lines_eq, Text.unlines, List.map_append, String.join_append]
    rfl
  have hprogram := reads_programLines e
  refine ⟨htext, program e, Reads.ofText? hprogram, fun htitle => ?_, names_nodup e, fun t ht => ?_,
    fun row => ?_⟩
  · have hall := (reads_titleLines e name htitle .start).append hprogram
    rw [ReadsLines, Text.unlines, List.map_append, String.join_append] at hall
    rw [htext]
    exact Reads.ofText? hall
  · exact ⟨treeFunction t, Reads.ofText? (reads_treeLines {} t), function?_tree ht, rfl, rfl,
      (Expr.ofTree t).endsInNumber_block, fun row =>
        ⟨Tree.eval?_eq_eval (e.rangeOutside?_eq_none ht) row, call?_tree ht row⟩⟩
  · refine ⟨sums e row, call?_sum e row, fun x hx => ?_⟩
    have hinto : e.sumsInto? x row (Array.replicate e.numClasses Binary64.zero) =
        some (sums e row) := sumsInto?_eq e hx row Array.size_replicate
    refine ⟨hinto, ?_⟩
    rw [Ensemble.sums?, Ensemble.newBuffer?]
    split
    · exact hinto
    · rfl

end BoostedTrees.Routine
