import BoostedTrees.Proofs.Routine.Helpers

namespace BoostedTrees.Routine

open Code

def titleLines (e : Ensemble) (name : String) : List String := [
  "//! Specialised predictor for model `" ++ name ++ "`.",
  "//! objective: " ++ e.objectiveName ++ " " ++ e.objectiveConfig]

def constantLine (name : String) (n : Nat) : String :=
  "pub const " ++ name ++ ": usize = " ++ toString n ++ ";"

def programLines (e : Ensemble) : List String :=
  ["", constantLine "NUM_CLASSES" e.numClasses, constantLine "NUM_FEATURES" e.numFeatures, ""] ++
    helperLines ++ (e.trees.flatMap fun t => "" :: treeLines t) ++ "" :: sumLines e

theorem lines_eq (e : Ensemble) (name : String) :
    lines e name = titleLines e name ++ programLines e := by
  simp [lines, headLines, titleLines, programLines, constantLine]

def treeFunction (t : Tree) : Function where
  name := treeName t
  parameters := [("f", listType "f64")]
  result := [.name "f64"]
  body := (Expr.ofTree t).block

theorem toList_treeName (t : Tree) :
    (treeName t).toList = "tree_".toList ++ Nat.toDigits 10 t.index := by
  rw [treeName, String.toList_append, Nat.toString_eq_repr, Nat.toList_repr]

theorem ofWord_treeName (t : Tree) : Token.ofWord (treeName t).toList = .name (treeName t) := by
  have hname : Token.ofWord (treeName t).toList = .name (String.ofList (treeName t).toList) := by
    rw [toList_treeName]
    rfl
  rw [hname, String.ofList_toList]

section Reading

variable {p : Program} {stack : List Frame} {r r' r'' : Reader}

theorem reads_treeName (t : Tree) {c : Char} {rest : List Char} (hc : Ends c)
    (hstep : r.step (.name (treeName t)) = some r') (h : Reads (c :: rest) r' r'') :
    Reads ((treeName t).toList ++ c :: rest) r r'' := by
  refine Reads.word ?_ ?_ hc ?_ h
  · exact ⟨'t', _, by rw [toList_treeName]; rfl, rfl⟩
  · intro d hd
    rw [toList_treeName] at hd
    rcases List.mem_append.mp hd with hd | hd
    · have hall : "tree_".toList.all isWordChar = true := rfl
      exact List.all_eq_true.mp hall d hd
    · rw [isWordChar, Text.allDigits_toDigits t.index d hd, Bool.or_true]
  · rw [ofWord_treeName]
    exact hstep

theorem reads_function (p : Program) (f : Function) {l : String} {ls : List String}
    (hline : Reads (l.toList ++ ['\n']) ⟨p, .item, []⟩
      ⟨p, .statement, .block [] :: .body f.name f.parameters f.result :: []⟩)
    (hbody : ReadsRest ls f.body) :
    ReadsLines (l :: ls ++ ["\x7d"]) ⟨p, .item, []⟩
      ⟨{ p with functions := p.functions ++ [f] }, .item, []⟩ := by
  obtain ⟨r, hread, hclose⟩ := hbody p [] (.body f.name f.parameters f.result :: [])
  have hend : Reads ("\x7d".toList ++ ['\n']) r
      ⟨{ p with functions := p.functions ++ [f] }, .item, []⟩ := hclose.reads (reads_feed _)
  exact (readsLines_cons hline hread).append (readsLines_cons hend (readsLines_nil _))

theorem reads_treeLines (p : Program) (t : Tree) : ReadsLines (treeLines t) ⟨p, .item, []⟩
    ⟨{ p with functions := p.functions ++ [treeFunction t] }, .item, []⟩ := by
  have hstart : Reads "pub fn ".toList ⟨p, .item, []⟩ ⟨p, .functionName, []⟩ := reads_of_run rfl
  have htype : Reads ('(' :: "f: &[f64]) -> f64 \x7b\n".toList)
      ⟨p, .await (.opening .round) [] (.parameter (treeName t) []), []⟩
      ⟨p, .statement,
        .block [] :: .body (treeName t) [("f", listType "f64")] [.name "f64"] :: []⟩ :=
    reads_of_run rfl
  have hline := hstart.append (reads_treeName t (by decide) rfl htype)
  refine reads_function p (treeFunction t) ((congrArg (Reads · _ _) ?_).mp hline)
    ((Expr.ofTree t).reads_lines 1)
  simp

def sumBlock (e : Ensemble) : List Tree → Block
  | [] => .value (.name ["raw"])
  | t :: ts =>
      .add "raw" (numberTerm (e.treeClass t)) (.call (treeName t) [.name ["f"]]) (sumBlock e ts)

def zerosTerm : Term := .copies (.number "0.0f64".toList) (.name ["NUM_CLASSES"])

def sumFunction (e : Ensemble) : Function where
  name := "predict_raw"
  parameters := [("f", listType "f64")]
  result := [.opening .square, .name "f64", .semicolon, .name "NUM_CLASSES", .closing .square]
  body := .bind "raw" zerosTerm (sumBlock e e.trees)

theorem reads_addLine (e : Ensemble) (t : Tree) (p : Program) (statements : List Statement)
    (stack : List Frame) :
    Reads ((addLine e t).toList ++ ['\n']) ⟨p, .statement, .block statements :: stack⟩
      ⟨p, .statement, .block (.add "raw" (numberTerm (e.treeClass t))
        (.call (treeName t) [.name ["f"]]) :: statements) :: stack⟩ := by
  have hstart : Reads "raw[".toList ⟨p, .statement, .block statements :: stack⟩
      ⟨p, .operand, .entry (.name ["raw"]) :: .block statements :: stack⟩ := reads_of_run rfl
  have hadd : Reads (']' :: " += ".toList)
      ⟨p, .ended (numberTerm (e.treeClass t)), .entry (.name ["raw"]) :: .block statements :: stack⟩
      ⟨p, .operand, .adding "raw" (numberTerm (e.treeClass t)) :: .block statements :: stack⟩ :=
    reads_of_run rfl
  have hend : Reads ('(' :: "f);\n".toList)
      ⟨p, .ended (.name [treeName t]),
        .adding "raw" (numberTerm (e.treeClass t)) :: .block statements :: stack⟩
      ⟨p, .statement, .block (.add "raw" (numberTerm (e.treeClass t))
        (.call (treeName t) [.name ["f"]]) :: statements) :: stack⟩ := reads_of_run rfl
  have hall := hstart.append (reads_number p _ (e.treeClass t) (.inl rfl) (by decide)
    (hadd.append (reads_treeName t (by decide) rfl hend)))
  have hline := reads_indented (l := "raw[" ++ (toString (e.treeClass t) ++ ("] += " ++
    (treeName t ++ "(f);")))) 1 ((congrArg (Reads · _ _) (by simp)).mp hall)
  simpa [addLine, String.append_assoc] using hline

theorem readsRest_sums (e : Ensemble) (ts : List Tree) :
    ReadsRest (ts.map (addLine e) ++ ["    raw"]) (sumBlock e ts) := by
  induction ts with
  | nil =>
      intro p statements stack
      have hread : ReadsLines ["    raw"] ⟨p, .statement, .block statements :: stack⟩
          ⟨p, .ended (.name ["raw"]), .block statements :: stack⟩ := reads_of_run rfl
      exact ⟨_, hread, rfl⟩
  | cons t ts ih => exact ih.cons (reads_addLine e t)

theorem reads_sumLines (e : Ensemble) (p : Program) : ReadsLines (sumLines e) ⟨p, .item, []⟩
    ⟨{ p with functions := p.functions ++ [sumFunction e] }, .item, []⟩ := by
  have hline : Reads ("pub fn predict_raw(f: &[f64]) -> [f64; NUM_CLASSES] \x7b".toList ++ ['\n'])
      ⟨p, .item, []⟩
      ⟨p, .statement, .block [] ::
        .body "predict_raw" [("f", listType "f64")] (sumFunction e).result :: []⟩ :=
    reads_of_run rfl
  have hzeros : ∀ p statements stack, Reads
      ("    let mut raw = [0.0f64; NUM_CLASSES];".toList ++ ['\n'])
      ⟨p, .statement, .block statements :: stack⟩
      ⟨p, .statement, .block (.bind "raw" zerosTerm :: statements) :: stack⟩ :=
    fun p statements stack => reads_of_run rfl
  have hend : ["    raw", "\x7d"] = ["    raw"] ++ ["\x7d"] := rfl
  rw [sumLines, hend, ← List.append_assoc]
  exact reads_function p (sumFunction e) hline ((readsRest_sums e e.trees).cons hzeros)

def program (e : Ensemble) : Program where
  constants := [("NUM_CLASSES", numberTerm e.numClasses),
    ("NUM_FEATURES", numberTerm e.numFeatures), ("ZERO_THRESHOLD", zeroThresholdTerm)]
  functions := helpers ++ e.trees.map treeFunction ++ [sumFunction e]

theorem reads_blankLine (p : Program) : ReadsLines [""] ⟨p, .item, []⟩ ⟨p, .item, []⟩ :=
  reads_of_run rfl

theorem reads_trees (p : Program) (ts : List Tree) :
    ReadsLines (ts.flatMap fun t => "" :: treeLines t) ⟨p, .item, []⟩
      ⟨{ p with functions := p.functions ++ ts.map treeFunction }, .item, []⟩ := by
  induction ts generalizing p with
  | nil =>
      rw [List.map_nil, List.append_nil]
      exact readsLines_nil _
  | cons t ts ih =>
      have hrest := ih { p with functions := p.functions ++ [treeFunction t] }
      rw [List.append_assoc] at hrest
      exact ((reads_blankLine p).append (reads_treeLines p t)).append hrest

theorem reads_constantLine (p : Program) (name : String) (n : Nat)
    (hname : Reads ("pub const " ++ name ++ ": usize = ").toList ⟨p, .item, []⟩
      ⟨p, .operand, .constant name :: []⟩) :
    ReadsLines [constantLine name n] ⟨p, .item, []⟩
      ⟨{ p with constants := p.constants ++ [(name, numberTerm n)] }, .item, []⟩ := by
  have hend : Reads [';', '\n'] ⟨p, .ended (numberTerm n), .constant name :: []⟩
      ⟨{ p with constants := p.constants ++ [(name, numberTerm n)] }, .item, []⟩ := reads_of_run rfl
  have hall := hname.append (reads_number p _ n (.inl rfl) (by decide) hend)
  refine readsLines_cons ((congrArg (Reads · _ _) ?_).mp hall) (readsLines_nil _)
  simp [constantLine]

theorem reads_programLines (e : Ensemble) :
    ReadsLines (programLines e) .start ⟨program e, .item, []⟩ := by
  have hclasses := reads_constantLine {} "NUM_CLASSES" e.numClasses (reads_of_run rfl)
  have hfeatures := reads_constantLine { constants := [("NUM_CLASSES", numberTerm e.numClasses)] }
    "NUM_FEATURES" e.numFeatures (reads_of_run rfl)
  have hconstants := (reads_blankLine {}).append (hclasses.append (hfeatures.append
    (reads_blankLine _)))
  have htrees := (hconstants.append (reads_helperLines _)).append (reads_trees _ e.trees)
  exact htrees.append ((reads_blankLine _).append (reads_sumLines e _))

theorem reads_titleLines (e : Ensemble) (name : String)
    (h : ∀ l ∈ titleLines e name, '\n' ∉ l.toList ∧ '\r' ∉ l.toList) (r : Reader) :
    ReadsLines (titleLines e name) r r := by
  have hcomment : ∀ {l : String} {s : List Char}, l.toList = '/' :: '/' :: s →
      ('\n' ∉ l.toList ∧ '\r' ∉ l.toList) → Reads (l.toList ++ ['\n']) r r := by
    rintro l s hl ⟨hfeed, hreturn⟩
    have hmem : ∀ {c}, c ∈ s → c ∈ l.toList :=
      fun hc => hl ▸ List.mem_cons_of_mem _ (List.mem_cons_of_mem _ hc)
    rw [hl]
    exact reads_comment (fun hs => hfeed (hmem hs)) (fun hs => hreturn (hmem hs)) r
  have hname := h _ List.mem_cons_self
  have hobjective := h _ (List.mem_cons_of_mem _ List.mem_cons_self)
  refine readsLines_cons (hcomment (s := ?_) ?_ hname)
    (readsLines_cons (hcomment (s := ?_) ?_ hobjective) (readsLines_nil r))
  · exact "! Specialised predictor for model ".toList ++ '\x60' :: name.toList ++ ['\x60', '.']
  · simp
  · exact "! objective: ".toList ++ e.objectiveName.toList ++ ' ' :: e.objectiveConfig.toList
  · simp

end Reading

end BoostedTrees.Routine
