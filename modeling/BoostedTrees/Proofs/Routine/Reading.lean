import BoostedTrees.Proofs.Routine.Literals
import BoostedTrees.Proofs.Text.Lines

namespace BoostedTrees.Routine

open Code

def ReadsLines (ls : List String) (r r' : Reader) : Prop := Reads (Text.unlines ls).toList r r'

section Lines

variable {l : String} {ls ls' : List String} {r r' r'' : Reader}

theorem readsLines_nil (r : Reader) : ReadsLines [] r r := reads_nil r

theorem readsLines_cons (h : Reads (l.toList ++ ['\n']) r r') (hls : ReadsLines ls r' r'') :
    ReadsLines (l :: ls) r r'' := by
  rw [ReadsLines, Text.toList_unlines] at hls ⊢
  rw [List.map_cons, List.flatMap_cons]
  exact h.append hls

theorem ReadsLines.append (h : ReadsLines ls r r') (hls : ReadsLines ls' r' r'') :
    ReadsLines (ls ++ ls') r r'' := by
  rw [ReadsLines, Text.toList_unlines] at h hls ⊢
  rw [List.map_append, List.flatMap_append]
  exact h.append hls

theorem reads_indented (level : Nat) (h : Reads (l.toList ++ ['\n']) r r') :
    Reads ((indent level ++ l).toList ++ ['\n']) r r' := by
  have hspaces : ∀ c ∈ (indent level).toList, isSeparator c = true := by
    intro c hc
    rw [indent, String.toList_ofList] at hc
    rw [List.eq_of_mem_replicate hc]
    rfl
  rw [String.toList_append, List.append_assoc]
  exact (reads_separators hspaces r).append h

end Lines

def numberTerm (n : Nat) : Term := .number (Nat.toDigits 10 n)

def featureTerm (feature : Nat) : Term := .call "feature" [.name ["f"], numberTerm feature]

def orZeroTerm : Term :=
  .choice (.method (.name ["v"]) "is_nan" []) (.value (.number ['0', '.', '0']))
    (.block (.value (.name ["v"])))

def wordTerm (word : UInt64) : Term := numberTerm word.toNat

def Condition.term : Condition → Term
  | .isZero => .call "is_zero" [.name ["v"]]
  | .isNan => .method (.name ["v"]) "is_nan" []
  | .atMost threshold => .binary .le (.name ["v"]) (literalTerm threshold)
  | .member set feature =>
      .call "in_bitset"
        [.unary .refer (.items (set.words.toList.map wordTerm)), featureTerm feature]

section Reading

variable (p : Program) (stack : List Frame)

theorem reads_number {c : Char} {rest : List Char} {focus : Focus} {r : Reader} (n : Nat)
    (h : Open focus) (hc : Ends c) (hrest : Reads (c :: rest) ⟨p, .ended (numberTerm n), stack⟩ r) :
    Reads (Nat.toDigits 10 n ++ c :: rest) ⟨p, focus, stack⟩ r := by
  have hscans : ScansNumber (Nat.toDigits 10 n) :=
    scansNumber_digits (Text.allDigits_toDigits n) Nat.toDigits_ne_nil
  exact Reads.number hscans hc (step_number p stack h _) hrest

theorem reads_feature (feature : Nat) (rest : List Char) {focus : Focus} {r : Reader}
    (h : Open focus) (hrest : Reads rest ⟨p, .ended (featureTerm feature), stack⟩ r) :
    Reads ("feature(f, ".toList ++ (toString feature).toList ++ ')' :: rest) ⟨p, focus, stack⟩
      r := by
  have hcall : Reads "feature(f, ".toList ⟨p, focus, stack⟩
      ⟨p, .operand, .arguments "feature" [.name ["f"]] :: stack⟩ := by
    rcases h with rfl | rfl <;> exact reads_of_run rfl
  have hclose : Reads [')']
      ⟨p, .ended (numberTerm feature), .arguments "feature" [.name ["f"]] :: stack⟩
      ⟨p, .ended (featureTerm feature), stack⟩ := reads_of_run rfl
  rw [Nat.toString_eq_repr, Nat.toList_repr, List.append_assoc]
  exact hcall.append (reads_number p _ feature (.inl rfl) (by decide) (hclose.append hrest))

theorem reads_items (xs : List Term) (words : List Nat) :
    Reads ((", ".toList).intercalate (words.map (Nat.toDigits 10)) ++ [']'])
      ⟨p, .operand, .items xs :: stack⟩
      ⟨p, .ended (.items (xs.reverse ++ words.map numberTerm)), stack⟩ := by
  induction words generalizing xs with
  | nil =>
      rw [List.map_nil, List.map_nil, List.append_nil]
      exact reads_of_run rfl
  | cons w words ih =>
      have hnext := ih (numberTerm w :: xs)
      rw [List.reverse_cons, List.append_assoc] at hnext
      cases words with
      | nil =>
          have hclose : Reads [']'] ⟨p, .ended (numberTerm w), .items xs :: stack⟩
              ⟨p, .ended (.items (numberTerm w :: xs).reverse), stack⟩ := reads_of_run rfl
          rw [List.reverse_cons] at hclose
          rw [List.map_singleton, List.map_singleton, List.intercalate_singleton]
          exact reads_number p _ w (.inl rfl) (by decide) hclose
      | cons w' words =>
          have hcomma : Reads ", ".toList ⟨p, .ended (numberTerm w), .items xs :: stack⟩
              ⟨p, .operand, .items (numberTerm w :: xs) :: stack⟩ := reads_of_run rfl
          rw [List.map_cons, List.map_cons, List.intercalate_cons_cons, List.append_assoc,
            List.append_assoc]
          exact reads_number p _ w (.inl rfl) (by decide) (hcomma.append hnext)

theorem step_brace {z y : Term} {above : List Frame} {t : Token}
    (h : ∀ n, Reader.complete n z above = Reader.complete n y stack)
    (ht : t = .opening .curly ∨ t = .closing .curly) :
    Reader.step ⟨p, .ended z, above⟩ t = Reader.step ⟨p, .ended y, stack⟩ t := by
  rcases ht with rfl | rfl
  · change Reader.ended p z above (.opening .curly) = Reader.ended p y stack (.opening .curly)
    rw [Reader.ended, Reader.ended, h]
  · change Reader.ended p z above (.closing .curly) = Reader.ended p y stack (.closing .curly)
    rw [Reader.ended, Reader.ended, h]

theorem Condition.reads_text (c : Condition) :
    Reads ((c.text ++ " \x7b").toList ++ ['\n']) ⟨p, .operand, .condition :: stack⟩
      ⟨p, .statement, .block [] :: .onTrue c.term :: stack⟩ := by
  cases c with
  | isZero => exact reads_of_run rfl
  | isNan => exact reads_of_run rfl
  | atMost threshold =>
      have hstart : Reads "v <= ".toList ⟨p, .operand, .condition :: stack⟩
          ⟨p, .operand, .binary .le (.name ["v"]) :: .condition :: stack⟩ := reads_of_run rfl
      obtain ⟨z, above, hcomplete, hread⟩ := reads_literal threshold p
        (.binary .le (.name ["v"]) :: .condition :: stack) (.inl rfl)
      have hbrace : Reads [' ', '\x7b', '\n'] ⟨p, .ended z, above⟩
          ⟨p, .statement, .block [] :: .onTrue (Condition.atMost threshold).term :: stack⟩ := by
        refine ⟨[.opening .curly], spells_of_tokens? rfl, ?_⟩
        rw [List.foldlM_cons, step_brace p _ hcomplete (.inl rfl)]
        rfl
      rw [text, String.toList_append, String.toList_append, List.append_assoc, List.append_assoc]
      exact hstart.append (hread _ _ _ (by decide) hbrace)
  | member set feature =>
      have hstart : Reads "in_bitset(&[".toList ⟨p, .operand, .condition :: stack⟩
          ⟨p, .operand, .items [] :: .unary .refer :: .arguments "in_bitset" [] :: .condition ::
            stack⟩ := reads_of_run rfl
      have hwords := reads_items p
        (.unary .refer :: .arguments "in_bitset" [] :: .condition :: stack) []
        (set.words.toList.map UInt64.toNat)
      rw [List.map_map, List.map_map] at hwords
      have hcomma : Reads ", ".toList
          ⟨p, .ended (.items (set.words.toList.map wordTerm)),
            .unary .refer :: .arguments "in_bitset" [] :: .condition :: stack⟩
          ⟨p, .operand,
            .arguments "in_bitset" [.unary .refer (.items (set.words.toList.map wordTerm))] ::
              .condition :: stack⟩ := reads_of_run rfl
      have hbrace : Reads [')', ' ', '\x7b', '\n']
          ⟨p, .ended (featureTerm feature),
            .arguments "in_bitset" [.unary .refer (.items (set.words.toList.map wordTerm))] ::
              .condition :: stack⟩
          ⟨p, .statement, .block [] :: .onTrue (Condition.member set feature).term :: stack⟩ :=
        reads_of_run rfl
      have hall := hstart.append (hwords.append (hcomma.append
        (reads_feature p _ feature _ (.inl rfl) hbrace)))
      refine Eq.mp (congrArg (Reads · _ _) ?_) hall
      simp [text, Text.bracketed, String.toList_intercalate, Function.comp_def]

variable {p}

theorem Condition.reads_behind (c : Condition) (l : String) (r : Reader)
    (h : Reads l.toList r ⟨p, .operand, .condition :: stack⟩) :
    Reads ((l ++ (c.text ++ " \x7b")).toList ++ ['\n']) r
      ⟨p, .statement, .block [] :: .onTrue c.term :: stack⟩ := by
  rw [String.toList_append, List.append_assoc]
  exact h.append (c.reads_text p stack)

end Reading

namespace Expr

def enclosedBlock (b : Block) : Block := .value (.block b)

def block : Expr → Block
  | .number x => .value (literalTerm x)
  | .bindFeature feature body => .bind "v" (featureTerm feature) body.block
  | .bindOrZero body => .bind "v" orZeroTerm body.block
  | .ifElse condition onTrue onFalse =>
      .value (.choice condition.term (enclosedBlock onTrue.block)
        (.block (enclosedBlock onFalse.block)))
  | .ifElseIf first onFirst second onSecond onNeither =>
      .value (.choice first.term onFirst.block
        (.choice second.term (enclosedBlock onSecond.block)
          (.block (enclosedBlock onNeither.block))))

end Expr

def Closes (r : Reader) (p : Program) (b : Block) (stack : List Frame) : Prop :=
  r.step (.closing .curly) = some (Reader.closeBlock p b stack)

def ReadsRest (ls : List String) (b : Block) : Prop :=
  ∀ p statements stack, ∃ r, ReadsLines ls ⟨p, .statement, .block statements :: stack⟩ r ∧
    Closes r p (b.behind statements) stack

section Blocks

variable {p : Program} {stack : List Frame} {ls ls' : List String} {b b' : Block} {r r' : Reader}

theorem Closes.reads (h : Closes r p b stack) {rest : List Char}
    (hrest : Reads rest (Reader.closeBlock p b stack) r') : Reads ('\x7d' :: rest) r r' := by
  have hbrace : Reads ['\x7d'] r (Reader.closeBlock p b stack) := by
    refine ⟨[.closing .curly], spells_of_tokens? rfl, ?_⟩
    rw [List.foldlM_cons, h]
    rfl
  exact hbrace.append hrest

theorem readsRest_number (level : Nat) (x : Float) :
    ReadsRest [indent level ++ literal x] (.value (literalTerm x)) := by
  intro p statements stack
  obtain ⟨z, above, hcomplete, hread⟩ := reads_literal x p (.block statements :: stack) (.inr rfl)
  refine ⟨⟨p, .ended z, above⟩, ?_, ?_⟩
  · exact readsLines_cons (reads_indented level
      (hread _ _ _ (by decide) (reads_feed _))) (readsLines_nil _)
  · rw [Closes, step_brace p _ hcomplete (.inr rfl)]
    rfl

theorem ReadsRest.cons {l : String} {statement : Statement} (h : ReadsRest ls b)
    (hline : ∀ p statements stack, Reads (l.toList ++ ['\n'])
      ⟨p, .statement, .block statements :: stack⟩
      ⟨p, .statement, .block (statement :: statements) :: stack⟩) :
    ReadsRest (l :: ls) (statement.before b) := by
  intro p statements stack
  obtain ⟨r, hread, hclose⟩ := h p (statement :: statements) stack
  exact ⟨r, readsLines_cons (hline p statements stack) hread, hclose⟩

theorem ReadsRest.enclosed (level : Nat) (h : ReadsRest ls b) (p : Program)
    (statements : List Statement) (stack : List Frame) :
    ReadsLines (enclosed level ls) ⟨p, .statement, .block statements :: stack⟩
      ⟨p, .closed (.block b), .block statements :: stack⟩ := by
  obtain ⟨r, hread, hclose⟩ := h p [] (.statement :: .block statements :: stack)
  have hopen : Reads ['\x7b', '\n'] ⟨p, .statement, .block statements :: stack⟩
      ⟨p, .statement, .block [] :: .statement :: .block statements :: stack⟩ := reads_of_run rfl
  have hline := hclose.reads (reads_feed _)
  exact readsLines_cons (reads_indented (level + 1) hopen) (hread.append
    (readsLines_cons (reads_indented (level + 1) hline) (readsLines_nil _)))

def sideLines (level : Nat) (onTrue onFalse : List String) : List String :=
  enclosed level onTrue ++ (indent level ++ "\x7d else \x7b") :: enclosed level onFalse ++
    [indent level ++ "\x7d"]

theorem reads_sides (level : Nat) (h : ReadsRest ls b) (h' : ReadsRest ls' b') (p : Program)
    (condition : Term) (stack : List Frame) :
    ReadsLines (sideLines level ls ls') ⟨p, .statement, .block [] :: .onTrue condition :: stack⟩
      (Reader.finish p (.choice condition (Expr.enclosedBlock b) (.block (Expr.enclosedBlock b')))
        stack) := by
  have helse : Reads "\x7d else \x7b\n".toList
      ⟨p, .closed (.block b), .block [] :: .onTrue condition :: stack⟩
      ⟨p, .statement, .block [] :: .onFalse condition (Expr.enclosedBlock b) :: stack⟩ :=
    reads_of_run rfl
  have hlast : Reads "\x7d\n".toList
      ⟨p, .closed (.block b'), .block [] :: .onFalse condition (Expr.enclosedBlock b) :: stack⟩
      (Reader.finish p (.choice condition (Expr.enclosedBlock b)
        (.block (Expr.enclosedBlock b'))) stack) := reads_of_run rfl
  rw [sideLines, List.append_assoc]
  exact (h.enclosed level p [] (.onTrue condition :: stack)).append
    (readsLines_cons (reads_indented level helse)
      ((h'.enclosed level p [] (.onFalse condition (Expr.enclosedBlock b) :: stack)).append
        (readsLines_cons (reads_indented level hlast) (readsLines_nil _))))

theorem closes_choice (p : Program) (x : Term) (statements : List Statement) (stack : List Frame) :
    Closes ⟨p, .closed x, .block statements :: stack⟩ p ((Block.value x).behind statements) stack :=
  rfl

end Blocks

namespace Expr

theorem reads_bindFeature (feature : Nat) (p : Program) (statements : List Statement)
    (stack : List Frame) :
    Reads (("let v = feature(f, " ++ (toString feature ++ ");")).toList ++ ['\n'])
      ⟨p, .statement, .block statements :: stack⟩
      ⟨p, .statement, .block (.bind "v" (featureTerm feature) :: statements) :: stack⟩ := by
  have hlet : Reads "let v = ".toList ⟨p, .statement, .block statements :: stack⟩
      ⟨p, .operand, .binding "v" :: .block statements :: stack⟩ := reads_of_run rfl
  have hend : Reads [';', '\n']
      ⟨p, .ended (featureTerm feature), .binding "v" :: .block statements :: stack⟩
      ⟨p, .statement, .block (.bind "v" (featureTerm feature) :: statements) :: stack⟩ :=
    reads_of_run rfl
  have hall := hlet.append (reads_feature p _ feature _ (.inl rfl) hend)
  refine (congrArg (Reads · _ _) ?_).mp hall
  simp

theorem reads_bindOrZero (p : Program) (statements : List Statement) (stack : List Frame) :
    Reads ("let v = if v.is_nan() \x7b 0.0 \x7d else \x7b v \x7d;".toList ++ ['\n'])
      ⟨p, .statement, .block statements :: stack⟩
      ⟨p, .statement, .block (.bind "v" orZeroTerm :: statements) :: stack⟩ :=
  reads_of_run rfl

theorem lines_ifElse (level : Nat) (condition : Condition) (onTrue onFalse : Expr) :
    (ifElse condition onTrue onFalse).lines level =
      (indent level ++ ("if " ++ (condition.text ++ " \x7b"))) ::
        sideLines level (onTrue.lines (level + 2)) (onFalse.lines (level + 2)) := by
  simp [lines, sideLines, String.append_assoc]

theorem lines_ifElseIf (level : Nat) (first second : Condition)
    (onFirst onSecond onNeither : Expr) :
    (ifElseIf first onFirst second onSecond onNeither).lines level =
      (indent level ++ ("if " ++ (first.text ++ " \x7b"))) ::
        (onFirst.lines (level + 1) ++
          (indent level ++ ("\x7d else if " ++ (second.text ++ " \x7b"))) ::
            sideLines level (onSecond.lines (level + 2)) (onNeither.lines (level + 2))) := by
  simp [lines, sideLines, String.append_assoc]

theorem reads_lines (e : Expr) (level : Nat) : ReadsRest (e.lines level) e.block := by
  -- sides are indented more deeply than the choice that they belong to
  induction e generalizing level with
  | number x => exact readsRest_number level x
  | bindFeature feature body ih =>
      rw [lines, String.append_assoc, String.append_assoc]
      exact (ih level).cons fun p statements stack =>
        reads_indented level (reads_bindFeature feature p statements stack)
  | bindOrZero body ih =>
      exact (ih level).cons fun p statements stack =>
        reads_indented level (reads_bindOrZero p statements stack)
  | ifElse condition onTrue onFalse ihTrue ihFalse =>
      intro p statements stack
      have hline := condition.reads_behind (.statement :: .block statements :: stack) "if "
        ⟨p, .statement, .block statements :: stack⟩ (reads_of_run rfl)
      have hsides := reads_sides level (ihTrue (level + 2)) (ihFalse (level + 2)) p condition.term
        (.statement :: .block statements :: stack)
      refine ⟨_, ?_, closes_choice p _ statements stack⟩
      rw [lines_ifElse]
      exact readsLines_cons (reads_indented level hline) hsides
  | ifElseIf first onFirst second onSecond onNeither ihFirst ihSecond ihNeither =>
      intro p statements stack
      have hline := first.reads_behind (.statement :: .block statements :: stack) "if "
        ⟨p, .statement, .block statements :: stack⟩ (reads_of_run rfl)
      obtain ⟨r, hfirst, hclose⟩ := ihFirst (level + 1) p []
        (.onTrue first.term :: .statement :: .block statements :: stack)
      have hmiddle := second.reads_behind
        (.onFalse first.term onFirst.block :: .statement :: .block statements :: stack)
        "\x7d else if " r (hclose.reads (reads_of_run rfl))
      have hsides := reads_sides level (ihSecond (level + 2)) (ihNeither (level + 2)) p second.term
        (.onFalse first.term onFirst.block :: .statement :: .block statements :: stack)
      refine ⟨_, ?_, closes_choice p _ statements stack⟩
      rw [lines_ifElseIf]
      exact readsLines_cons (reads_indented level hline)
        (hfirst.append (readsLines_cons (reads_indented level hmiddle) hsides))

end Expr

end BoostedTrees.Routine
