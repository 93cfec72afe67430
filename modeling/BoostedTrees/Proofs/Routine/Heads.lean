import BoostedTrees.Proofs.Routine.Reading
import BoostedTrees.Proofs.Tree.Doublings

namespace BoostedTrees.Routine

inductive Head where
  | number (x : Float)
  | test (condition : Condition)

inductive HeadKind where
  | number
  | test
  deriving DecidableEq

namespace Head

def kind : Head → HeadKind
  | .number _ => .number
  | .test _ => .test

def ofNode (store : CategorySet) : Node → Head
  | .leaf value => .number value
  | .split _ (.numeric threshold _ _) _ _ => .test (.atMost threshold)
  | .split feature (.categorical range) _ _ => .test (.member (store.slice range) feature)

def at? (store : CategorySet) (n : Node) (path : List Direction) : Option Head :=
  (n.at? path).map (ofNode store)

end Head

namespace Expr

def heads : Expr → List Head
  | .number x => [.number x]
  | .bindFeature _ body => body.heads
  | .bindOrZero body => body.heads
  | .ifElse condition onTrue onFalse => .test condition :: (onTrue.heads ++ onFalse.heads)
  | .ifElseIf _ onFirst second onSecond onNeither =>
      onFirst.heads ++ .test second :: (onSecond.heads ++ onNeither.heads)

theorem heads_ofTest (store : CategorySet) (feature : Nat) (test : SplitTest) (l r : Expr)
    (left right : Node) : (ofTest store feature l r test).heads =
      test.again l.heads r.heads ++
        Head.ofNode store (.split feature test left right) :: (l.heads ++ r.heads) := by
  rcases test with ⟨threshold, _ | _ | _, _ | _⟩ | range <;> rfl

theorem heads_ofNode (store : CategorySet) (n : Node) :
    (ofNode store n).heads.map some = n.written.map (Head.at? store n) := by
  induction n with
  | leaf value => rfl
  | split feature test l r ihl ihr =>
      rw [ofNode, heads_ofTest store feature test _ _ l r, List.map_append, List.map_cons,
        List.map_append, SplitTest.map_again, ihl, ihr, Node.written, List.map_append,
        List.map_cons, List.map_append, SplitTest.map_again, List.map_map, List.map_map]
      rfl

end Expr

def testStarts : List String := ["if v <= ", "\x7d else if v <= ", "if in_bitset("]

def endsInNumber (line : List Char) : Bool :=
  line.getLast?.any fun c => !(['\x7b', '\x7d', ';'].contains c)

def startsTest (line : List Char) : Bool :=
  testStarts.any fun start => start.toList.isPrefixOf line

def kindOfChars? (line : List Char) : Option HeadKind :=
  if endsInNumber line then some .number
  else if startsTest line then some .test
  else none

def lineKind? (line : String) : Option HeadKind :=
  kindOfChars? (line.toList.dropWhile (· == ' '))

theorem lineKind?_indent (level : Nat) (line : String) :
    lineKind? (indent level ++ line) = lineKind? line := by
  rw [lineKind?, lineKind?, String.toList_append, indent, String.toList_ofList,
    List.dropWhile_append_of_pos fun c hc => by simp [List.eq_of_mem_replicate hc]]

theorem lineKind?_closed (start text finish : String)
    (hstart : start.toList.dropWhile (· == ' ') = start.toList) (hne : start.toList ≠ [])
    (hfinish : finish.toList ≠ []) (hends : endsInNumber finish.toList = false) :
    lineKind? (start ++ (text ++ finish)) =
      if startsTest (start.toList ++ (text.toList ++ finish.toList)) then some .test else none := by
  have hdrop : (start ++ (text ++ finish)).toList.dropWhile (· == ' ') =
      start.toList ++ (text.toList ++ finish.toList) := by
    rw [String.toList_append, String.toList_append, List.dropWhile_append, hstart,
      if_neg (by simpa using hne)]
  have hends : endsInNumber (start.toList ++ (text.toList ++ finish.toList)) = false := by
    rw [endsInNumber, ← List.append_assoc, List.getLast?_append_of_ne_nil _ hfinish]
    exact hends
  rw [lineKind?, hdrop, kindOfChars?, hends]
  rfl

theorem lineKind?_bindFeature (feature : Nat) :
    lineKind? ("let v = feature(f, " ++ (toString feature ++ ");")) = none := by
  rw [lineKind?_closed _ _ _ rfl (by decide) (by decide) (by decide)]
  rfl

theorem lineKind?_atMost (threshold : Float) :
    lineKind? ("if " ++ ((Condition.atMost threshold).text ++ " \x7b")) = some .test := by
  rw [lineKind?_closed _ _ _ rfl (by decide) (by decide) (by decide), Condition.text,
    String.toList_append]
  rfl

theorem lineKind?_elseAtMost (threshold : Float) :
    lineKind? ("\x7d else if " ++ ((Condition.atMost threshold).text ++ " \x7b")) = some .test := by
  rw [lineKind?_closed _ _ _ rfl (by decide) (by decide) (by decide), Condition.text,
    String.toList_append]
  rfl

theorem lineKind?_member (set : CategorySet) (feature : Nat) :
    lineKind? ("if " ++ ((Condition.member set feature).text ++ " \x7b")) = some .test := by
  rw [lineKind?_closed _ _ _ rfl (by decide) (by decide) (by decide), Condition.text]
  simp only [String.toList_append, List.append_assoc]
  rfl

def isPlain (c : Char) : Bool := !([' ', '\x7b', '\x7d', ';'].contains c)

theorem isPlain_of_isNumberChar {c : Char} (h : Code.isNumberChar c = true) : isPlain c = true := by
  rw [isPlain, Bool.not_eq_true', Bool.eq_false_iff]
  intro hother
  simp only [List.contains_eq_mem, List.mem_cons, List.not_mem_nil, or_false,
    decide_eq_true_eq] at hother
  rcases hother with rfl | rfl | rfl | rfl <;> exact absurd h (by decide)

theorem lineKind?_plain {line : String} (hne : line.toList ≠ [])
    (h : ∀ c ∈ line.toList, isPlain c = true) : lineKind? line = some .number := by
  have hdrop : line.toList.dropWhile (· == ' ') = line.toList := by
    rw [List.dropWhile_eq_self_iff]
    intro hlength hblank
    have hfirst := h _ (List.getElem_mem hlength)
    rw [eq_of_beq hblank] at hfirst
    exact absurd hfirst (by decide)
  have hends : endsInNumber line.toList = true := by
    rw [endsInNumber, List.getLast?_eq_some_getLast hne, Option.any_some]
    have hlast := h _ (List.getLast_mem hne)
    simp only [isPlain, List.contains_cons, Bool.not_or, Bool.and_eq_true] at hlast ⊢
    exact hlast.2
  rw [lineKind?, hdrop, kindOfChars?, hends, if_pos rfl]

theorem lineKind?_literal (x : Float) : lineKind? (literal x) = some .number := by
  have hnumber : ∀ {x : Float}, Binary64.magnitude x.toBits < Binary64.infinityMagnitude →
      numberText x ≠ [] ∧ ∀ c ∈ numberText x, isPlain c = true := by
    intro x hm
    obtain ⟨-, d, s, hs, -⟩ := Binary64.magnitude?_chars hm Binary64.markedStyle
    exact ⟨fun h => absurd (hs.symm.trans h) (List.cons_ne_nil d s),
      fun c hc => isPlain_of_isNumberChar ((markedNumeral_chars hm).isNumberChar c hc)⟩
  have hplain : (literal x).toList ≠ [] ∧ ∀ c ∈ (literal x).toList, isPlain c = true := by
    have hwrites := writes_literal x
    generalize (literal x).toList = text, literalTerm x = y at hwrites ⊢
    cases hwrites with
    | nan => exact ⟨List.cons_ne_nil _ _, List.all_eq_true.mp rfl⟩
    | infinity => exact ⟨List.cons_ne_nil _ _, List.all_eq_true.mp rfl⟩
    | negInfinity => exact ⟨List.cons_ne_nil _ _, List.all_eq_true.mp rfl⟩
    | positive hm _ => exact hnumber hm
    | negative hm _ =>
        exact ⟨List.cons_ne_nil _ _, List.forall_mem_cons.mpr ⟨rfl, (hnumber hm).2⟩⟩
  exact lineKind?_plain hplain.1 hplain.2

def kinds (lines : List String) : List HeadKind := lines.filterMap lineKind?

theorem kinds_append (xs ys : List String) : kinds (xs ++ ys) = kinds xs ++ kinds ys :=
  List.filterMap_append

theorem kinds_cons_none {line : String} (level : Nat) (lines : List String)
    (h : lineKind? line = none) : kinds ((indent level ++ line) :: lines) = kinds lines :=
  List.filterMap_cons_none ((lineKind?_indent level line).trans h)

theorem kinds_cons_some {line : String} {kind : HeadKind} (level : Nat) (lines : List String)
    (h : lineKind? line = some kind) :
    kinds ((indent level ++ line) :: lines) = kind :: kinds lines :=
  List.filterMap_cons_some ((lineKind?_indent level line).trans h)

theorem kinds_enclosed (level : Nat) (lines : List String) :
    kinds (enclosed level lines) = kinds lines := by
  rw [enclosed, List.cons_append, kinds_cons_none _ _ rfl, kinds_append, kinds_cons_none _ _ rfl]
  exact List.append_nil _

namespace Expr

theorem kinds_sideLines (level : Nat) (onTrue onFalse : List String) :
    kinds (sideLines level onTrue onFalse) = kinds onTrue ++ kinds onFalse := by
  rw [sideLines, List.append_assoc, List.cons_append, kinds_append, kinds_cons_none _ _ rfl,
    kinds_append, kinds_enclosed, kinds_enclosed, kinds_cons_none _ _ rfl]
  exact congrArg (_ ++ ·) (List.append_nil _)

theorem kinds_ifElse (level : Nat) {condition : Condition} (onTrue onFalse : Expr)
    (h : lineKind? ("if " ++ (condition.text ++ " \x7b")) = some .test) :
    kinds ((ifElse condition onTrue onFalse).lines level) =
      .test :: (kinds (onTrue.lines (level + 2)) ++ kinds (onFalse.lines (level + 2))) := by
  rw [lines_ifElse, kinds_cons_some _ _ h, kinds_sideLines]

theorem kinds_ifElseIf (level : Nat) {first second : Condition} (onFirst onSecond onNeither : Expr)
    (hfirst : lineKind? ("if " ++ (first.text ++ " \x7b")) = none)
    (hsecond : lineKind? ("\x7d else if " ++ (second.text ++ " \x7b")) = some .test) :
    kinds ((ifElseIf first onFirst second onSecond onNeither).lines level) =
      kinds (onFirst.lines (level + 1)) ++
        .test :: (kinds (onSecond.lines (level + 2)) ++ kinds (onNeither.lines (level + 2))) := by
  rw [lines_ifElseIf, kinds_cons_none _ _ hfirst, kinds_append, kinds_cons_some _ _ hsecond,
    kinds_sideLines]

theorem kinds_bindFeature (level feature : Nat) (body : Expr) :
    kinds ((bindFeature feature body).lines level) = kinds (body.lines level) := by
  rw [lines, String.append_assoc, String.append_assoc,
    kinds_cons_none _ _ (lineKind?_bindFeature feature)]

theorem kinds_bindOrZero (level : Nat) (body : Expr) :
    kinds ((bindOrZero body).lines level) = kinds (body.lines level) := by
  rw [lines, kinds_cons_none _ _ rfl]

theorem kinds_lines_ofNode (store : CategorySet) (n : Node) (level : Nat) :
    kinds ((ofNode store n).lines level) = (ofNode store n).heads.map Head.kind := by
  -- the two copies of a side stand at different levels
  induction n generalizing level with
  | leaf value => exact kinds_cons_some level [] (lineKind?_literal value)
  | split feature test l r ihl ihr =>
      have hside : ∀ direction level,
          kinds ((side (ofNode store l) (ofNode store r) direction).lines level) =
            (side (ofNode store l) (ofNode store r) direction).heads.map Head.kind := by
        intro direction level
        cases direction with
        | left => exact ihl level
        | right => exact ihr level
      rw [ofNode]
      rcases test with ⟨threshold, _ | _ | _, fallback⟩ | range
      · rw [ofTest, kinds_bindFeature, kinds_bindOrZero,
          kinds_ifElse _ _ _ (lineKind?_atMost threshold), ihl, ihr, heads, heads, heads,
          List.map_cons, List.map_append, Head.kind]
      · rw [ofTest, kinds_bindFeature, kinds_bindOrZero,
          kinds_ifElseIf _ _ _ _ rfl (lineKind?_elseAtMost threshold), ihl, ihr, hside, heads,
          heads, heads, List.map_append, List.map_cons, List.map_append, Head.kind]
      · rw [ofTest, kinds_bindFeature,
          kinds_ifElseIf _ _ _ _ rfl (lineKind?_elseAtMost threshold), ihl, ihr, hside, heads,
          heads, List.map_append, List.map_cons, List.map_append, Head.kind]
      · rw [ofTest, kinds_ifElse _ _ _ (lineKind?_member _ feature), ihl, ihr, heads,
          List.map_cons, List.map_append, Head.kind]

end Expr

theorem kinds_treeLines (t : Tree) :
    kinds (treeLines t) = (Expr.ofTree t).heads.map Head.kind := by
  have hfirst : lineKind? ("pub fn " ++ (treeName t ++ "(f: &[f64]) -> f64 \x7b")) = none := by
    rw [lineKind?_closed _ _ _ rfl (by decide) (by decide) (by decide)]
    rfl
  have hlast : kinds ["\x7d"] = [] := rfl
  rw [treeLines, String.append_assoc, kinds_append, hlast, List.append_nil, kinds,
    List.filterMap_cons_none hfirst]
  exact Expr.kinds_lines_ofNode t.categories t.root 1

end BoostedTrees.Routine
