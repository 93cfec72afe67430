import BoostedTrees.Tree.Compiled

namespace BoostedTrees

def NodeLabel.rangeOutside? (store : CategorySet) : NodeLabel → Option CategoryRange
  | .split _ (.categorical range) => if store.Inside range then none else some range
  | _ => none

theorem foldl_first {α β : Type} (f : α → Option β) (found : Option β) (xs : List α) :
    xs.foldl (fun found x => found.or (f x)) found = found.or (xs.findSome? f) := by
  induction xs generalizing found with
  | nil => simp
  | cons x xs ih =>
      rw [List.foldl_cons, ih, List.findSome?_cons]
      cases found <;> cases hx : f x <;> simp

theorem Tree.rangeOutside?_eq (t : Tree) :
    t.rangeOutside? = (t.root.labels 0).findSome? fun p => p.2.rangeOutside? t.categories := by
  have hfirst := foldl_first (fun p : Nat × NodeLabel => p.2.rangeOutside? t.categories) none
    (t.root.labels 0)
  rw [Option.none_or] at hfirst
  rw [Tree.rangeOutside?, Node.visit_eq_foldl, ← hfirst]
  congr 1
  funext found p
  obtain ⟨depth, label⟩ := p
  rcases found with _ | range
  · rcases label with _ | ⟨feature, _ | _⟩ <;> rfl
  · rfl

namespace Node

def Inside (store : CategorySet) : Node → Prop
  | .leaf _ => True
  | .split _ test l r =>
      (∀ range, test = .categorical range → store.Inside range) ∧ l.Inside store ∧ r.Inside store

theorem findSome?_labels (store : CategorySet) (n : Node) (depth : Nat) :
    ((n.labels depth).findSome? fun p => p.2.rangeOutside? store) = none ↔ n.Inside store := by
  induction n generalizing depth with
  | leaf value => simp [labels, NodeLabel.rangeOutside?, Inside]
  | split feature test l r ihl ihr =>
      have htest : (NodeLabel.split feature test).rangeOutside? store = none ↔
          ∀ range, test = .categorical range → store.Inside range := by
        cases test with
        | numeric threshold missing fallback => simp [NodeLabel.rangeOutside?]
        | categorical range => simp [NodeLabel.rangeOutside?]
      rw [labels, List.cons_append, List.findSome?_cons, Inside, ← htest, ← ihl (depth + 1),
        ← ihr (depth + 1)]
      cases (NodeLabel.split feature test).rangeOutside? store with
      | some range => simp
      | none => simp [List.findSome?_append, Option.or_eq_none_iff]

theorem eval?_of_inside {store : CategorySet} {n : Node} (h : n.Inside store) (row : Row) :
    n.eval? store row = some (n.eval store row) := by
  induction n with
  | leaf value => rfl
  | split feature test l r ihl ihr =>
      obtain ⟨htest, hl, hr⟩ := h
      have hdirection : test.direction? store (row.feature feature) =
          some (test.direction store (row.feature feature)) := by
        cases test with
        | numeric threshold missing fallback => rfl
        | categorical range =>
            have hinside := htest range rfl
            simp [SplitTest.direction?, SplitTest.direction, CategorySet.slice?, hinside]
      rw [eval?, eval, hdirection, Option.bind_some, ihl hl, ihr hr]
      split <;> rfl

end Node

namespace Tree

theorem rangeOutside?_eq_none {t : Tree} :
    t.rangeOutside? = none ↔ t.root.Inside t.categories := by
  rw [rangeOutside?_eq, Node.findSome?_labels]

theorem eval?_eq_eval {t : Tree} (h : t.rangeOutside? = none) (row : Row) :
    t.eval? row = some (t.eval row) :=
  Node.eval?_of_inside (rangeOutside?_eq_none.mp h) row

theorem compile?_eq_compile {t : Tree} (h : t.rangeOutside? = none) (limits : CompileLimits) :
    t.compile? limits = some (t.compile limits) := by
  unfold compile?
  cases hc : t.compile limits with
  | error e => rfl
  | ok node => simp [h]

end Tree

end BoostedTrees
