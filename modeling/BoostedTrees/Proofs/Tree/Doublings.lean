import BoostedTrees.Proofs.Tree.Paths
import Mathlib.Algebra.BigOperators.Ring.List
import Mathlib.Algebra.Order.BigOperators.Group.List
import Mathlib.Algebra.Order.Ring.Nat
import Mathlib.Data.List.Count
import Mathlib.Tactic.Ring

namespace BoostedTrees

namespace SplitTest

def repeated? : SplitTest → Option Direction
  | .numeric _ .zero fallback => some fallback
  | .numeric _ .nan fallback => some fallback
  | _ => none

def repeats (test : SplitTest) (direction : Direction) : Nat :=
  if test.repeated? = some direction then 1 else 0

def again {α : Type} (test : SplitTest) (l r : List α) : List α :=
  match test.repeated? with
  | none => []
  | some .left => l
  | some .right => r

variable {α : Type} (test : SplitTest) (l r : List α)

theorem length_again : (test.again l r).length =
    test.repeats .left * l.length + test.repeats .right * r.length := by
  rcases h : test.repeated? with _ | _ | _ <;> simp [again, repeats, h]

theorem count_again [BEq α] (a : α) : (test.again l r).count a =
    test.repeats .left * l.count a + test.repeats .right * r.count a := by
  rcases h : test.repeated? with _ | _ | _ <;> simp [again, repeats, h]

theorem mem_again {a : α} (h : a ∈ test.again l r) : a ∈ l ∨ a ∈ r := by
  unfold again at h
  split at h
  · exact absurd h List.not_mem_nil
  · exact .inl h
  · exact .inr h

theorem map_again {β : Type} (f : α → β) :
    (test.again l r).map f = test.again (l.map f) (r.map f) := by
  rcases h : test.repeated? with _ | _ | _ <;> simp [again, h]

theorem two_pow_repeats (direction : Direction) :
    2 ^ test.repeats direction = test.repeats direction + 1 := by
  unfold repeats
  split <;> rfl

end SplitTest

namespace Node

def written : Node → List (List Direction)
  | .leaf _ => [[]]
  | .split _ test l r =>
      let left := l.written.map (.left :: ·)
      let right := r.written.map (.right :: ·)
      test.again left right ++ [] :: (left ++ right)

def doublings : Node → List Direction → Nat
  | .split _ test l _, .left :: path => test.repeats .left + l.doublings path
  | .split _ test _ r, .right :: path => test.repeats .right + r.doublings path
  | _, _ => 0

variable {n : Node} {path : List Direction}

theorem count_map_cons (xs : List (List Direction)) (d d' : Direction) (path : List Direction) :
    (xs.map (d :: ·)).count (d' :: path) = if d = d' then xs.count path else 0 := by
  by_cases h : d = d'
  · subst h
    rw [if_pos rfl]
    exact List.count_map_of_injective xs _ (List.cons_injective) path
  · rw [if_neg h, List.count_eq_zero]
    simp [h]

theorem count_map_nil (xs : List (List Direction)) (d : Direction) :
    (xs.map (d :: ·)).count [] = 0 := by
  simp [List.count_eq_zero]

theorem count_written (h : path ∈ n.paths) : n.written.count path = 2 ^ n.doublings path := by
  induction n generalizing path with
  | leaf value =>
      obtain rfl : path = [] := by simpa [paths] using h
      rfl
  | split feature test l r ihl ihr =>
      -- a path into a side is found behind the comparison, and in the copy if the side has one
      rw [paths, List.mem_cons, List.mem_append] at h
      rcases h with rfl | h | h
      · simp [written, doublings, SplitTest.count_again, count_map_nil]
      · obtain ⟨path, hpath, rfl⟩ := List.mem_map.mp h
        rw [doublings, pow_add, test.two_pow_repeats, ← ihl hpath]
        simp [written, SplitTest.count_again, count_map_cons]
        ring
      · obtain ⟨path, hpath, rfl⟩ := List.mem_map.mp h
        rw [doublings, pow_add, test.two_pow_repeats, ← ihr hpath]
        simp [written, SplitTest.count_again, count_map_cons]
        ring

theorem mem_paths_of_mem_written (h : path ∈ n.written) : path ∈ n.paths := by
  induction n generalizing path with
  | leaf value => exact h
  | split feature test l r ihl ihr =>
      have hsides : path ∈ l.written.map (.left :: ·) ∨ path ∈ r.written.map (.right :: ·) →
          path ∈ (split feature test l r).paths := by
        rintro (h | h)
        · obtain ⟨path, hpath, rfl⟩ := List.mem_map.mp h
          exact List.mem_cons_of_mem _ (List.mem_append_left _ (List.mem_map_of_mem (ihl hpath)))
        · obtain ⟨path, hpath, rfl⟩ := List.mem_map.mp h
          exact List.mem_cons_of_mem _ (List.mem_append_right _ (List.mem_map_of_mem (ihr hpath)))
      simp only [written, List.mem_cons, List.mem_append] at h
      rcases h with h | rfl | h
      · exact hsides (test.mem_again _ _ h)
      · exact List.mem_cons_self
      · exact hsides h

theorem length_written (n : Node) :
    n.written.length = (n.paths.map fun path => 2 ^ n.doublings path).sum := by
  induction n with
  | leaf value => rfl
  | split feature test l r ihl ihr =>
      simp only [written, paths, List.length_cons, List.length_append, SplitTest.length_again,
        List.length_map, List.map_cons, List.map_append, List.map_map, List.sum_cons,
        List.sum_append, Function.comp_def, doublings, pow_add, List.sum_map_mul_left, ← ihl, ← ihr,
        test.two_pow_repeats, pow_zero]
      ring

theorem doublings_le_height (n : Node) (path : List Direction) : n.doublings path ≤ n.height := by
  have hrepeats : ∀ (test : SplitTest) direction, test.repeats direction ≤ 1 := by
    intro test direction
    unfold SplitTest.repeats
    split <;> omega
  induction n generalizing path with
  | leaf value => simp [doublings]
  | split feature test l r ihl ihr =>
      rcases path with _ | ⟨_ | _, path⟩
      · exact Nat.zero_le _
      · have := ihl path
        have := hrepeats test .left
        simp only [doublings, height]
        omega
      · have := ihr path
        have := hrepeats test .right
        simp only [doublings, height]
        omega

theorem length_written_le {k : Nat} (h : ∀ path ∈ n.paths, n.doublings path ≤ k) :
    n.written.length ≤ 2 ^ k * n.size := by
  have hle : ∀ m ∈ n.paths.map fun path => 2 ^ n.doublings path, m ≤ 2 ^ k := by
    intro m hm
    obtain ⟨path, hpath, rfl⟩ := List.mem_map.mp hm
    exact Nat.pow_le_pow_right Nat.two_pos (h path hpath)
  have hsum := List.sum_le_card_nsmul _ _ hle
  rw [List.length_map, length_paths, Nat.nsmul_eq_mul, ← length_written] at hsum
  rwa [Nat.mul_comm]

theorem size_le_length_written (n : Node) : n.size ≤ n.written.length := by
  have hone : ∀ m ∈ n.paths.map fun path => 2 ^ n.doublings path, 1 ≤ m := by
    intro m hm
    obtain ⟨path, -, rfl⟩ := List.mem_map.mp hm
    exact Nat.one_le_two_pow
  have hsum := List.card_nsmul_le_sum _ _ hone
  rwa [List.length_map, length_paths, Nat.nsmul_eq_mul, Nat.mul_one, ← length_written] at hsum

end Node

end BoostedTrees
