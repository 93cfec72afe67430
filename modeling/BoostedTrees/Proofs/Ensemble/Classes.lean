import BoostedTrees.Ensemble.Executor
import Mathlib.Data.Int.CardIntervalMod
import Mathlib.Data.List.Perm.Basic

namespace BoostedTrees

namespace Ensemble

theorem foldl_addTo (entries : List (Nat × Float)) (slots : Array Float) (c : Nat) :
    (entries.foldl addTo slots)[c]? =
      slots[c]?.map fun start =>
        ((entries.filter fun p => p.1 == c).map Prod.snd).foldl (· + ·) start := by
  induction entries generalizing slots with
  | nil => simp
  | cons entry entries ih =>
      rw [List.foldl_cons, ih, addTo, Array.getElem?_modify, List.filter_cons]
      by_cases h : entry.1 = c
      · rw [if_pos h, if_pos (beq_iff_eq.mpr h), Option.map_map]
        rfl
      · rw [if_neg h, if_neg (by simpa using h)]

def treesOfClass (e : Ensemble) (c : Nat) : List Tree :=
  ((e.trees.zip e.treeClasses).filter fun p => p.2 == c).map Prod.fst

variable (e : Ensemble)

theorem treesOfClass_eq (c : Nat) :
    e.treesOfClass c = e.trees.filter fun t => e.treeClass t == c := by
  rw [treesOfClass, treeClasses]
  induction e.trees with
  | nil => rfl
  | cons t ts ih =>
      rw [List.map_cons, List.zip_cons_cons, List.filter_cons, List.filter_cons]
      cases h : e.treeClass t == c with
      | true => simp only [if_true, List.map_cons, ih]
      | false => simpa using ih

theorem sumsInto?_slot (row : Row) {buffer : Array Float} (hsize : buffer.size = e.numClasses)
    {c : Nat} (hc : c < e.numClasses) :
    ∃ slots, e.sumsInto? .interpreted row buffer = some slots ∧
      slots[c]? =
        some (((e.treesOfClass c).map fun t => t.eval row).foldl (· + ·) Binary64.zero) := by
  refine ⟨_, if_pos hsize, ?_⟩
  rw [foldl_addTo, Array.getElem?_map, Array.getElem?_eq_getElem (hsize ▸ hc), Option.map_some,
    Option.map_some, treesOfClass_eq, treeClasses, treeValues, List.zip_map', List.filter_map,
    List.map_map]
  rfl

theorem index_treesOfClass (c : Nat) :
    (e.treesOfClass c).map Tree.index =
      (e.trees.map Tree.index).filter fun i => i % e.numClasses == c := by
  rw [treesOfClass_eq, List.filter_map]
  rfl

theorem perm_treesOfClass (hindices : (e.trees.map Tree.index).Perm (List.range e.numTrees))
    (c : Nat) :
    ((e.treesOfClass c).map Tree.index).Perm
      ((List.range e.numTrees).filter fun i => i % e.numClasses == c) := by
  rw [index_treesOfClass]
  exact hindices.filter _

theorem length_filter_mod {k c : Nat} (hc : c < k) (n : Nat) :
    ((List.range n).filter fun i => i % k == c).length = n / k + if c < n % k then 1 else 0 := by
  have hcount := Nat.count_modEq_card n (Nat.zero_lt_of_lt hc) c
  rw [Nat.mod_eq_of_lt hc, Nat.count, List.countP_eq_length_filter] at hcount
  rw [← hcount]
  congr 1
  apply List.filter_congr
  intro i _
  rw [Bool.eq_iff_iff, beq_iff_eq, decide_eq_true_iff, Nat.ModEq, Nat.mod_eq_of_lt hc]

theorem length_treesOfClass_le (hindices : (e.trees.map Tree.index).Perm (List.range e.numTrees))
    {c c' : Nat} (hc : c < e.numClasses) (hc' : c' < e.numClasses) :
    (e.treesOfClass c).length ≤ (e.treesOfClass c').length + 1 := by
  have hlength : ∀ {j}, j < e.numClasses → (e.treesOfClass j).length =
      e.numTrees / e.numClasses + if j < e.numTrees % e.numClasses then 1 else 0 := by
    intro j hj
    rw [← length_filter_mod hj, ← (e.perm_treesOfClass hindices j).length_eq, List.length_map]
  rw [hlength hc, hlength hc']
  split <;> split <;> omega

end Ensemble

end BoostedTrees
