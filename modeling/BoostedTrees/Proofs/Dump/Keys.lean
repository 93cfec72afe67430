import BoostedTrees.Proofs.Dump.Fields

namespace BoostedTrees

def Header.keys : List String :=
  ["objective", "num_class", "num_tree_per_iteration", "max_feature_idx", "version",
    "feature_names"]

def TreeBlock.keys : List String :=
  ["num_leaves", "num_cat", "leaf_value", "internal_value", "left_child", "right_child",
    "split_feature", "decision_type", "threshold", "cat_boundaries", "cat_threshold"]

namespace Fields

def AgreeOn (keys : List String) (fs fs' : Fields) : Prop :=
  ∀ key ∈ keys, fs.value? key = fs'.value? key

variable {keys : List String} {fs fs' : Fields}

theorem value?_cons_self (key : String) (v : List Char) (fs : Fields) :
    value? ((key, v) :: fs) key = (some v).filter fun v => !v.isEmpty := by
  rw [value?, List.lookup_cons_self]

theorem value?_cons_of_ne {field : String × List Char} {key : String} (h : key ≠ field.1)
    (fs : Fields) : value? (field :: fs) key = fs.value? key := by
  rw [value?, value?, List.lookup_cons, beq_false_of_ne h]

theorem AgreeOn.cons (h : fs.AgreeOn keys fs') (field : String × List Char) :
    Fields.AgreeOn keys (field :: fs) (field :: fs') := by
  intro key hkey
  by_cases heq : key = field.1
  · subst heq
    rw [value?_cons_self, value?_cons_self]
  · rw [value?_cons_of_ne heq, value?_cons_of_ne heq, h key hkey]

theorem agreeOn_cons_of_notMem {field : String × List Char} (h : field.1 ∉ keys) (fs : Fields) :
    fs.AgreeOn keys (field :: fs) := by
  intro key hkey
  rw [value?_cons_of_ne]
  rintro rfl
  exact h hkey

theorem agreeOn_swap {f g : String × List Char} (h : f.1 ≠ g.1) (fs : Fields) :
    Fields.AgreeOn keys (g :: f :: fs) (f :: g :: fs) := by
  intro key _
  by_cases hg : key = g.1
  · subst hg
    rw [value?_cons_self, value?_cons_of_ne h.symm, value?_cons_self]
  · rw [value?_cons_of_ne hg]
    by_cases hf : key = f.1
    · subst hf
      rw [value?_cons_self, value?_cons_self]
    · rw [value?_cons_of_ne hf, value?_cons_of_ne hf, value?_cons_of_ne hg]

end Fields

section Congruence

variable {fs fs' : Fields} {field : String}

namespace DumpField

theorem required_congr (h : fs.value? field = fs'.value? field) (tree : Option Nat) :
    required fs tree field = required fs' tree field := by
  rw [required, required, h]

theorem optional_congr {α : Type} (h : fs.value? field = fs'.value? field)
    (read : String → List Char → Except DumpError α) :
    optional fs field read = optional fs' field read := by
  rw [optional, optional, h]

theorem optionalList_congr {α : Type} (h : fs.value? field = fs'.value? field)
    (read : List Char → Option α) : optionalList fs field read = optionalList fs' field read := by
  rw [optionalList, optionalList, optional_congr h]

theorem sizedList_congr {α : Type} (h : fs.value? field = fs'.value? field) (index : Nat)
    (read : List Char → Option α) :
    sizedList fs index field read = sizedList fs' index field read := by
  funext n
  rw [sizedList, sizedList, required_congr h]

end DumpField

open DumpField

theorem Header.ofFields_congr (h : fs.AgreeOn Header.keys fs') : ofFields fs = ofFields fs' := by
  have hrequired : ∀ key ∈ Header.keys, required fs none key = required fs' none key :=
    fun key hkey => required_congr (h key hkey) none
  unfold ofFields
  rw [hrequired "objective" (by decide), hrequired "num_class" (by decide),
    hrequired "num_tree_per_iteration" (by decide), hrequired "max_feature_idx" (by decide),
    h "version" (by decide), h "feature_names" (by decide)]

namespace TreeBlock

theorem readSplits_congr (h : fs.AgreeOn TreeBlock.keys fs') (b : TreeBlock) :
    b.readSplits fs = b.readSplits fs' := by
  unfold readSplits
  simp only [required_congr (h "left_child" (by decide)),
    sizedList_congr (h "right_child" (by decide)), sizedList_congr (h "split_feature" (by decide)),
    sizedList_congr (h "decision_type" (by decide)), sizedList_congr (h "threshold" (by decide)),
    optionalList_congr (h "cat_boundaries" (by decide)),
    optionalList_congr (h "cat_threshold" (by decide))]

theorem ofFields_congr (h : fs.AgreeOn TreeBlock.keys fs') (index : Nat) :
    ofFields index fs = ofFields index fs' := by
  have hlone : loneLeaf fs = loneLeaf fs' := by
    unfold loneLeaf
    rw [h "left_child" (by decide)]
  have hsplits : ∀ b : TreeBlock, b.readSplits fs = b.readSplits fs' := readSplits_congr h
  unfold ofFields
  simp only [required_congr (h "leaf_value" (by decide)),
    optional_congr (h "num_leaves" (by decide)), optional_congr (h "num_cat" (by decide)),
    optionalList_congr (h "internal_value" (by decide)), hlone, hsplits]

end TreeBlock

end Congruence

def BlockKind.keys : BlockKind → List String
  | .header => Header.keys
  | .tree _ => TreeBlock.keys

def BlockLine.keys : BlockLine → List String
  | .header => Header.keys
  | .tree _ => TreeBlock.keys

theorem BlockKind.keys_ofBlockLine {line : BlockLine} {kind : BlockKind}
    (h : ofBlockLine line = .ok kind) : kind.keys = line.keys := by
  cases line with
  | header =>
      cases h
      rfl
  | tree token =>
      obtain ⟨index, -, rfl⟩ := Outcome.map_ok.mp h
      rfl

theorem Dump.addBlock_congr {kind : BlockKind} {fs fs' : Fields} (h : fs.AgreeOn kind.keys fs')
    (d : Dump) : d.addBlock ⟨kind, fs⟩ = d.addBlock ⟨kind, fs'⟩ := by
  cases kind with
  | header => exact congrArg (Except.map _) (Header.ofFields_congr h)
  | tree index => exact congrArg (Except.map _) (TreeBlock.ofFields_congr h index)

end BoostedTrees
