import BoostedTrees.Dump.Ensemble
import BoostedTrees.Proofs.Dump.Blocks
import BoostedTrees.Proofs.Ensemble.Accepted

namespace BoostedTrees

theorem Text.integer?_lt {width : Nat} {s : List Char} {n : Int} (h : integer? width s = some n) :
    n < (Nat.pow 2 (width - 1) : Nat) := by
  have hpos : 0 < Nat.pow 2 (width - 1) := Nat.pow_pos (by decide)
  have hunsigned : ∀ s : List Char, ((digits? s).bind fun n =>
      if n < Nat.pow 2 (width - 1) then some (n : Int) else none) = some n →
      n < (Nat.pow 2 (width - 1) : Nat) := by
    intro s h
    obtain ⟨m, -, h⟩ := Option.bind_eq_some_iff.mp h
    obtain ⟨hm, h⟩ := Option.ite_none_right_eq_some.mp h
    obtain rfl : (m : Int) = n := Option.some.inj h
    exact Int.ofNat_lt.mpr hm
  unfold integer? at h
  split at h
  · obtain ⟨m, -, h⟩ := Option.bind_eq_some_iff.mp h
    obtain ⟨-, h⟩ := Option.ite_none_right_eq_some.mp h
    obtain rfl : -(m : Int) = n := Option.some.inj h
    omega
  · exact hunsigned _ h
  · exact hunsigned _ h

def Header.Read (h : Header) : Prop := ∃ fs, Header.ofFields fs = .ok h

theorem Header.Read.maxFeature_lt {h : Header} (hread : h.Read) :
    h.maxFeature < (Nat.pow 2 63 : Nat) := by
  obtain ⟨fs, h⟩ := hread
  obtain ⟨_, _, _, _, _, _, _, -, -, -, -, -, -, hfeature, rfl⟩ := Header.ofFields_ok.mp h
  exact Text.integer?_lt (DumpField.scalar_ok.mp hfeature)

namespace Dump

theorem header_addBlock {d d' : Dump} {b : OpenBlock} (hd : ∀ h ∈ d.header, h.Read)
    (h : d.addBlock b = .ok d') : ∀ h ∈ d'.header, h.Read := by
  unfold addBlock at h
  split at h
  · obtain ⟨header, hheader, rfl⟩ := Outcome.map_ok.mp h
    intro h hmem
    obtain rfl : header = h := Option.some.inj hmem
    exact ⟨b.fields, hheader⟩
  · obtain ⟨t, -, rfl⟩ := Outcome.map_ok.mp h
    exact hd

theorem header_read {ls : List (List Char)} {d : Dump} (h : ofCharLines ls = .ok d) :
    ∀ h ∈ d.header, h.Read := by
  rw [ofCharLines_eq] at h
  refine Outcome.foldlM_keeps (P := fun d : Dump => ∀ h ∈ d.header, h.Read) ?_ (by simp) h
  intro d block d' _ hd hadd
  obtain ⟨-, kind, fields, -, -, hadd⟩ := LineBlock.addTo_eq_ok.mp hadd
  exact header_addBlock hd hadd

theorem toEnsemble_ok {d : Dump} {e : Ensemble} :
    d.toEnsemble = .ok e ↔ ∃ header trees, d.header = some header ∧ checkHeader header = .ok () ∧
      d.trees.toList.mapM TreeBlock.toTree = .ok trees ∧
      Ensemble.ofDraft (draft header trees) = .ok e := by
  unfold toEnsemble
  cases d.header with
  | none => simp
  | some header =>
      simp only [Outcome.bind_ok, Outcome.mapError_ok, Option.some.injEq, exists_and_left,
        Unique.exists_iff, PUnit.default_eq_unit, exists_eq_left']

end Dump

namespace Ensemble

theorem ofLines_header {ls : List String} {e : Ensemble} (h : ofLines ls = .ok e) :
    ∃ header : Header, header.Read ∧ e.maxFeature = header.maxFeature.toNat := by
  obtain ⟨d, hd, h⟩ := Outcome.bind_ok.mp h
  obtain ⟨header, trees, hheader, -, -, hdraft⟩ := Dump.toEnsemble_ok.mp h
  refine ⟨header, Dump.header_read (Outcome.mapError_ok.mp hd) header hheader, ?_⟩
  rw [ofDraft_ok hdraft]
  rfl

theorem numFeatures_lt {ls : List String} {e : Ensemble} (h : ofLines ls = .ok e) :
    e.numFeatures < Nat.pow 2 64 := by
  obtain ⟨header, hread, hfeature⟩ := ofLines_header h
  have hlt := hread.maxFeature_lt
  have hword : Nat.pow 2 64 = 2 * Nat.pow 2 63 := by decide
  have hpos : 0 < Nat.pow 2 63 := by decide
  rw [numFeatures]
  omega

end Ensemble

end BoostedTrees
