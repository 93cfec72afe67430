import BoostedTrees.Proofs.Code.Reader

namespace BoostedTrees.Code

def Reads (s : List Char) (r r' : Reader) : Prop :=
  ∃ ts, Spells s ts ∧ ts.foldlM Reader.step r = some r'

variable {s t rest : List Char} {c : Char} {r r' r'' : Reader}

theorem reads_nil (r : Reader) : Reads [] r r := ⟨[], spells_nil, rfl⟩

theorem Reads.append (hs : Reads s r r') (ht : Reads t r' r'') : Reads (s ++ t) r r'' := by
  obtain ⟨new, hnew, hrun⟩ := hs
  obtain ⟨more, hmore, hrest⟩ := ht
  refine ⟨new ++ more, hnew.append hmore, ?_⟩
  rw [List.foldlM_append, hrun]
  exact hrest

theorem reads_of_run (h : ((tokens? s).bind fun ts => ts.foldlM Reader.step r) = some r') :
    Reads s r r' := by
  obtain ⟨ts, hts, hrun⟩ := Option.bind_eq_some_iff.mp h
  exact ⟨ts, spells_of_tokens? hts, hrun⟩

theorem reads_separators (h : ∀ c ∈ s, isSeparator c = true) (r : Reader) : Reads s r r :=
  ⟨[], spells_separators h, rfl⟩

theorem reads_feed (r : Reader) : Reads ['\n'] r r := ⟨[], fun _ => rfl, rfl⟩

theorem reads_comment (hfeed : '\n' ∉ s) (hreturn : '\r' ∉ s) (r : Reader) :
    Reads ('/' :: '/' :: s ++ ['\n']) r r :=
  ⟨[], spells_comment hfeed hreturn, rfl⟩

theorem Spells.reads_cons {new : List Token} {token : Token} (h : Spells (s ++ t) (token :: new))
    (hstep : r.step token = some r') (hrest : new.foldlM Reader.step r' = some r'') :
    Reads (s ++ t) r r'' := by
  refine ⟨_, h, ?_⟩
  rw [List.foldlM_cons, hstep]
  exact hrest

theorem Reads.number (hs : ScansNumber s) (hc : Ends c) (hstep : r.step (.number s) = some r')
    (h : Reads (c :: rest) r' r'') : Reads (s ++ c :: rest) r r'' := by
  obtain ⟨ts, hts, hrun⟩ := h
  exact (hs.spells hc hts).reads_cons hstep hrun

theorem Reads.word (hs : ∃ d v, s = d :: v ∧ isWordStart d = true)
    (hall : ∀ d ∈ s, isWordChar d = true) (hc : Ends c) (hstep : r.step (.ofWord s) = some r')
    (h : Reads (c :: rest) r' r'') : Reads (s ++ c :: rest) r r'' := by
  obtain ⟨ts, hts, hrun⟩ := h
  exact (Spells.word hs hall hc hts).reads_cons hstep hrun

theorem Reads.minus {d : Char} (hd : d.isDigit = true) (hstep : r.step .minus = some r')
    (h : Reads (d :: s) r' r'') : Reads ('-' :: d :: s) r r'' := by
  obtain ⟨ts, hts, hrun⟩ := h
  exact (spells_minus hd hts).reads_cons (s := []) hstep hrun

theorem Reads.ofText? {p : Program} (h : Reads s .start ⟨p, .item, []⟩) :
    Program.ofText? s = some p := by
  obtain ⟨ts, hts, hrun⟩ := h
  rw [Program.ofText?, hts.tokens?, Option.bind_some, read?, hrun]
  rfl

end BoostedTrees.Code
