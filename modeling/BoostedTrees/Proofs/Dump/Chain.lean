import BoostedTrees.Proofs.Assembly.Bounds
import BoostedTrees.Proofs.Dump.Draft
import BoostedTrees.Proofs.Dump.Walk
import BoostedTrees.Proofs.Ensemble.Acceptance
import BoostedTrees.Proofs.Ensemble.Limits

namespace BoostedTrees

namespace Node

def chain (leftward : Bool) : List Float → List Float → Node
  | [], values => .leaf (values.getD 0 Binary64.zero)
  | threshold :: rest, values =>
      let leaf := .leaf (values.getD 0 Binary64.zero)
      let next := chain leftward rest values.tail
      .split 0 (.numeric threshold .nothing .right) (if leftward then next else leaf)
        (if leftward then leaf else next)

def stops (leftward : Bool) (value threshold : Float) : Bool := (value ≤ threshold) != leftward

variable (leftward : Bool) (thresholds values : List Float)

theorem height_chain : (chain leftward thresholds values).height = thresholds.length := by
  induction thresholds generalizing values with
  | nil => rfl
  | cons threshold rest ih =>
      cases leftward <;> simp [chain, height, ih, Nat.add_comm]

theorem size_chain : (chain leftward thresholds values).size = 2 * thresholds.length + 1 := by
  induction thresholds generalizing values with
  | nil => rfl
  | cons threshold rest ih =>
      cases leftward <;> simp [chain, size, ih] <;> omega

theorem hasSplit_chain {feature : Nat} {test : SplitTest}
    (h : (chain leftward thresholds values).HasSplit feature test) :
    feature = 0 ∧ ∃ threshold, test = .numeric threshold .nothing .right := by
  induction thresholds generalizing values with
  | nil => exact absurd h not_hasSplit_leaf
  | cons threshold rest ih =>
      rcases hasSplit_split.mp h with ⟨rfl, rfl⟩ | h | h
      · exact ⟨rfl, threshold, rfl⟩
      all_goals
        split at h
        · first | exact ih _ h | exact absurd h not_hasSplit_leaf
        · first | exact ih _ h | exact absurd h not_hasSplit_leaf

theorem direction_plain (store : CategorySet) (value threshold : Float) :
    (SplitTest.numeric threshold .nothing .right).direction store value =
      if CompiledNode.orZero value ≤ threshold then .left else .right :=
  numericDirection_nothing value threshold .right

theorem eval_chain (store : CategorySet) (row : Row) :
    (chain leftward thresholds values).eval store row =
      values.getD (thresholds.findIdx (stops leftward (CompiledNode.orZero (row.feature 0))))
        Binary64.zero := by
  induction thresholds generalizing values with
  | nil => rfl
  | cons threshold rest ih =>
      rw [chain, eval, direction_plain, List.findIdx_cons, stops]
      by_cases hle : CompiledNode.orZero (row.feature 0) ≤ threshold <;> cases leftward <;>
        simp [hle, eval, ih]

end Node

namespace TreeDraft

def chainBlock (leftward : Bool) (thresholds values : List Float) : TreeBlock :=
  (chain leftward 0 thresholds values).toBlock 0

def link (n k : Nat) : Int := if k = n then -1 - (n : Int) else k

def onward (leftward : Bool) : Direction := if leftward then .left else .right

variable {leftward : Bool} {thresholds values : List Float} {k : Nat}

theorem numSplits_chainBlock :
    (chainBlock leftward thresholds values).numSplits = thresholds.length := by
  cases leftward <;> simp [chainBlock, chain, splits, toBlock, TreeBlock.numSplits]

theorem sized_chainBlock : (chainBlock leftward thresholds values).Sized := by
  constructor
  all_goals
    rw [numSplits_chainBlock]
    cases leftward <;> simp [chainBlock, chain, splits, toBlock]

theorem entryAt_chainBlock (hk : k < thresholds.length) (side : Direction) :
    (chainBlock leftward thresholds values).entryAt k side =
      if side = onward leftward then link thresholds.length (k + 1) else -1 - (k : Int) := by
  cases side <;> cases leftward <;>
    simp [chainBlock, chain, splits, toBlock, TreeBlock.entryAt, TreeBlock.leftAt,
      TreeBlock.rightAt, onward, link, hk]

theorem buildSplit_chainBlock (hk : k < thresholds.length) (l r : Node) :
    (chainBlock leftward thresholds values).buildSplit k l r =
      .ok (.split 0 (.numeric thresholds[k] .nothing .right) l r) := by
  simp [chainBlock, chain, splits, toBlock, TreeBlock.buildSplit, hk, DecisionFlags.ofBits]
  exact ⟨rfl, rfl⟩

theorem childAt?_chainBlock {side : Direction} {child : Int}
    (h : (chainBlock leftward thresholds values).childAt? k side = some child) :
    (side = onward leftward ∧ k + 1 < thresholds.length ∧ child = (k + 1 : Nat)) ∨
      ∃ i ≤ thresholds.length, child = -1 - (i : Int) := by
  obtain ⟨hk, rfl⟩ := (TreeBlock.childAt?_eq sized_chainBlock).mp h
  rw [numSplits_chainBlock] at hk
  rw [entryAt_chainBlock hk, link]
  split
  · rename_i hside
    split
    · exact .inr ⟨thresholds.length, Nat.le_refl _, rfl⟩
    · exact .inl ⟨hside, by omega, rfl⟩
  · exact .inr ⟨k, by omega, rfl⟩

theorem isSplitTree_chainBlock (hvalues : values.length = thresholds.length + 1) :
    (chainBlock leftward thresholds values).IsSplitTree where
  sized := sized_chainBlock
  entry_split node side child _ hchild hpos := by
    rw [numSplits_chainBlock]
    rcases childAt?_chainBlock hchild with ⟨-, hnext, rfl⟩ | ⟨i, -, rfl⟩ <;> omega
  entry_leaf node side child _ hchild hneg := by
    have hsize : (chainBlock leftward thresholds values).leafValue.size = values.length := rfl
    rcases childAt?_chainBlock hchild with ⟨-, hnext, rfl⟩ | ⟨i, hi, rfl⟩ <;> omega
  root_free node side _ hchild := by
    rcases childAt?_chainBlock hchild with ⟨-, -, hzero⟩ | ⟨i, -, hzero⟩ <;> omega
  entry_unique node side node' side' child _ _ hchild hchild' hpos := by
    rcases childAt?_chainBlock hchild with ⟨hside, -, rfl⟩ | ⟨i, -, rfl⟩
    · rcases childAt?_chainBlock hchild' with ⟨hside', -, hnode⟩ | ⟨i, -, hleaf⟩
      · exact ⟨by omega, hside.trans hside'.symm⟩
      · omega
    · omega
  feature_nonneg node feature _ hfeature := by
    have hmem := Array.mem_of_getElem? hfeature
    simp [chainBlock, chain, splits, toBlock] at hmem
    omega
  category node bits threshold _ hbits hodd _ := by
    have hmem := Array.mem_of_getElem? hbits
    simp [chainBlock, chain, splits, toBlock] at hmem
    omega

theorem grows_chainBlock {n : Node} (hk : k ≤ thresholds.length)
    (h : (chainBlock leftward thresholds values).Grows (link thresholds.length k) n) :
    n = Node.chain leftward (thresholds.drop k) (values.drop k) := by
  have hleaf : ∀ {i : Nat} {m : Node},
      (chainBlock leftward thresholds values).Grows (-1 - (i : Int)) m →
        m = .leaf (values.getD i Binary64.zero) := by
    intro i m hm
    cases m with
    | leaf value =>
        obtain ⟨-, hvalue⟩ := hm
        have hvalue : values[i]? = some value := by
          simpa [chainBlock, chain, splits, toBlock] using hvalue
        simp [hvalue]
    | split feature test l r =>
        obtain ⟨node, hnode, -⟩ := hm
        omega
  induction n generalizing k with
  | leaf value =>
      obtain ⟨hneg, -⟩ := id h
      have hend : k = thresholds.length := by
        unfold link at hneg
        split at hneg <;> omega
      rw [link, if_pos hend] at h
      rw [hleaf h, hend, List.drop_length, Node.chain, List.getD_eq_getElem?_getD,
        List.getD_eq_getElem?_getD, List.getElem?_drop, Nat.add_zero]
  | split feature test l r ihl ihr =>
      obtain ⟨node, hnode, hlt, hbuild, hl, hr⟩ := h
      rw [numSplits_chainBlock] at hlt
      have hsplit : k = node ∧ k < thresholds.length := by
        unfold link at hnode
        split at hnode <;> omega
      obtain ⟨rfl, hk⟩ := hsplit
      rw [buildSplit_chainBlock hk] at hbuild
      obtain ⟨rfl, rfl⟩ : 0 = feature ∧ .numeric thresholds[k] .nothing .right = test := by
        simpa using hbuild
      have hentry (side : Direction) :
          (chainBlock leftward thresholds values).entryAt k side =
            if side = onward leftward then link thresholds.length (k + 1) else -1 - (k : Int) :=
        entryAt_chainBlock hk side
      change (chainBlock leftward thresholds values).Grows (TreeBlock.entryAt _ k .left) l at hl
      change (chainBlock leftward thresholds values).Grows (TreeBlock.entryAt _ k .right) r at hr
      rw [hentry] at hl hr
      have hvalue : (values.drop k).getD 0 Binary64.zero = values.getD k Binary64.zero := by simp
      rw [List.drop_eq_getElem_cons hk, Node.chain, hvalue, List.tail_drop]
      -- one side is the leaf of this split, and the other goes on with the next one
      cases leftward with
      | false => rw [hleaf hl, ihr (k := k + 1) hk hr]; rfl
      | true => rw [ihl (k := k + 1) hk hl, hleaf hr]; rfl

theorem toTree_chainBlock (hn : thresholds ≠ []) (hvalues : values.length = thresholds.length + 1) :
    (chainBlock leftward thresholds values).toTree =
      .ok ⟨0, Node.chain leftward thresholds values, .empty⟩ := by
  have hpos : 0 < thresholds.length := List.length_pos_iff.mpr hn
  have hsplits : 0 < (chainBlock leftward thresholds values).numSplits := by
    rwa [numSplits_chainBlock]
  obtain ⟨root, hroot⟩ := (isSplitTree_chainBlock hvalues).assembles hsplits
  have hgrows := (TreeBlock.assemble_grows hroot).2.1
  have hlink : link thresholds.length 0 = 0 := if_neg (Nat.ne_of_lt hpos)
  rw [← hlink] at hgrows
  rw [TreeBlock.toTree_of_splits hsplits, hroot, grows_chainBlock (Nat.zero_le _) hgrows]
  rfl

theorem wellFormed_chain (hn : thresholds ≠ []) (hfit : thresholds.length < 2147483647)
    (hvalues : values.length = thresholds.length + 1) :
    (chain leftward 0 thresholds values).WellFormed := by
  have hleaves : ∀ n ∈ (List.range thresholds.length).map fun (k : Nat) => -1 - (k : Int),
      IsInt32 n := by
    rintro n hn
    obtain ⟨k, hk, rfl⟩ := List.mem_map.mp hn
    have := List.mem_range.mp hk
    exact ⟨by omega, by omega⟩
  have hinner : ∀ n ∈ (List.range thresholds.length).map fun (k : Nat) =>
      if k + 1 = thresholds.length then -1 - (thresholds.length : Int) else (k : Int) + 1,
      IsInt32 n := by
    rintro n hn
    obtain ⟨k, hk, rfl⟩ := List.mem_map.mp hn
    have := List.mem_range.mp hk
    unfold IsInt32
    split <;> omega
  have hzeros : ∀ n ∈ List.replicate thresholds.length (0 : Int), IsInt32 n := by
    intro n hn
    obtain rfl := List.eq_of_mem_replicate hn
    decide
  refine .inr ⟨?_, ?_⟩
  · constructor
    all_goals cases leftward <;> simp [chain, splits, hn, hvalues]
  · refine ⟨?_, (by decide : 0 < 2 ^ 64), hzeros, hzeros, ?_, ?_, nofun⟩
    · change values.length < 2 ^ 64
      omega
    · cases leftward
      · exact hleaves
      · exact hinner
    · cases leftward
      · exact hinner
      · exact hleaves

end TreeDraft

namespace DumpDraft

def ofChain (leftward : Bool) (thresholds values : List Float) : DumpDraft where
  objective := "regression"
  maxFeature := 0
  trees := [TreeDraft.chain leftward 0 thresholds values]

variable {leftward : Bool} {thresholds values : List Float}

theorem wellFormed_ofChain (hn : thresholds ≠ []) (hfit : thresholds.length < 2147483647)
    (hvalues : values.length = thresholds.length + 1) :
    (ofChain leftward thresholds values).WellFormed where
  objective := (by decide : ¬Text.AllBlank "regression".toList)
  noEquals := (by decide : '=' ∉ "regression".toList)
  noLineFeed := (by decide : '\n' ∉ "regression".toList)
  numClasses := (by decide : 1 < 2 ^ 63)
  treesPerIteration := (by decide : 1 < 2 ^ 63)
  maxFeature := (by decide : 0 < 2 ^ 63)
  count := (by decide : 1 ≤ 2 ^ 64)
  trees := List.forall_mem_singleton.mpr (TreeDraft.wellFormed_chain hn hfit hvalues)

theorem toEnsemble_ofChain (leftward : Bool) (hn : thresholds ≠ [])
    (hvalues : values.length = thresholds.length + 1) :
    ∃ e, (ofChain leftward thresholds values).toDump.toEnsemble = .ok e ∧
      e.trees = [⟨0, Node.chain leftward thresholds values, .empty⟩] := by
  let d := Dump.draft (ofChain leftward thresholds values).header
    [⟨0, Node.chain leftward thresholds values, .empty⟩]
  have hname : String.ofList (splitObjective "regression".toList).1 = "regression" := by decide
  have haccepted : d.WellFormed := by
    refine ⟨List.cons_ne_nil _ _, Nat.one_pos, Nat.one_pos, ?_, List.Perm.refl _, ?_, ?_⟩
    · change String.ofList (splitObjective "regression".toList).1 ∈ Objective.supportedNames
      rw [hname]
      simp [Objective.supportedNames]
    · intro t ht feature test hsplit
      obtain rfl := List.mem_singleton.mp ht
      exact Nat.le_of_eq (Node.hasSplit_chain leftward thresholds values hsplit).1
    · intro t ht feature range hsplit
      obtain rfl := List.mem_singleton.mp ht
      obtain ⟨-, threshold, htest⟩ := Node.hasSplit_chain leftward thresholds values hsplit
      exact absurd htest (by simp)
  obtain ⟨e, he⟩ := Ensemble.exists_ofDraft.mpr (EnsembleDraft.wellFormed_iff.mp haccepted)
  have htrees : e.trees = [⟨0, Node.chain leftward thresholds values, .empty⟩] :=
    congrArg EnsembleDraft.trees (Ensemble.ofDraft_ok he)
  refine ⟨e, Dump.toEnsemble_ok.mpr ⟨_, _, rfl, rfl, ?_, he⟩, htrees⟩
  exact Outcome.mapM_ok.mpr (.cons (TreeDraft.toTree_chainBlock hn hvalues) .nil)

theorem chain_routes (leftward : Bool) (thresholds values : List Float) (hn : thresholds ≠ [])
    (hfit : thresholds.length < 2147483647) (hvalues : values.length = thresholds.length + 1) :
    let d := ofChain leftward thresholds values
    let n := thresholds.length
    ∃ e t, Ensemble.ofText d.text = .ok e ∧ d.toDump.toEnsemble = .ok e ∧ e.trees = [t] ∧
      (TreeDraft.chainBlock leftward thresholds values).toTree = .ok t ∧
      t.depth = n ∧ t.numNodes = 2 * n + 1 ∧
      (∀ row : Row,
        let k := thresholds.findIdx (Node.stops leftward (CompiledNode.orZero (row.feature 0)))
        t.eval? row = some (t.eval row) ∧ values[k]? = some (t.eval row)) ∧
      ∀ limits : CompileLimits,
        ((∃ x, e.compile limits = .ok x) ↔ n ≤ limits.maxDepth ∧ 2 * n + 1 ≤ limits.maxNodes) ∧
        ∀ x, e.compile limits = .ok x →
          ∃ state, x = .compiled [state] ∧ ∀ row : Row, state.eval row = t.eval row := by
  intro d n
  obtain ⟨e, he, htrees⟩ := toEnsemble_ofChain leftward hn hvalues
  have htext : Ensemble.ofText d.text = .ok e := by
    rw [Ensemble.ofText, ofText_text (wellFormed_ofChain hn hfit hvalues)]
    exact he
  have hheight := Node.height_chain leftward thresholds values
  have hsize := Node.size_chain leftward thresholds values
  refine ⟨e, _, htext, he, htrees, TreeDraft.toTree_chainBlock hn hvalues, ?_, ?_, fun row => ?_,
    fun limits => ⟨?_, fun x hx => ?_⟩⟩
  · rw [Tree.depth, Node.depth_eq_height, hheight]
  · rw [Tree.numNodes, Node.numNodes_eq_size, hsize]
  · intro k
    have hk : k < values.length := by
      have : k ≤ thresholds.length := List.findIdx_le_length
      omega
    have hinside := e.rangeOutside?_eq_none (htrees ▸ List.mem_singleton_self _)
    refine ⟨Tree.eval?_eq_eval hinside row, ?_⟩
    rw [Tree.eval, Node.eval_chain, List.getElem?_eq_getElem hk, List.getD_eq_getElem _ _ hk]
  · rw [Ensemble.exists_compile, htrees]
    simp only [List.map_singleton, List.sum_singleton, List.forall_mem_singleton, hheight, hsize]
    exact and_comm
  · obtain ⟨-, states, rfl, hstates⟩ := Ensemble.compile_ok.mp hx
    rw [htrees] at hstates
    obtain ⟨state, rest, hstate, hrest, rfl⟩ := List.forall₂_cons_left_iff.mp hstates
    obtain rfl := List.forall₂_nil_left_iff.mp hrest
    exact ⟨state, rfl, Ensemble.eval_of_compile hstate⟩

theorem chain_routes_falling :
    ∃ e e' t t',
      Ensemble.ofText (ofChain false [2, -1, 0.5] [10, 20, 30, Binary64.nan]).text = .ok e ∧
      Ensemble.ofText (ofChain true [2, -1, 0.5] [10, 20, 30, Binary64.nan]).text = .ok e' ∧
      e.trees = [t] ∧ e'.trees = [t'] ∧ t.depth = 3 ∧ t'.numNodes = 7 ∧
      t.eval #[Binary64.nan] = 10 ∧ t'.eval #[Binary64.nan] = 20 ∧ t.eval #[3] = Binary64.nan ∧
      (∃ state, e.compile ⟨3, 7⟩ = .ok (.compiled [state]) ∧ state.eval #[3] = Binary64.nan) ∧
      ¬ ∃ x, e.compile ⟨2, 7⟩ = .ok x := by
  obtain ⟨e, t, he, -, htrees, -, hdepth, -, hroutes, hcompiles⟩ :=
    chain_routes false [2, -1, 0.5] [10, 20, 30, Binary64.nan] (by simp) (by decide) (by simp)
  obtain ⟨e', t', he', -, htrees', -, -, hnodes, hroutes', -⟩ :=
    chain_routes true [2, -1, 0.5] [10, 20, 30, Binary64.nan] (by simp) (by decide) (by simp)
  have hleaf : ∀ {k : Nat} {found value : Float}, [10, 20, 30, Binary64.nan][k]? = some found →
      [10, 20, 30, Binary64.nan][k]? = some value → found = value :=
    fun h h' => Option.some.inj (h.symm.trans h')
  obtain ⟨x, hx⟩ := (hcompiles ⟨3, 7⟩).1.mpr ⟨by decide, by decide⟩
  obtain ⟨state, rfl, hstate⟩ := (hcompiles ⟨3, 7⟩).2 x hx
  have hthree : t.eval #[3] = Binary64.nan := hleaf (hroutes #[3]).2 (by decide +kernel)
  refine ⟨e, e', t, t', he, he', htrees, htrees', hdepth, hnodes,
    hleaf (hroutes #[Binary64.nan]).2 (by decide +kernel),
    hleaf (hroutes' #[Binary64.nan]).2 (by decide +kernel), hthree,
    ⟨state, hx, (hstate #[3]).trans hthree⟩, fun h => ?_⟩
  have := ((hcompiles ⟨2, 7⟩).1.mp h).1
  simp at this

end DumpDraft

end BoostedTrees
