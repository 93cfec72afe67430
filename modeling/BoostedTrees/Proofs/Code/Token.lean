import BoostedTrees.Proofs.Text.Digits

namespace BoostedTrees.Code

inductive Keyword where
  | exported
  | constant
  | function
  | binding
  | mutable
  | condition
  | otherwise
  | selection
  | leave
  | cast
  deriving DecidableEq, Repr

inductive Bracket where
  | round
  | square
  | curly
  deriving DecidableEq, Repr

inductive Operator where
  | or
  | and
  | ne
  | lt
  | le
  | ge
  | bitAnd
  | shiftRight
  | divide
  | remainder
  deriving DecidableEq, Repr

inductive Token where
  | name (s : String)
  | number (s : List Char)
  | keyword (k : Keyword)
  | opening (b : Bracket)
  | closing (b : Bracket)
  | operator (o : Operator)
  | minus
  | comma
  | semicolon
  | colon
  | twoColons
  | dot
  | arrow
  | doubleArrow
  | assign
  | addAssign
  | hash
  deriving DecidableEq, Repr

def keywords : List (List Char × Keyword) :=
  [(['p', 'u', 'b'], .exported), (['c', 'o', 'n', 's', 't'], .constant), (['f', 'n'], .function),
    (['l', 'e', 't'], .binding), (['m', 'u', 't'], .mutable), (['i', 'f'], .condition),
    (['e', 'l', 's', 'e'], .otherwise), (['m', 'a', 't', 'c', 'h'], .selection),
    (['r', 'e', 't', 'u', 'r', 'n'], .leave), (['a', 's'], .cast)]

def Token.ofWord (s : List Char) : Token :=
  match keywords.lookup s with
  | some k => .keyword k
  | none => .name (String.ofList s)

def soleMark? : Char → Option Token
  | '(' => some (.opening .round)
  | ')' => some (.closing .round)
  | '[' => some (.opening .square)
  | ']' => some (.closing .square)
  | '\x7b' => some (.opening .curly)
  | '\x7d' => some (.closing .curly)
  | '%' => some (.operator .remainder)
  | ',' => some .comma
  | ';' => some .semicolon
  | '.' => some .dot
  | '#' => some .hash
  | _ => none

def firstMark? : Char → Option Token
  | '<' => some (.operator .lt)
  | '&' => some (.operator .bitAnd)
  | '/' => some (.operator .divide)
  | '-' => some .minus
  | ':' => some .colon
  | '=' => some .assign
  | _ => none

def twoMarks? : Char → Char → Option Token
  | '|', '|' => some (.operator .or)
  | '&', '&' => some (.operator .and)
  | '!', '=' => some (.operator .ne)
  | '<', '=' => some (.operator .le)
  | '>', '=' => some (.operator .ge)
  | '>', '>' => some (.operator .shiftRight)
  | ':', ':' => some .twoColons
  | '-', '>' => some .arrow
  | '=', '>' => some .doubleArrow
  | '+', '=' => some .addAssign
  | _, _ => none

def isSeparator (c : Char) : Bool := c == ' ' || c == '\n'

def isWordStart (c : Char) : Bool := c.isAlpha || c == '_'

def isWordChar (c : Char) : Bool := isWordStart c || c.isDigit

inductive Begun where
  | nothing
  | word (s : List Char)
  | number (s : List Char)
  | point (s : List Char)
  | mark (c : Char)
  | comment
  deriving DecidableEq, Repr

structure Scan where
  tokens : List Token
  begun : Begun
  deriving DecidableEq, Repr

namespace Scan

def start (ts : List Token) (c : Char) : Option Scan :=
  if isSeparator c then some ⟨ts, .nothing⟩
  else if isWordStart c then some ⟨ts, .word [c]⟩
  else if c.isDigit then some ⟨ts, .number [c]⟩
  else
    match soleMark? c with
    | some t => some ⟨t :: ts, .nothing⟩
    | none => some ⟨ts, .mark c⟩

def awaitsPower : List Char → Bool
  | c :: rest => c == 'e' && rest.all fun d => d.isDigit || d == '.'
  | [] => false

def step (scan : Scan) (c : Char) : Option Scan :=
  let ts := scan.tokens
  match scan.begun with
  | .nothing => start ts c
  | .comment =>
      if c = '\n' then some ⟨ts, .nothing⟩
      else if c = '\r' then none
      else some scan
  | .word s => if isWordChar c then some ⟨ts, .word (c :: s)⟩ else start (.ofWord s.reverse :: ts) c
  | .number s =>
      if isWordChar c || c == '-' && awaitsPower s then some ⟨ts, .number (c :: s)⟩
      else if c = '.' then some ⟨ts, .point s⟩
      else start (.number s.reverse :: ts) c
  | .point s => if c.isDigit then some ⟨ts, .number (c :: '.' :: s)⟩ else none
  | .mark d =>
      if d = '/' ∧ c = '/' then some ⟨ts, .comment⟩
      else
        match twoMarks? d c with
        | some t => some ⟨t :: ts, .nothing⟩
        | none => (firstMark? d).bind fun t => start (t :: ts) c

end Scan

def tokens? (s : List Char) : Option (List Token) :=
  (s.foldlM Scan.step ⟨[], .nothing⟩).bind fun scan =>
    if scan.begun = .nothing then some scan.tokens.reverse else none

def Spells (s : List Char) (new : List Token) : Prop :=
  ∀ ts, s.foldlM Scan.step ⟨ts, .nothing⟩ = some ⟨new.reverse ++ ts, .nothing⟩

theorem spells_nil : Spells [] [] := fun _ => rfl

theorem Spells.append {s t : List Char} {new more : List Token} (hs : Spells s new)
    (ht : Spells t more) : Spells (s ++ t) (new ++ more) := by
  intro ts
  rw [List.foldlM_append, hs ts]
  simpa using ht (new.reverse ++ ts)

theorem Spells.tokens? {s : List Char} {new : List Token} (h : Spells s new) :
    tokens? s = some new := by
  rw [Code.tokens?, h []]
  simp

theorem start_append (new ts : List Token) (c : Char) : Scan.start (new ++ ts) c =
    (Scan.start new c).map fun scan => ⟨scan.tokens ++ ts, scan.begun⟩ := by
  unfold Scan.start
  split
  · rfl
  · split
    · rfl
    · split
      · rfl
      · cases soleMark? c <;> rfl

theorem step_append (new ts : List Token) (begun : Begun) (c : Char) :
    Scan.step ⟨new ++ ts, begun⟩ c =
      (Scan.step ⟨new, begun⟩ c).map fun scan => ⟨scan.tokens ++ ts, scan.begun⟩ := by
  cases begun with
  | nothing => exact start_append new ts c
  | comment =>
      change (if c = '\n' then _ else _) = Option.map _ (if c = '\n' then _ else _)
      split
      · rfl
      · split <;> rfl
  | word s =>
      change (if isWordChar c then _ else _) = Option.map _ (if isWordChar c then _ else _)
      split
      · rfl
      · exact start_append (_ :: new) ts c
  | number s =>
      change (if isWordChar c || c == '-' && Scan.awaitsPower s then _ else _) =
        Option.map _ (if isWordChar c || c == '-' && Scan.awaitsPower s then _ else _)
      split
      · rfl
      · split
        · rfl
        · exact start_append (_ :: new) ts c
  | point s =>
      change (if c.isDigit then _ else _) = Option.map _ (if c.isDigit then _ else _)
      split <;> rfl
  | mark d =>
      change (if d = '/' ∧ c = '/' then _ else _) =
        Option.map _ (if d = '/' ∧ c = '/' then _ else _)
      split
      · rfl
      · cases twoMarks? d c with
        | some t => rfl
        | none =>
            cases firstMark? d with
            | none => rfl
            | some t => exact start_append (t :: new) ts c

theorem foldlM_append_tokens (s : List Char) (new ts : List Token) (begun : Begun) :
    s.foldlM Scan.step ⟨new ++ ts, begun⟩ =
      (s.foldlM Scan.step ⟨new, begun⟩).map fun scan => ⟨scan.tokens ++ ts, scan.begun⟩ := by
  induction s generalizing new begun with
  | nil => rfl
  | cons c s ih =>
      rw [List.foldlM_cons, List.foldlM_cons, step_append]
      cases Scan.step ⟨new, begun⟩ c with
      | none => rfl
      | some scan => exact ih scan.tokens scan.begun

theorem spells_of_tokens? {s : List Char} {new : List Token} (h : tokens? s = some new) :
    Spells s new := by
  intro ts
  obtain ⟨⟨tokens, begun⟩, hscan, hnew⟩ := Option.bind_eq_some_iff.mp h
  change (if begun = .nothing then some tokens.reverse else none) = some new at hnew
  have hrun := foldlM_append_tokens s [] ts .nothing
  rw [hscan] at hrun
  split at hnew
  · next hbegun =>
      obtain rfl := Option.some.inj hnew
      rw [List.reverse_reverse]
      exact hbegun ▸ hrun
  · exact absurd hnew (by simp)

theorem spells_minus {d : Char} {s : List Char} {new : List Token} (hd : d.isDigit = true)
    (h : Spells (d :: s) new) : Spells ('-' :: d :: s) (.minus :: new) := by
  intro ts
  have hpair : twoMarks? '-' d = none := by
    unfold twoMarks?
    split <;> first | rfl | exact absurd hd (by decide)
  have hstep : Scan.step ⟨ts, .mark '-'⟩ d = Scan.step ⟨.minus :: ts, .nothing⟩ d := by
    have hslash : ¬('-' = '/' ∧ d = '/') := fun h => absurd h.1 (by decide)
    simp only [Scan.step, if_neg hslash, hpair]
    rfl
  change (Scan.step ⟨ts, .mark '-'⟩ d).bind (s.foldlM Scan.step) = _
  rw [hstep]
  refine (h (.minus :: ts)).trans ?_
  simp

theorem spells_separators {s : List Char} (h : ∀ c ∈ s, isSeparator c = true) : Spells s [] := by
  induction s with
  | nil => exact spells_nil
  | cons c s ih =>
      have hstep : Spells [c] [] := by
        intro ts
        change (Scan.start ts c).bind some = _
        rw [Scan.start, if_pos (h c List.mem_cons_self)]
        rfl
      exact hstep.append (ih fun d hd => h d (List.mem_cons_of_mem c hd))

theorem spells_comment {s : List Char} (hfeed : '\n' ∉ s) (hreturn : '\r' ∉ s) :
    Spells ('/' :: '/' :: s ++ ['\n']) [] := by
  have hrest : ∀ ts, (s ++ ['\n']).foldlM Scan.step ⟨ts, .comment⟩ = some ⟨ts, .nothing⟩ := by
    induction s with
    | nil => exact fun ts => rfl
    | cons c s ih =>
        intro ts
        have hc : Scan.step ⟨ts, .comment⟩ c = some ⟨ts, .comment⟩ := by
          have hne : c ≠ '\n' := fun heq => hfeed (heq ▸ List.mem_cons_self)
          have hne' : c ≠ '\r' := fun heq => hreturn (heq ▸ List.mem_cons_self)
          rw [Scan.step]
          simp only [if_neg hne, if_neg hne']
        rw [List.cons_append, List.foldlM_cons, hc]
        exact ih (fun hs => hfeed (List.mem_cons_of_mem c hs))
          (fun hs => hreturn (List.mem_cons_of_mem c hs)) ts
  exact hrest

section Words

variable {w s rest : List Char} {c : Char} {new : List Token}

def Ends (c : Char) : Prop := isWordChar c = false ∧ c ≠ '.' ∧ c ≠ '-'

instance (c : Char) : Decidable (Ends c) := inferInstanceAs (Decidable (_ ∧ _ ∧ _))

theorem foldlM_word (h : ∀ d ∈ w, isWordChar d = true) (ts : List Token) (before : List Char) :
    w.foldlM Scan.step ⟨ts, .word before⟩ = some ⟨ts, .word (w.reverse ++ before)⟩ := by
  induction w generalizing before with
  | nil => rfl
  | cons d w ih =>
      have hd : Scan.step ⟨ts, .word before⟩ d = some ⟨ts, .word (d :: before)⟩ := by
        rw [Scan.step]
        exact if_pos (h d List.mem_cons_self)
      rw [List.foldlM_cons, hd, List.reverse_cons, List.append_assoc]
      exact ih (fun e he => h e (List.mem_cons_of_mem d he)) (d :: before)

theorem isSeparator_of_isWordChar (h : isWordChar c = true) : isSeparator c = false := by
  rw [isSeparator, Bool.or_eq_false_iff, beq_eq_false_iff_ne, beq_eq_false_iff_ne]
  constructor
  · rintro rfl
    exact absurd h (by decide)
  · rintro rfl
    exact absurd h (by decide)

theorem Spells.word (hw : ∃ d v, w = d :: v ∧ isWordStart d = true)
    (hall : ∀ d ∈ w, isWordChar d = true) (hc : Ends c) (hrest : Spells (c :: rest) new) :
    Spells (w ++ c :: rest) (.ofWord w :: new) := by
  obtain ⟨d, v, rfl, hd⟩ := hw
  intro ts
  have hfirst : Scan.step ⟨ts, .nothing⟩ d = some ⟨ts, .word [d]⟩ := by
    change Scan.start ts d = _
    rw [Scan.start, isSeparator_of_isWordChar (hall d List.mem_cons_self), if_neg (by simp),
      if_pos hd]
  have hlast : Scan.step ⟨ts, .word (v.reverse ++ [d])⟩ c =
      Scan.step ⟨.ofWord (d :: v) :: ts, .nothing⟩ c := by
    change (if isWordChar c then _ else _) = Scan.start _ c
    rw [hc.1, if_neg (by simp), List.reverse_append, List.reverse_reverse]
    rfl
  rw [List.foldlM_append, List.foldlM_cons, hfirst]
  change (v.foldlM Scan.step ⟨ts, .word [d]⟩).bind ((c :: rest).foldlM Scan.step) = _
  rw [foldlM_word (fun e he => hall e (List.mem_cons_of_mem d he))]
  change (c :: rest).foldlM Scan.step ⟨ts, .word (v.reverse ++ [d])⟩ = _
  rw [List.foldlM_cons, hlast, ← List.foldlM_cons, hrest]
  simp

def ScansNumber (s : List Char) : Prop :=
  ∀ ts, s.foldlM Scan.step ⟨ts, .nothing⟩ = some ⟨ts, .number s.reverse⟩

theorem ScansNumber.spells (hs : ScansNumber s) (hc : Ends c) (hrest : Spells (c :: rest) new) :
    Spells (s ++ c :: rest) (.number s :: new) := by
  intro ts
  have hlast : Scan.step ⟨ts, .number s.reverse⟩ c = Scan.step ⟨.number s :: ts, .nothing⟩ c := by
    obtain ⟨hword, hpoint, hminus⟩ := hc
    have hsign : (c == '-') = false := by simpa using hminus
    change (if isWordChar c || c == '-' && Scan.awaitsPower s.reverse then _ else _) =
      Scan.start _ c
    rw [hword, hsign, Bool.false_and, Bool.or_false, if_neg (by simp), if_neg hpoint,
      List.reverse_reverse]
  rw [List.foldlM_append, hs]
  change (c :: rest).foldlM Scan.step ⟨ts, .number s.reverse⟩ = _
  rw [List.foldlM_cons, hlast, ← List.foldlM_cons, hrest]
  simp

theorem foldlM_digits (h : Text.AllDigits s) (ts : List Token) (before : List Char) :
    s.foldlM Scan.step ⟨ts, .number before⟩ = some ⟨ts, .number (s.reverse ++ before)⟩ := by
  induction s generalizing before with
  | nil => rfl
  | cons d s ih =>
      have hd : Scan.step ⟨ts, .number before⟩ d = some ⟨ts, .number (d :: before)⟩ := by
        have hword : isWordChar d = true := by
          rw [isWordChar, h d List.mem_cons_self, Bool.or_true]
        change (if isWordChar d || d == '-' && Scan.awaitsPower before then _ else _) = _
        rw [hword, Bool.true_or, if_pos rfl]
      rw [List.foldlM_cons, hd, List.reverse_cons, List.append_assoc]
      exact ih (fun e he => h e (List.mem_cons_of_mem d he)) (d :: before)

theorem isWordStart_of_isDigit (h : c.isDigit = true) : isWordStart c = false := by
  have hrange : 48 ≤ c.toNat ∧ c.toNat ≤ 57 := by
    simp only [Char.isDigit, Bool.and_eq_true, decide_eq_true_eq] at h
    exact h
  have hne : c ≠ '_' := by
    rintro rfl
    exact absurd hrange (by decide)
  have hupper : c.isUpper = false := by
    refine Bool.eq_false_iff.mpr fun h => ?_
    have hlow : 65 ≤ c.toNat := (of_decide_eq_true h).1
    omega
  have hlower : c.isLower = false := by
    refine Bool.eq_false_iff.mpr fun h => ?_
    have hlow : 97 ≤ c.toNat := of_decide_eq_true (Bool.and_eq_true_iff.mp h).1
    omega
  have halpha : c.isAlpha = false := Bool.or_eq_false_iff.mpr ⟨hupper, hlower⟩
  rw [isWordStart, halpha, Bool.false_or]
  exact beq_eq_false_iff_ne.mpr hne

theorem scansNumber_digits (h : Text.AllDigits s) (hs : s ≠ []) : ScansNumber s := by
  obtain ⟨d, s, rfl⟩ := List.exists_cons_of_ne_nil hs
  intro ts
  have hd := h d List.mem_cons_self
  have hfirst : Scan.step ⟨ts, .nothing⟩ d = some ⟨ts, .number [d]⟩ := by
    have hword : isWordChar d = true := by rw [isWordChar, hd, Bool.or_true]
    change Scan.start ts d = _
    rw [Scan.start, isSeparator_of_isWordChar hword, if_neg (by simp), isWordStart_of_isDigit hd,
      if_neg (by simp), if_pos hd]
  rw [List.foldlM_cons, hfirst, List.reverse_cons]
  exact foldlM_digits (fun e he => h e (List.mem_cons_of_mem d he)) ts [d]

theorem ScansNumber.point {t : List Char} (hs : ScansNumber s) (ht : Text.AllDigits t)
    (hne : t ≠ []) : ScansNumber (s ++ '.' :: t) := by
  obtain ⟨d, t, rfl⟩ := List.exists_cons_of_ne_nil hne
  intro ts
  have hd : Scan.step ⟨ts, .point s.reverse⟩ d = some ⟨ts, .number (d :: '.' :: s.reverse)⟩ :=
    if_pos (ht d List.mem_cons_self)
  rw [List.foldlM_append, hs]
  change (Scan.step ⟨ts, .point s.reverse⟩ d).bind (t.foldlM Scan.step) = _
  rw [hd]
  refine (foldlM_digits (fun e he => ht e (List.mem_cons_of_mem d he)) ts _).trans ?_
  simp

theorem ScansNumber.power {n : List Char} (hs : ScansNumber s)
    (hall : ∀ d ∈ s, d.isDigit = true ∨ d = '.') (negative : Bool) (hn : Text.AllDigits n) :
    ScansNumber (s ++ 'e' :: (Binary64.sign negative ++ n)) := by
  intro ts
  have hsign : (Binary64.sign negative).foldlM Scan.step ⟨ts, .number ('e' :: s.reverse)⟩ =
      some ⟨ts, .number ((Binary64.sign negative).reverse ++ 'e' :: s.reverse)⟩ := by
    cases negative with
    | false => rfl
    | true =>
        have hawaits : Scan.awaitsPower ('e' :: s.reverse) = true := by
          simpa [Scan.awaitsPower] using hall
        change (Scan.step ⟨ts, .number ('e' :: s.reverse)⟩ '-').bind some = _
        rw [Scan.step]
        simp only [hawaits]
        rfl
  rw [List.foldlM_append, hs]
  change (Binary64.sign negative ++ n).foldlM Scan.step ⟨ts, .number ('e' :: s.reverse)⟩ = _
  rw [List.foldlM_append, hsign]
  refine (foldlM_digits hn ts _).trans ?_
  simp

end Words

end BoostedTrees.Code
