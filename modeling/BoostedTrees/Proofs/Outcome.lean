import Mathlib.Data.List.Forall2

namespace BoostedTrees.Outcome

variable {ε ε' α β γ : Type}

theorem bind_ok {x : Except ε α} {f : α → Except ε β} {b : β} :
    (x >>= f) = .ok b ↔ ∃ a, x = .ok a ∧ f a = .ok b := by
  cases x with
  | ok a => simp [bind, Except.bind]
  | error e => simp [bind, Except.bind]

theorem bind_error {x : Except ε α} {f : α → Except ε β} {e : ε} :
    (x >>= f) = .error e ↔ x = .error e ∨ ∃ a, x = .ok a ∧ f a = .error e := by
  cases x with
  | ok a => simp [bind, Except.bind]
  | error e => simp [bind, Except.bind]

theorem map_ok {x : Except ε α} {f : α → β} {b : β} :
    x.map f = .ok b ↔ ∃ a, x = .ok a ∧ f a = b := by
  cases x with
  | ok a => simp [Except.map]
  | error e => simp [Except.map]

theorem map_error {x : Except ε α} {f : α → β} {e : ε} : x.map f = .error e ↔ x = .error e := by
  cases x with
  | ok a => simp [Except.map]
  | error e => simp [Except.map]

theorem ite_ok {p : Prop} [Decidable p] {x y : Except ε α} {a : α} :
    (if p then x else y) = .ok a ↔ if p then x = .ok a else y = .ok a := by
  split <;> rfl

@[simp]
theorem mapError_of_ok {f : ε → ε'} {a : α} : (Except.ok a).mapError f = .ok a := rfl

@[simp]
theorem mapError_of_error {f : ε → ε'} {e : ε} :
    (Except.error e : Except ε α).mapError f = .error (f e) := rfl

theorem mapError_ok {x : Except ε α} {f : ε → ε'} {a : α} :
    x.mapError f = .ok a ↔ x = .ok a := by
  cases x with
  | ok a => simp
  | error e => simp

theorem mapError_error {x : Except ε α} {f : ε → ε'} {e' : ε'} :
    x.mapError f = .error e' ↔ ∃ e, x = .error e ∧ f e = e' := by
  cases x with
  | ok a => simp
  | error e => simp

theorem mapM_ok {f : α → Except ε β} {xs : List α} {ys : List β} :
    xs.mapM f = .ok ys ↔ List.Forall₂ (fun x y => f x = .ok y) xs ys := by
  induction xs generalizing ys with
  | nil => cases ys <;> simp [pure, Except.pure]
  | cons x xs ih =>
      rw [List.mapM_cons, bind_ok]
      constructor
      · rintro ⟨y, hy, h⟩
        obtain ⟨rest, hrest, h⟩ := bind_ok.mp h
        obtain rfl : y :: rest = ys := by simpa [pure, Except.pure] using h
        exact .cons hy (ih.mp hrest)
      · intro h
        cases h with
        | cons hy hrest =>
            exact ⟨_, hy, bind_ok.mpr ⟨_, ih.mpr hrest, rfl⟩⟩

theorem mapM_error {f : α → Except ε β} {xs : List α} {e : ε} :
    xs.mapM f = .error e ↔ ∃ before x after, xs = before ++ x :: after ∧
      (∀ y ∈ before, ∃ b, f y = .ok b) ∧ f x = .error e := by
  induction xs with
  | nil => simp [pure, Except.pure]
  | cons x xs ih =>
      rw [List.mapM_cons, bind_error]
      constructor
      · rintro (hx | ⟨b, hx, h⟩)
        · exact ⟨[], x, xs, rfl, nofun, hx⟩
        · rcases bind_error.mp h with h | ⟨ys, -, h⟩
          · obtain ⟨before, y, after, rfl, hbefore, hy⟩ := ih.mp h
            exact ⟨x :: before, y, after, rfl, List.forall_mem_cons.mpr ⟨⟨b, hx⟩, hbefore⟩, hy⟩
          · exact absurd h (by simp [pure, Except.pure])
      · rintro ⟨before, y, after, hsplit, hbefore, hy⟩
        cases before with
        | nil =>
            obtain ⟨rfl, rfl⟩ := List.cons.inj hsplit
            exact .inl hy
        | cons z before =>
            obtain ⟨rfl, rfl⟩ := List.cons.inj hsplit
            obtain ⟨⟨b, hb⟩, hbefore⟩ := List.forall_mem_cons.mp hbefore
            exact .inr ⟨b, hb, bind_error.mpr (.inl (ih.mpr ⟨before, y, after, rfl, hbefore, hy⟩))⟩

theorem exists_mapM_ok {f : α → Except ε β} {xs : List α} :
    (∃ ys, xs.mapM f = .ok ys) ↔ ∀ x ∈ xs, ∃ y, f x = .ok y := by
  constructor
  · rintro ⟨ys, h⟩
    induction mapM_ok.mp h with
    | nil => exact nofun
    | cons hy hrest ih => exact List.forall_mem_cons.mpr ⟨⟨_, hy⟩, ih (mapM_ok.mpr hrest)⟩
  · intro h
    cases hmapM : xs.mapM f with
    | ok ys => exact ⟨ys, rfl⟩
    | error e =>
        obtain ⟨before, x, after, rfl, -, hx⟩ := mapM_error.mp hmapM
        obtain ⟨y, hy⟩ := h x (by simp)
        exact absurd (hx.symm.trans hy) (by simp)

theorem foldlM_keeps {P : β → Prop} {f : β → α → Except ε β} {xs : List α} {start stop : β}
    (hstep : ∀ s x s', x ∈ xs → P s → f s x = .ok s' → P s') (hstart : P start)
    (h : xs.foldlM f start = .ok stop) : P stop := by
  induction xs generalizing start with
  | nil =>
      obtain rfl : start = stop := by simpa [pure, Except.pure] using h
      exact hstart
  | cons x xs ih =>
      rw [List.foldlM_cons] at h
      obtain ⟨next, hnext, h⟩ := bind_ok.mp h
      exact ih (fun s y s' hy => hstep s y s' (List.mem_cons_of_mem x hy))
        (hstep start x next List.mem_cons_self hstart hnext) h

theorem foldlM_step {f : β → α → Except ε β} {xs : List α} {start stop : β} {x : α}
    (h : xs.foldlM f start = .ok stop) (hx : x ∈ xs) : ∃ s s', f s x = .ok s' := by
  induction xs generalizing start with
  | nil => exact absurd hx List.not_mem_nil
  | cons y ys ih =>
      rw [List.foldlM_cons] at h
      obtain ⟨next, hnext, h⟩ := bind_ok.mp h
      rcases List.mem_cons.mp hx with rfl | hx
      · exact ⟨start, next, hnext⟩
      · exact ih h hx

theorem exists_ok {x : Except ε α} (h : x.toOption.isSome = true) : ∃ a, x = .ok a := by
  cases x with
  | ok a => exact ⟨a, rfl⟩
  | error e => exact absurd h (by simp [Except.toOption])

theorem exists_both_ok {x : Except ε α} {f : α → Except ε' β}
    (h : (x.toOption.bind fun a => (f a).toOption).isSome = true) :
    ∃ a b, x = .ok a ∧ f a = .ok b := by
  cases x with
  | ok a =>
      obtain ⟨b, hb⟩ := exists_ok h
      exact ⟨a, b, rfl, hb⟩
  | error e => exact absurd h (by simp [Except.toOption])

theorem getElem?_replaced {xs : Array α} {i j : Nat} {a x : α} (h : xs[i]? = some x) :
    (xs.setIfInBounds i a)[j]? = if i = j then some a else xs[j]? := by
  obtain ⟨hi, -⟩ := Array.getElem?_eq_some_iff.mp h
  rw [Array.getElem?_setIfInBounds, if_pos hi]

theorem countP_replaced {p : α → Bool} {xs : Array α} {i : Nat} {a x : α} (h : xs[i]? = some x) :
    (xs.setIfInBounds i a).countP p + (if p x then 1 else 0) =
      xs.countP p + if p a then 1 else 0 := by
  obtain ⟨hi, hx⟩ := Array.getElem?_eq_some_iff.mp h
  have hpos : p x = true → 0 < xs.countP p := by
    intro hp
    exact Array.countP_pos_iff.mpr ⟨x, hx ▸ Array.getElem_mem hi, hp⟩
  rw [Array.setIfInBounds, dif_pos hi, Array.countP_set, hx]
  by_cases hp : p x = true
  · have := hpos hp
    simp only [hp, if_true]
    omega
  · simp [hp]

theorem lookup_removed {xs : List (String × α)} {key other : String} :
    (xs.filter fun x => x.1 != key).lookup other =
      if other = key then none else xs.lookup other := by
  induction xs with
  | nil => simp
  | cons x rest ih =>
      obtain ⟨k, a⟩ := x
      rw [List.filter_cons, List.lookup_cons]
      by_cases hk : k = key
      · subst hk
        rw [if_neg (by simp), ih]
        by_cases hother : other = k
        · rw [if_pos hother, if_pos hother]
        · rw [if_neg hother, if_neg hother, beq_eq_false_iff_ne.mpr hother]
      · rw [if_pos (by simpa using hk), List.lookup_cons, ih]
        by_cases hother : other = k
        · simp [hother, hk]
        · rw [beq_eq_false_iff_ne.mpr hother]

end BoostedTrees.Outcome
