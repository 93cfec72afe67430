import BoostedTrees.Proofs.Registry.Calls

namespace BoostedTrees

namespace Registry

variable {r : Registry} {name : String} {number : Nat}

def HasEntry (r : Registry) (name : String) (number : Nat) : Prop := (name, number) ∈ r.cache

def Distinct (r : Registry) : Prop := (r.cache.map Prod.fst).Nodup

theorem lookup_iff_hasEntry (hr : r.Distinct) :
    r.cache.lookup name = some number ↔ r.HasEntry name number := by
  unfold Distinct at hr
  unfold HasEntry
  generalize r.cache = cache at hr ⊢
  induction cache with
  | nil => simp
  | cons entry rest ih =>
      obtain ⟨key, value⟩ := entry
      obtain ⟨hfresh, hrest⟩ := List.nodup_cons.mp hr
      rw [List.lookup_cons, List.mem_cons, Prod.mk.injEq]
      by_cases hkey : name = key
      · subst hkey
        have hout : (name, number) ∉ rest := fun hmem =>
          hfresh (List.mem_map.mpr ⟨_, hmem, rfl⟩)
        simp [hout, eq_comm]
      · have hne : (name == key) = false := beq_eq_false_iff_ne.mpr hkey
        simp [hkey, hne, ih hrest]

theorem hasEntry_forget {other : String} :
    (r.forget name).HasEntry other number ↔ other ≠ name ∧ r.HasEntry other number := by
  simp [HasEntry, forget, and_comm]

theorem hasEntry_remember {other : String} {n : Nat} : (r.remember name n).HasEntry other number ↔
    (other = name ∧ number = n) ∨ (other ≠ name ∧ r.HasEntry other number) := by
  simp [HasEntry, remember, and_comm]

theorem Distinct.filter (hr : r.Distinct) (p : String × Nat → Bool) :
    Distinct { r with cache := r.cache.filter p } :=
  hr.sublist (List.filter_sublist.map Prod.fst)

theorem Distinct.remember (hr : r.Distinct) : (r.remember name number).Distinct := by
  refine List.nodup_cons.mpr ⟨?_, hr.filter _⟩
  simp

end Registry

namespace Trace

variable {t : Trace} {name : String} {i j : Instance}

structure Consistent (t : Trace) : Prop where
  number_lt : ∀ i, t.history.Gave i → i.number < t.session.registry.nextNumber
  number_inj : ∀ i j, t.history.Gave i → t.history.Gave j → i.number = j.number → i = j
  gave : ∀ i, t.session.Holds i → t.history.Gave i
  distinct : t.session.registry.Distinct
  named : ∀ name number, t.session.registry.HasEntry name number → isModelName name = true
  latest : ∀ name number, t.session.registry.HasEntry name number →
    ∃ i, t.history.latest? name = some i ∧ i.number = number ∧
      t.history.releasedSince name = false
  entered : ∀ name i, t.Live name i → t.session.registry.HasEntry name i.number

theorem Consistent.live_iff (ht : t.Consistent) :
    t.Live name i ↔ t.session.Holds i ∧ t.session.registry.HasEntry name i.number := by
  constructor
  · intro h
    exact ⟨h.held, ht.entered name i h⟩
  · rintro ⟨hheld, hentry⟩
    obtain ⟨j, hlatest, hnumber, hkept⟩ := ht.latest name i.number hentry
    obtain rfl : j = i :=
      ht.number_inj j i (History.gave_of_latest? hlatest) (ht.gave i hheld) hnumber
    exact ⟨hlatest, hheld, hkept⟩

theorem Consistent.live_iff_lookup (ht : t.Consistent) : t.Live name i ↔
    t.session.Holds i ∧ t.session.registry.cache.lookup name = some i.number := by
  rw [ht.live_iff, Registry.lookup_iff_hasEntry ht.distinct]

theorem consistent_start (settings : Settings) (files : FileTree) :
    (start settings files).Consistent where
  number_lt i h := by simp [start, History.Gave] at h
  number_inj i _ h := by simp [start, History.Gave] at h
  gave i h := by simp [start, Session.Holds] at h
  distinct := by simp [start, Registry.Distinct]
  named name _ h := by simp [start, Registry.HasEntry] at h
  latest name _ h := by simp [start, Registry.HasEntry] at h
  entered name i h := absurd h.latest (by simp [start, History.latest?])

variable {s : Session} {x : Exchange}

theorem Consistent.remove (ht : t.Consistent) (hgives : ∀ name, x.gives? name = none)
    (hnext : s.registry.nextNumber = t.session.registry.nextNumber)
    (hholds : ∀ i, s.Holds i → t.session.Holds i) (hdistinct : s.registry.Distinct)
    (hsub : ∀ name number, s.registry.HasEntry name number →
      t.session.registry.HasEntry name number ∧ x.releases name = false)
    (hkeep : ∀ name i, t.session.registry.HasEntry name i.number → s.Holds i →
      x.releases name = false → s.registry.HasEntry name i.number) :
    Consistent ⟨s, x :: t.history⟩ := by
  have hgave : ∀ i, History.Gave (x :: t.history) i ↔ t.history.Gave i := by
    intro i
    simp [History.gave_cons, hgives]
  have hlatest : ∀ name, History.latest? (x :: t.history) name = t.history.latest? name :=
    fun name => History.latest?_of_gives_none (hgives name)
  have hsince : ∀ name, History.releasedSince (x :: t.history) name =
      (x.releases name || t.history.releasedSince name) :=
    fun name => History.releasedSince_of_gives_none (hgives name)
  refine
    { number_lt := ?_
      number_inj := ?_
      gave := ?_
      distinct := hdistinct
      named := ?_
      latest := ?_
      entered := ?_ }
  · intro i hi
    rw [hnext]
    exact ht.number_lt i ((hgave i).mp hi)
  · intro i j hi hj
    exact ht.number_inj i j ((hgave i).mp hi) ((hgave j).mp hj)
  · intro i hi
    exact (hgave i).mpr (ht.gave i (hholds i hi))
  · intro name number hentry
    exact ht.named name number (hsub name number hentry).1
  · intro name number hentry
    obtain ⟨hentry, hreleases⟩ := hsub name number hentry
    obtain ⟨i, hi, hnumber, hkept⟩ := ht.latest name number hentry
    exact ⟨i, (hlatest name).trans hi, hnumber, by rw [hsince, hreleases, hkept]; rfl⟩
  · intro name i hlive
    have hkept := hlive.kept
    rw [hsince, Bool.or_eq_false_iff] at hkept
    have hlive' : t.Live name i :=
      ⟨(hlatest name).symm.trans hlive.latest, hholds i hlive.held, hkept.2⟩
    exact hkeep name i (ht.entered name i hlive') hlive.held hkept.1

theorem Consistent.give (ht : t.Consistent) {asked : String} (hasked : isModelName asked = true)
    (hgives : ∀ name, x.gives? name = if asked = name then some i else none)
    (hnext : t.session.registry.nextNumber ≤ s.registry.nextNumber)
    (hnumber : i.number < s.registry.nextNumber)
    (hinj : ∀ j, t.history.Gave j → j.number = i.number → j = i)
    (hholds : ∀ j, s.Holds j → j = i ∨ t.session.Holds j)
    (hheld : t.history.Gave i → t.session.Holds i) (hdistinct : s.registry.Distinct)
    (hentries : ∀ name number, s.registry.HasEntry name number ↔
      (name = asked ∧ number = i.number) ∨
        (name ≠ asked ∧ t.session.registry.HasEntry name number)) :
    Consistent ⟨s, x :: t.history⟩ := by
  have hgave : ∀ j, History.Gave (x :: t.history) j ↔ j = i ∨ t.history.Gave j := by
    intro j
    simp [History.gave_cons, hgives, eq_comm]
  have hasks : x.gives? asked = some i := by
    rw [hgives, if_pos rfl]
  have hnew : History.latest? (x :: t.history) asked = some i := History.latest?_of_gives hasks
  have hold : ∀ name, name ≠ asked →
      History.latest? (x :: t.history) name = t.history.latest? name ∧
        History.releasedSince (x :: t.history) name = t.history.releasedSince name := by
    intro name hname
    have hother : x.gives? name = none := by
      rw [hgives, if_neg (Ne.symm hname)]
    refine ⟨History.latest?_of_gives_none hother, ?_⟩
    rw [History.releasedSince_of_gives_none hother, Exchange.releases_of_gives hasks]
    rfl
  refine
    { number_lt := ?_
      number_inj := ?_
      gave := ?_
      distinct := hdistinct
      named := ?_
      latest := ?_
      entered := ?_ }
  · intro j hj
    rcases (hgave j).mp hj with rfl | hj
    · exact hnumber
    · exact Nat.lt_of_lt_of_le (ht.number_lt j hj) hnext
  · intro j k hj hk heq
    rcases (hgave j).mp hj with rfl | hj
    · rcases (hgave k).mp hk with rfl | hk
      · rfl
      · exact (hinj k hk heq.symm).symm
    · rcases (hgave k).mp hk with rfl | hk
      · exact hinj j hj heq
      · exact ht.number_inj j k hj hk heq
  · intro j hj
    rcases hholds j hj with rfl | hj
    · exact (hgave j).mpr (.inl rfl)
    · exact (hgave j).mpr (.inr (ht.gave j hj))
  · intro name number hentry
    rcases (hentries name number).mp hentry with ⟨rfl, -⟩ | ⟨-, hentry⟩
    · exact hasked
    · exact ht.named name number hentry
  · intro name number hentry
    rcases (hentries name number).mp hentry with ⟨rfl, rfl⟩ | ⟨hname, hentry⟩
    · exact ⟨i, hnew, rfl, History.releasedSince_of_gives hasks⟩
    · obtain ⟨hlatest, hsince⟩ := hold name hname
      rw [hlatest, hsince]
      exact ht.latest name number hentry
  · intro name j hlive
    rw [hentries]
    by_cases hname : name = asked
    · subst hname
      obtain rfl : i = j := Option.some.inj (hnew.symm.trans hlive.latest)
      exact .inl ⟨rfl, rfl⟩
    · obtain ⟨hlatest, hsince⟩ := hold name hname
      have hj : t.history.latest? name = some j := hlatest.symm.trans hlive.latest
      have hheldj : t.session.Holds j := by
        rcases hholds j hlive.held with rfl | hj'
        · exact hheld (History.gave_of_latest? hj)
        · exact hj'
      exact .inr ⟨hname, ht.entered name j ⟨hj, hheldj, hsince.symm.trans hlive.kept⟩⟩

end Trace

end BoostedTrees
