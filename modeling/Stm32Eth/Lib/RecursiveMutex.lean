import Mathlib.Algebra.Order.Group.Nat

/-!
# Recursive mutexes

A recursive mutex by its laws, for any threads: the thread that owns it can take it again, and has
to give it back as often. `Held` connects it with a count of how often each thread has taken it, so
that a program that keeps such a count gets exclusion from the laws (`Held.eq_of_pos`).
-/

/-- A recursive mutex: whether and how many times it is taken, and by whom. `take` is an attempt,
which does not get through when it gives `none`; `give` tells whether the thread owned the mutex. -/
structure RecursiveMutex (T : Type*) where
  Carrier : Type
  free : Carrier
  owner : Carrier → Option (T × ℕ)
  take : T → Carrier → Option Carrier
  give : T → Carrier → Bool × Carrier
  owner_free : owner free = none
  take_free : ∀ t m, owner m = none → ∃ m', take t m = some m' ∧ owner m' = some (t, 1)
  take_again : ∀ t m n, owner m = some (t, n) →
    ∃ m', take t m = some m' ∧ owner m' = some (t, n + 1)
  take_blocks : ∀ t m o n, owner m = some (o, n) → o ≠ t → take t m = none
  give_last : ∀ t m, owner m = some (t, 1) → (give t m).1 = true ∧ owner (give t m).2 = none
  give_nested : ∀ t m n, owner m = some (t, n + 2) →
    (give t m).1 = true ∧ owner (give t m).2 = some (t, n + 1)

namespace RecursiveMutex

variable {T : Type*} {mutex : RecursiveMutex T} {m m' : mutex.Carrier} {taken : T → ℕ}

/-- The mutex is taken as often as `taken` says: by nobody, or by one thread. -/
structure Held (mutex : RecursiveMutex T) (m : mutex.Carrier) (taken : T → ℕ) : Prop where
  free : mutex.owner m = none → ∀ t, taken t = 0
  owned : ∀ o n, mutex.owner m = some (o, n) → 0 < n ∧ n = taken o ∧ ∀ t, t ≠ o → taken t = 0

/-- A free mutex. -/
theorem held_of_free (hfree : mutex.owner m = none) (hzero : ∀ t, taken t = 0) :
    mutex.Held m taken := by
  refine ⟨fun _ => hzero, fun o n howner => ?_⟩
  rw [hfree] at howner
  exact absurd howner.symm (Option.some_ne_none _)

namespace Held

/-- A thread that has taken the mutex owns it. -/
theorem owner_eq (h : mutex.Held m taken) {t : T} (ht : 0 < taken t) :
    mutex.owner m = some (t, taken t) := by
  cases howner : mutex.owner m with
  | none => exact absurd (h.free howner t) ht.ne'
  | some p =>
      obtain ⟨o, n⟩ := p
      obtain ⟨-, rfl, hzero⟩ := h.owned o n howner
      have hto : t = o := by
        by_contra hne
        exact ht.ne' (hzero t hne)
      rw [hto]

/-- No other thread has taken it. -/
theorem eq_zero (h : mutex.Held m taken) {t u : T} (ht : 0 < taken t) (hne : u ≠ t) :
    taken u = 0 :=
  (h.owned t _ (h.owner_eq ht)).2.2 u hne

/-- **Exclusion.** -/
theorem eq_of_pos (h : mutex.Held m taken) {t u : T} (ht : 0 < taken t) (hu : 0 < taken u) :
    t = u := by
  by_contra hne
  exact ht.ne' (h.eq_zero hu hne)

/-- A thread that gets the mutex is the only one that has taken it. -/
theorem eq_zero_of_take (h : mutex.Held m taken) {t u : T} (htake : mutex.take t m = some m')
    (hne : u ≠ t) : taken u = 0 := by
  by_contra hu
  have hblocks := mutex.take_blocks t m u _ (h.owner_eq (Nat.pos_of_ne_zero hu)) hne
  rw [hblocks] at htake
  exact Option.some_ne_none _ htake.symm

/-- **Step.** A thread takes the mutex. -/
theorem take (h : mutex.Held m taken) {t : T} (htake : mutex.take t m = some m')
    {taken' : T → ℕ} (ht : taken' t = taken t + 1) (hother : ∀ u, u ≠ t → taken' u = taken u) :
    mutex.Held m' taken' := by
  have howner : mutex.owner m' = some (t, taken' t) := by
    rcases Nat.eq_zero_or_pos (taken t) with hzero | hpos
    · have hfree : mutex.owner m = none := by
        cases howner : mutex.owner m with
        | none => rfl
        | some p =>
            obtain ⟨o, n⟩ := p
            obtain ⟨hn, rfl, -⟩ := h.owned o n howner
            by_cases hot : o = t
            · exact absurd (hot ▸ hzero) hn.ne'
            · exact absurd (h.eq_zero_of_take htake hot) hn.ne'
      obtain ⟨r, hr, howner⟩ := mutex.take_free t m hfree
      obtain rfl := Option.some.inj (hr.symm.trans htake)
      rw [howner, ht, hzero]
    · obtain ⟨r, hr, howner⟩ := mutex.take_again t m _ (h.owner_eq hpos)
      obtain rfl := Option.some.inj (hr.symm.trans htake)
      rw [howner, ht]
  refine ⟨fun hfree => ?_, fun o n ho => ?_⟩
  · rw [howner] at hfree
    exact absurd hfree (Option.some_ne_none _)
  · obtain ⟨rfl, rfl⟩ := Prod.mk.inj (Option.some.inj (howner.symm.trans ho))
    refine ⟨by omega, rfl, fun u hu => ?_⟩
    rw [hother u hu]
    exact h.eq_zero_of_take htake hu

/-- **Step.** A thread that has taken the mutex gives it back. -/
theorem give (h : mutex.Held m taken) {t : T} (hpos : 0 < taken t) {taken' : T → ℕ}
    (ht : taken' t + 1 = taken t) (hother : ∀ u, u ≠ t → taken' u = taken u) :
    (mutex.give t m).1 = true ∧ mutex.Held (mutex.give t m).2 taken' := by
  have howner := h.owner_eq hpos
  have hzero : ∀ u, u ≠ t → taken' u = 0 := fun u hu =>
    (hother u hu).trans (h.eq_zero hpos hu)
  rw [← ht] at howner
  cases hleft : taken' t with
  | zero =>
      rw [hleft] at howner
      obtain ⟨hok, hfree⟩ := mutex.give_last t m howner
      refine ⟨hok, held_of_free hfree fun u => ?_⟩
      by_cases hu : u = t
      · rw [hu, hleft]
      · exact hzero u hu
  | succ n =>
      rw [hleft] at howner
      obtain ⟨hok, howner'⟩ := mutex.give_nested t m n howner
      refine ⟨hok, fun hfree => ?_, fun o k ho => ?_⟩
      · rw [howner'] at hfree
        exact absurd hfree (Option.some_ne_none _)
      · obtain ⟨rfl, rfl⟩ := Prod.mk.inj (Option.some.inj (howner'.symm.trans ho))
        exact ⟨n.succ_pos, hleft.symm, hzero⟩

end Held

/-- A mutex that counts: `some (t, n)` when `t` has taken it `n + 1` times. -/
def counting (T : Type) [DecidableEq T] : RecursiveMutex T where
  Carrier := Option (T × ℕ)
  free := none
  owner m := m.map fun p => (p.1, p.2 + 1)
  take t m := match m with
    | none => some (some (t, 0))
    | some (o, n) => if o = t then some (some (o, n + 1)) else none
  give t m := match m with
    | some (o, 0) => if o = t then (true, none) else (false, m)
    | some (o, n + 1) => if o = t then (true, some (o, n)) else (false, m)
    | none => (false, m)
  owner_free := rfl
  take_free t m h := by
    obtain rfl := Option.map_eq_none_iff.mp h
    exact ⟨_, rfl, rfl⟩
  take_again t m n h := by
    obtain ⟨⟨o, k⟩, rfl, hp⟩ := Option.map_eq_some_iff.mp h
    obtain ⟨rfl, rfl⟩ := Prod.mk.inj hp
    exact ⟨_, if_pos rfl, rfl⟩
  take_blocks t m o n h hne := by
    obtain ⟨⟨o', k⟩, rfl, hp⟩ := Option.map_eq_some_iff.mp h
    obtain ⟨rfl, rfl⟩ := Prod.mk.inj hp
    exact if_neg hne
  give_last t m h := by
    obtain ⟨⟨o, k⟩, rfl, hp⟩ := Option.map_eq_some_iff.mp h
    obtain ⟨rfl, hk⟩ := Prod.mk.inj hp
    obtain rfl : k = 0 := by simpa using hk
    simp
  give_nested t m n h := by
    obtain ⟨⟨o, k⟩, rfl, hp⟩ := Option.map_eq_some_iff.mp h
    obtain ⟨rfl, hk⟩ := Prod.mk.inj hp
    obtain rfl : k = n + 1 := by simpa using hk
    simp

end RecursiveMutex
