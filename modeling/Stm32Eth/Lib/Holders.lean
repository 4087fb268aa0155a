import Mathlib.Data.Set.Insert
import Mathlib.Logic.Function.Basic

/-!
# Holders of items

Any number of holders, each with at most one item: `Exactly holds live` says that the live items are
exactly those that somebody holds, each by one holder only. Then nothing is held that is not live,
nothing live is lost, and no two holders share an item. A holder gets an item that was not live, or
gives up its own; all other holders keep theirs.
-/

namespace Holders

variable {T α : Type*}

/-- The live items are exactly those held, each by one holder. -/
structure Exactly (holds : T → Option α) (live : Set α) : Prop where
  mem_iff : ∀ a, a ∈ live ↔ ∃ t, holds t = some a
  unique : ∀ t t' a, holds t = some a → holds t' = some a → t = t'

namespace Exactly

variable {holds holds' : T → Option α} {live : Set α}

/-- Nobody holds anything. -/
theorem empty (h : ∀ t, holds t = none) : Exactly holds (∅ : Set α) where
  mem_iff a := by simp [h]
  unique t t' a ht := by
    rw [h t] at ht
    exact absurd ht (by simp)

/-- What is held is live. -/
theorem mem (h : Exactly holds live) {t : T} {a : α} (ht : holds t = some a) : a ∈ live :=
  (h.mem_iff a).mpr ⟨t, ht⟩

/-- Every live item has exactly one holder. -/
theorem existsUnique (h : Exactly holds live) {a : α} (ha : a ∈ live) : ∃! t, holds t = some a := by
  rcases (h.mem_iff a).mp ha with ⟨t, ht⟩
  exact ⟨t, ht, fun t' ht' => h.unique t' t a ht' ht⟩

/-- Two holders do not share an item. -/
theorem ne (h : Exactly holds live) {t t' : T} (hne : t ≠ t') {a a' : α} (ht : holds t = some a)
    (ht' : holds t' = some a') : a ≠ a' := by
  rintro rfl
  exact hne (h.unique t t' a ht ht')

/-- When nobody holds anything, nothing is live. -/
theorem eq_empty (h : Exactly holds live) (hnone : ∀ t, holds t = none) : live = ∅ := by
  apply Set.eq_empty_of_forall_notMem
  intro a ha
  rcases (h.mem_iff a).mp ha with ⟨t, ht⟩
  rw [hnone t] at ht
  exact absurd ht (by simp)

/-- Nobody's item changes. -/
theorem congr (h : Exactly holds live) (hsame : ∀ t, holds' t = holds t) : Exactly holds' live := by
  have heq : holds' = holds := funext hsame
  rw [heq]
  exact h

/-- A holder without an item gets one that was not live. -/
theorem acquire (h : Exactly holds live) {t : T} {a : α} (hnone : holds t = none) (ha : a ∉ live)
    (ht : holds' t = some a) (hother : ∀ t', t' ≠ t → holds' t' = holds t') :
    Exactly holds' (insert a live) where
  mem_iff b := by
    rw [Set.mem_insert_iff, h.mem_iff b]
    constructor
    · rintro (rfl | ⟨t', ht'⟩)
      · exact ⟨t, ht⟩
      · refine ⟨t', (hother t' ?_).trans ht'⟩
        rintro rfl
        exact absurd (hnone.symm.trans ht') (by simp)
    · rintro ⟨t', ht'⟩
      by_cases heq : t' = t
      · subst heq
        exact .inl (Option.some.inj (ht'.symm.trans ht))
      · exact .inr ⟨t', (hother t' heq).symm.trans ht'⟩
  unique u v b hu hv := by
    -- nobody else has the new item
    have hnew : ∀ w, w ≠ t → holds' w ≠ some a := by
      intro w hw hwa
      exact ha (h.mem ((hother w hw).symm.trans hwa))
    by_cases hu' : u = t
    · subst hu'
      obtain rfl := Option.some.inj (ht.symm.trans hu)
      by_contra hne
      exact hnew v (Ne.symm hne) hv
    · by_cases hv' : v = t
      · subst hv'
        obtain rfl := Option.some.inj (ht.symm.trans hv)
        exact absurd hu (hnew u hu')
      · exact h.unique u v b ((hother u hu').symm.trans hu) ((hother v hv').symm.trans hv)

/-- A holder gives up its item. -/
theorem release (h : Exactly holds live) {t : T} {a : α} (hsome : holds t = some a)
    (ht : holds' t = none) (hother : ∀ t', t' ≠ t → holds' t' = holds t') :
    Exactly holds' (live \ {a}) where
  mem_iff b := by
    rw [Set.mem_sdiff, Set.mem_singleton_iff, h.mem_iff b]
    constructor
    · rintro ⟨⟨t', ht'⟩, hb⟩
      refine ⟨t', (hother t' ?_).trans ht'⟩
      rintro rfl
      exact hb (Option.some.inj (ht'.symm.trans hsome))
    · rintro ⟨t', ht'⟩
      have hne : t' ≠ t := by
        rintro rfl
        exact absurd (ht.symm.trans ht') (by simp)
      have hheld := (hother t' hne).symm.trans ht'
      refine ⟨⟨t', hheld⟩, ?_⟩
      rintro rfl
      exact hne (h.unique t' t b hheld hsome)
  unique u v b hu hv := by
    have hne : ∀ w, holds' w = some b → w ≠ t := by
      rintro w hw rfl
      exact absurd (ht.symm.trans hw) (by simp)
    exact h.unique u v b ((hother u (hne u hu)).symm.trans hu) ((hother v (hne v hv)).symm.trans hv)

end Exactly

end Holders
