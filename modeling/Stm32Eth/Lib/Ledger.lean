import Mathlib.Algebra.BigOperators.Group.Finset.Piecewise
import Mathlib.Algebra.Order.BigOperators.Group.Finset
import Mathlib.Algebra.Order.Group.Multiset
import Stm32Eth.Lib.Transition

/-!
# Ownership ledgers

A ledger says what each of finitely many owners holds, as a multiset of items. When no item occurs
twice in the total of a ledger, every item of it has exactly one owner and that owner holds it
once. Moving items from one owner to another leaves the total unchanged, so it is the same in every
state of the machine `moves` that only ever moves items along the edges of an ownership graph.
-/

namespace Ledger

variable {Ω α : Type*} [Fintype Ω]

/-- Everything the owners hold together. -/
def total (L : Ω → Multiset α) : Multiset α := ∑ o, L o

/-- What one owner holds is part of the total. -/
theorem le_total (L : Ω → Multiset α) (o : Ω) : L o ≤ total L :=
  Finset.single_le_sum (f := L) (fun _ _ => Multiset.zero_le _) (Finset.mem_univ o)

/-- What two owners hold together is part of the total. -/
theorem add_le_total (L : Ω → Multiset α) {o o' : Ω} (hne : o ≠ o') : L o + L o' ≤ total L := by
  classical
  have hle : ∑ x ∈ {o, o'}, L x ≤ total L :=
    Finset.sum_le_sum_of_subset (Finset.subset_univ _)
  rwa [Finset.sum_pair hne] at hle

/-- An item is in the total exactly when some owner holds it. -/
theorem mem_total {L : Ω → Multiset α} {a : α} : a ∈ total L ↔ ∃ o, a ∈ L o := by
  simp [total, Multiset.mem_sum]

variable {L : Ω → Multiset α}

/-- Without duplicates in the total, each owner holds an item at most once. -/
theorem nodup_owner (hL : (total L).Nodup) (o : Ω) : (L o).Nodup :=
  Multiset.nodup_of_le (le_total L o) hL

/-- Without duplicates in the total, two owners never hold the same item. -/
theorem owner_unique (hL : (total L).Nodup) {a : α} {o o' : Ω} (h : a ∈ L o) (h' : a ∈ L o') :
    o = o' := by
  by_contra hne
  have hnd := Multiset.nodup_of_le (add_le_total L hne) hL
  exact Multiset.disjoint_left.mp (Multiset.nodup_add.mp hnd).2.2 h h'

/-- **Exactly one owner.** Without duplicates in the total, every item of it has exactly one
owner. -/
theorem existsUnique_owner (hL : (total L).Nodup) {a : α} (ha : a ∈ total L) :
    ∃! o, a ∈ L o := by
  obtain ⟨o, ho⟩ := mem_total.mp ha
  exact ⟨o, ho, fun _ h' => owner_unique hL h' ho⟩

/-- The number of items is the sum of what the owners hold. -/
theorem card_total (L : Ω → Multiset α) : Multiset.card (total L) = ∑ o, Multiset.card (L o) := by
  simp [total]

/-! ## Moving items between owners -/

/-- `Transfer o o' m L L'`: the items `m` move from the owner `o` to the owner `o'`, and no other
holding changes. -/
def Transfer [DecidableEq Ω] (o o' : Ω) (m : Multiset α) (L L' : Ω → Multiset α) : Prop :=
  ∀ x, L' x + (if x = o then m else 0) = L x + (if x = o' then m else 0)

/-- **Conservation.** A transfer leaves the total unchanged. -/
theorem Transfer.total_eq [DecidableEq Ω] {o o' : Ω} {m : Multiset α} {L L' : Ω → Multiset α}
    (h : Transfer o o' m L L') : total L' = total L := by
  have hsum : ∑ x, (L' x + if x = o then m else 0) = ∑ x, (L x + if x = o' then m else 0) :=
    Finset.sum_congr rfl fun x _ => h x
  rw [Finset.sum_add_distrib, Finset.sum_add_distrib, Finset.sum_ite_eq', Finset.sum_ite_eq',
    if_pos (Finset.mem_univ o), if_pos (Finset.mem_univ o')] at hsum
  exact add_right_cancel hsum

/-- The machine of an ownership graph: from any distribution of `items`, items move between owners
along its edges. A step is labelled with the two owners and what moves. -/
def moves [DecidableEq Ω] (items : Multiset α) (edge : Ω → Ω → Prop) :
    Transition.System (Ω → Multiset α) (Ω × Ω × Multiset α) where
  init L := total L = items
  step L d L' := edge d.1 d.2.1 ∧ Transfer d.1 d.2.1 d.2.2 L L'

/-- Nothing is lost or duplicated along any run of an ownership graph. -/
theorem total_of_reachable [DecidableEq Ω] {items : Multiset α} {edge : Ω → Ω → Prop}
    {L : Ω → Multiset α} (h : (moves items edge).Reachable L) : total L = items := by
  induction h with
  | init h => exact h
  | step _ hs ih => exact hs.2.total_eq.trans ih

end Ledger
