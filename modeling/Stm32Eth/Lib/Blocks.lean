import Mathlib.Algebra.BigOperators.Group.List.Basic
import Mathlib.Algebra.Order.Monoid.Canonical.Defs
import Mathlib.Data.Set.Lattice
import Mathlib.Order.CompletePartialOrder
import Mathlib.Order.Interval.Set.Basic

/-!
# Consecutive blocks

A block has a start and a size, and extends over the half-open interval between its start and its
stop. `Tiles lo bs hi` says that the blocks `bs` fill the interval from `lo` to `hi` in order: the
first starts at `lo`, each later one where the one before it stops, and the last stops at `hi`.
Blocks that tile an interval lie in it, are pairwise disjoint, and their sizes add up to its length.
-/

namespace Blocks

variable {α : Type*}

/-- A block of memory. -/
structure Block (α : Type*) where
  start : α
  size : α

/-- The first position after the block. -/
def Block.stop [Add α] (b : Block α) : α := b.start + b.size

/-- The positions of the block. -/
def Block.extent [Add α] [Preorder α] (b : Block α) : Set α := Set.Ico b.start b.stop

/-- The blocks fill the interval from `lo` to `hi`, in order. -/
def Tiles [Add α] : α → List (Block α) → α → Prop
  | lo, [], hi => lo = hi
  | lo, b :: bs, hi => b.start = lo ∧ Tiles b.stop bs hi

section Add

variable [Add α] {lo mid hi : α} {bs : List (Block α)}

/-- A block that starts where a tiling ends extends it. -/
theorem Tiles.concat (h : Tiles lo bs mid) (size : α) :
    Tiles lo (bs ++ [⟨mid, size⟩]) (mid + size) := by
  induction bs generalizing lo with
  | nil => exact ⟨Eq.symm h, rfl⟩
  | cons b bs ih => exact ⟨h.1, ih h.2⟩

variable [Preorder α] [CanonicallyOrderedAdd α]

/-- A tiling ends no earlier than it starts. -/
theorem Tiles.le (h : Tiles lo bs hi) : lo ≤ hi := by
  induction bs generalizing lo with
  | nil => exact le_of_eq h
  | cons b bs ih =>
      obtain ⟨rfl, h⟩ := h
      exact le_self_add.trans (ih h)

/-- Each block of a tiling starts and stops inside its interval. -/
theorem Tiles.bounds (h : Tiles lo bs hi) {b : Block α} (hb : b ∈ bs) :
    lo ≤ b.start ∧ b.stop ≤ hi := by
  induction bs generalizing lo with
  | nil => cases hb
  | cons c bs ih =>
      obtain ⟨rfl, h⟩ := h
      rcases List.mem_cons.mp hb with rfl | hb
      · exact ⟨le_refl _, h.le⟩
      · have hrest := ih h hb
        exact ⟨le_self_add.trans hrest.1, hrest.2⟩

/-- Each block of a tiling lies in its interval. -/
theorem Tiles.extent_subset (h : Tiles lo bs hi) {b : Block α} (hb : b ∈ bs) :
    b.extent ⊆ Set.Ico lo hi := by
  obtain ⟨hlo, hhi⟩ := h.bounds hb
  exact Set.Ico_subset_Ico hlo hhi

/-- The blocks of a tiling are pairwise disjoint. -/
theorem Tiles.pairwise_disjoint (h : Tiles lo bs hi) :
    bs.Pairwise fun b c => Disjoint b.extent c.extent := by
  induction bs generalizing lo with
  | nil => exact .nil
  | cons b bs ih =>
      refine List.Pairwise.cons (fun c hc => ?_) (ih h.2)
      -- what follows `b` starts at or after its stop
      have hstart := (h.2.bounds hc).1
      rw [Set.disjoint_left]
      rintro x ⟨-, hx⟩ ⟨hx', -⟩
      exact absurd (hx.trans_le (hstart.trans hx')) (lt_irrefl x)

end Add

/-- The sizes of a tiling add up to the length of its interval. -/
theorem Tiles.add_sum [AddMonoid α] {lo hi : α} {bs : List (Block α)} (h : Tiles lo bs hi) :
    lo + (bs.map Block.size).sum = hi := by
  induction bs generalizing lo with
  | nil =>
      rw [List.map_nil, List.sum_nil, add_zero]
      exact h
  | cons b bs ih =>
      obtain ⟨rfl, h⟩ := h
      rw [List.map_cons, List.sum_cons, ← add_assoc]
      exact ih h

end Blocks
