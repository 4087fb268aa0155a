import Mathlib.Data.BitVec
import Mathlib.Data.Set.Lattice
import Mathlib.Order.CompletePartialOrder

/-!
# Extents of memory

The extent of a block of memory of a machine with `w`-bit addresses: the `n` addresses from its
start on, counted without regard to where the address space ends. Offsets within a block, and what
two blocks that do not overlap share.
-/

namespace Extent

variable {w : ℕ}

/-- The `n` addresses from `p` on. -/
def extent (p : BitVec w) (n : ℕ) : Set (BitVec w) := {a | (a - p).toNat < n}

theorem mem_extent {p a : BitVec w} {n : ℕ} : a ∈ extent p n ↔ (a - p).toNat < n := Iff.rfl

/-- Where the address space does not end within a block, it is an interval. -/
theorem mem_extent_iff {p a : BitVec w} {n : ℕ} (h : p.toNat + n ≤ 2 ^ w) :
    a ∈ extent p n ↔ p.toNat ≤ a.toNat ∧ a.toNat < p.toNat + n := by
  have ha := a.isLt
  have hp := p.isLt
  rw [mem_extent, BitVec.toNat_sub]
  rcases Nat.lt_or_ge a.toNat p.toNat with hlt | hge
  · rw [Nat.mod_eq_of_lt (by omega)]
    omega
  · have hsum : 2 ^ w - p.toNat + a.toNat = 2 ^ w + (a.toNat - p.toNat) := by omega
    rw [hsum, Nat.add_mod_left, Nat.mod_eq_of_lt (by omega)]
    omega

/-- A part of a block: `n` addresses from the offset `off` on. -/
theorem extent_add_subset {p off : BitVec w} {n m : ℕ} (h : off.toNat + n ≤ m) :
    extent (p + off) n ⊆ extent p m := by
  intro a ha
  rw [mem_extent] at ha ⊢
  have hsum : a - p = (a - (p + off)) + off := by
    rw [← BitVec.sub_sub, BitVec.sub_add_cancel]
  have hle : (a - p).toNat ≤ (a - (p + off)).toNat + off.toNat := by
    rw [hsum, BitVec.toNat_add]
    exact Nat.mod_le _ _
  omega

/-- The part of a block from an offset on, by offsets. -/
theorem mem_extent_add {p off a : BitVec w} {n : ℕ} (h : off.toNat + n ≤ 2 ^ w) :
    a ∈ extent (p + off) n ↔ off.toNat ≤ (a - p).toNat ∧ (a - p).toNat < off.toNat + n := by
  have hsum : a - (p + off) = (a - p) - off := (BitVec.sub_sub a p off).symm
  rw [mem_extent, hsum, ← mem_extent, mem_extent_iff h]

/-- The addresses of a block before an offset are not in the part from that offset on. -/
theorem disjoint_extent_add {p off : BitVec w} {n : ℕ} (h : off.toNat + n ≤ 2 ^ w) :
    Disjoint (extent p off.toNat) (extent (p + off) n) := by
  rw [Set.disjoint_left]
  intro a ha ha'
  rw [mem_extent] at ha ha'
  have hsum : a - p = (a - (p + off)) + off := by
    rw [← BitVec.sub_sub, BitVec.sub_add_cancel]
  rw [hsum, BitVec.toNat_add, Nat.mod_eq_of_lt (by omega)] at ha
  omega

/-- The address at an offset of a block is in it. -/
theorem add_mem_extent (p : BitVec w) {k n : ℕ} (hk : k < n) (hn : n ≤ 2 ^ w) :
    p + BitVec.ofNat w k ∈ extent p n := by
  rw [mem_extent, BitVec.add_comm, BitVec.add_sub_cancel, BitVec.toNat_ofNat,
    Nat.mod_eq_of_lt (by omega)]
  exact hk

end Extent
