import Stm32Eth.Lib.Thumb

/-!
# The delay loop

`_delay_loops` of `hw_delay.h` counts a register down to zero. The count is tested after it is
decremented, so a delay of no loops wraps around and is the longest one (`steps_delayLoops`).
-/

namespace Stm32Eth.Startup

open Thumb
open Thumb.Reg

/-- `_delay_loops`, with `loops` in `r0`. -/
def delayLoops : List Instr :=
  [ -- 1:
    .subsImm r0 r0 1,
    .bne 0]

/-- The number of rounds of `_delay_loops`. -/
def delayRounds (loops : BitVec 32) : ℕ := if loops = 0 then 2 ^ 32 else loops.toNat

/-- One round of the loop. -/
theorem steps_delayRound {s : State} (hpc : s.pc = 0) :
    ∃ t, Steps delayLoops 2 s t ∧ t.mem = s.mem ∧ t.regs r0 = s.regs r0 - 1 ∧
      (∀ r, r ≠ r0 → t.regs r = s.regs r) ∧ t.pc = if s.regs r0 - 1 = 0 then 2 else 0 := by
  obtain ⟨regs, flags, mem, pc⟩ := s
  obtain rfl : pc = 0 := hpc
  refine ⟨_, .head rfl (.head rfl (.refl _)), rfl, ?_, fun r hr => ?_, ?_⟩
  · simp [State.branch, State.setResult]
  · exact Function.update_of_ne hr _ _
  · simp [State.branch, State.setResult]

/-- The loop with `k` rounds left before the last one. -/
structure Delaying (s : State) (k : ℕ) (t : State) : Prop where
  pc_eq : t.pc = 0
  lt : k < 2 ^ 32
  r0_eq : t.regs r0 = BitVec.ofNat 32 (k + 1)
  mem_eq : t.mem = s.mem
  regs_eq : ∀ r, r ≠ r0 → t.regs r = s.regs r

/-- The count after a round. -/
theorem ofNat_succ_sub_one (k : ℕ) : BitVec.ofNat 32 (k + 1) - 1 = BitVec.ofNat 32 k := by
  rw [BitVec.ofNat_add]
  exact BitVec.add_sub_cancel _ _

/-- **Step.** A round that is not the last one. -/
theorem Delaying.step {s t : State} {k : ℕ} (h : Delaying s (k + 1) t) :
    ∃ u, Steps delayLoops 2 t u ∧ Delaying s k u := by
  obtain ⟨u, hu, hmem, hr0, hregs, hpc⟩ := steps_delayRound h.pc_eq
  have hlt := h.lt
  rw [h.r0_eq, ofNat_succ_sub_one] at hr0 hpc
  have hne : BitVec.ofNat 32 (k + 1) ≠ 0 := by
    intro hzero
    have htoNat := congrArg BitVec.toNat hzero
    rw [BitVec.toNat_ofNat, Nat.mod_eq_of_lt hlt] at htoNat
    exact absurd htoNat (by simp)
  rw [if_neg hne] at hpc
  exact ⟨u, hu, hpc, by omega, hr0, hmem.trans h.mem_eq,
    fun r hr => (hregs r hr).trans (h.regs_eq r hr)⟩

/-- **Run.** For every count `_delay_loops` terminates, after as many rounds of two instructions as
the count says, or `2 ^ 32` for a count of zero. It leaves zero in its register, and memory and the
other registers as they were. -/
theorem steps_delayLoops (s : State) (hpc : s.pc = 0) :
    ∃ t, Steps delayLoops (2 * delayRounds (s.regs r0)) s t ∧ t.pc = delayLoops.length ∧
      t.regs r0 = 0 ∧ t.mem = s.mem ∧ ∀ r, r ≠ r0 → t.regs r = s.regs r := by
  -- all rounds but the last one
  obtain ⟨k, hk⟩ : ∃ k, delayRounds (s.regs r0) = k + 1 := by
    refine ⟨delayRounds (s.regs r0) - 1, ?_⟩
    unfold delayRounds
    split
    · rfl
    · have hpos : (s.regs r0).toNat ≠ 0 := fun hzero => by
        rename_i hne
        exact hne (BitVec.eq_of_toNat_eq hzero)
      omega
  have hstart : Delaying s k s := by
    refine ⟨hpc, ?_, ?_, rfl, fun _ _ => rfl⟩
    · have hle : delayRounds (s.regs r0) ≤ 2 ^ 32 := by
        unfold delayRounds
        split
        · exact le_rfl
        · exact (s.regs r0).isLt.le
      omega
    · rw [← hk]
      unfold delayRounds
      split
      · rename_i hzero
        rw [hzero]
        rfl
      · rw [BitVec.ofNat_toNat, BitVec.setWidth_eq]
  obtain ⟨t, ht, hlast⟩ := Steps.loop (fun _ _ => Delaying.step) k hstart
  -- the last one
  obtain ⟨u, hu, hmem, hr0, hregs, hupc⟩ := steps_delayRound hlast.pc_eq
  rw [hlast.r0_eq, ofNat_succ_sub_one] at hr0 hupc
  refine ⟨u, ?_, hupc, hr0, hmem.trans hlast.mem_eq, ?_⟩
  · have hsteps : 2 * delayRounds (s.regs r0) = k * 2 + 2 := by omega
    rw [hsteps]
    exact ht.trans hu
  · exact fun r hr => (hregs r hr).trans (hlast.regs_eq r hr)

/-- A delay of no loops takes 2 · 2³² instructions. -/
theorem steps_delayLoops_zero :
    ∃ t, Steps delayLoops 8589934592
        ⟨fun _ => 0, ⟨false, false, false, false⟩, fun _ => 0, 0⟩ t ∧ t.regs r0 = 0 := by
  obtain ⟨t, ht, -, hr0, -⟩ := steps_delayLoops
    ⟨fun _ => 0, ⟨false, false, false, false⟩, fun _ => 0, 0⟩ rfl
  exact ⟨t, ht, hr0⟩

end Stm32Eth.Startup
