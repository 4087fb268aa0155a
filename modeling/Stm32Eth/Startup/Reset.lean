import Stm32Eth.Lib.Thumb

/-!
# The reset handler

`Reset_Handler` of `startup_stm32f407xx.s` sets the stack pointer, copies the initializers of
`.data` from flash to RAM, clears `.bss` and calls `SystemInit`. The program is the assembly text,
instruction by instruction, with its labels as indices; the symbols of the linker script are a
parameter.

Each loop has an invariant by the number of words left (`Copying`, `Filling`). Together they give
the memory the C program starts in (`steps_resetHandler`): `.bss` is zero, `.data` is the image in
flash, and no other byte has changed.
-/

namespace Stm32Eth.Startup

open Extent Thumb
open Thumb.Reg

/-! ## The program -/

/-- The symbols of the linker script that the reset handler uses. -/
structure Symbols where
  estack : Word
  sdata : Word
  edata : Word
  sidata : Word
  sbss : Word
  ebss : Word

/-- The index of `CopyDataInit`. -/
def copyDataInit : ℕ := 6

/-- The index of `LoopCopyDataInit`. -/
def loopCopyDataInit : ℕ := 9

/-- The index of `FillZerobss`. -/
def fillZerobss : ℕ := 16

/-- The index of `LoopFillZerobss`. -/
def loopFillZerobss : ℕ := 18

/-- `Reset_Handler`. -/
def resetHandler (L : Symbols) : List Instr :=
  [.ldrLit sp L.estack,
    -- copy the data segment initializers from flash to SRAM
    .ldrLit r0 L.sdata,
    .ldrLit r1 L.edata,
    .ldrLit r2 L.sidata,
    .movs r3 0,
    .b loopCopyDataInit,
    -- CopyDataInit
    .ldr r4 r2 r3,
    .str r4 r0 r3,
    .addsImm r3 r3 4,
    -- LoopCopyDataInit
    .adds r4 r0 r3,
    .cmp r4 r1,
    .bcc copyDataInit,
    -- zero fill the bss segment
    .ldrLit r2 L.sbss,
    .ldrLit r4 L.ebss,
    .movs r3 0,
    .b loopFillZerobss,
    -- FillZerobss
    .strBase r3 r2,
    .addsImm r2 r2 4,
    -- LoopFillZerobss
    .cmp r2 r4,
    .bcc fillZerobss,
    .bl "SystemInit",
    .bl "__libc_init_array",
    .bl "main",
    .bxLr]

/-! ## The symbols -/

namespace Symbols

variable (L : Symbols)

/-- The number of bytes of `.data`. -/
def dataLen : ℕ := L.edata.toNat - L.sdata.toNat

/-- The number of bytes of `.bss`. -/
def bssLen : ℕ := L.ebss.toNat - L.sbss.toNat

/-- The sections are whole words, and `.data` does not overlap its image in flash. -/
structure Placed : Prop where
  data_le : L.sdata.toNat ≤ L.edata.toNat
  data_words : 4 ∣ L.dataLen
  bss_le : L.sbss.toNat ≤ L.ebss.toNat
  bss_words : 4 ∣ L.bssLen
  image_disjoint : Disjoint (extent L.sidata L.dataLen) (extent L.sdata L.dataLen)

end Symbols

variable {L : Symbols}

/-- A number of bytes within the address space, as an offset. -/
theorem toNat_add_ofNat {a : Word} {n : ℕ} (h : a.toNat + n < 2 ^ 32) :
    (a + BitVec.ofNat 32 n).toNat = a.toNat + n := by
  have hn : n % 2 ^ 32 = n := Nat.mod_eq_of_lt (by omega)
  rw [BitVec.toNat_add, BitVec.toNat_ofNat, hn, Nat.mod_eq_of_lt h]

/-! ## The copy loop -/

/-- The test of the copy loop. -/
theorem steps_loopCopyDataInit {s : State} (hpc : s.pc = loopCopyDataInit) :
    ∃ t, Steps (resetHandler L) 3 s t ∧ t.mem = s.mem ∧ (∀ r, r ≠ r4 → t.regs r = s.regs r) ∧
      t.pc = if (s.regs r0 + s.regs r3).toNat < (s.regs r1).toNat then copyDataInit else 12 := by
  obtain ⟨regs, flags, mem, pc⟩ := s
  obtain rfl : pc = loopCopyDataInit := hpc
  refine ⟨_, .head rfl (.head rfl (.head rfl (.refl _))), rfl, fun r hr => ?_, ?_⟩
  · exact Function.update_of_ne hr _ _
  · simp only [State.branch, State.setResult, addWithCarry_false_fst, subWithFlags_c,
      Function.update_self, Function.update_of_ne (show r1 ≠ r4 by simp), ← decide_not, not_le,
      decide_eq_true_eq]
    rfl

/-- The body of the copy loop. -/
theorem steps_copyDataInit {s : State} (hpc : s.pc = copyDataInit) :
    ∃ t, Steps (resetHandler L) 3 s t ∧ t.pc = loopCopyDataInit ∧
      t.mem = writeWord s.mem (s.regs r0 + s.regs r3)
        (readWord s.mem (s.regs r2 + s.regs r3)) ∧
      t.regs r3 = s.regs r3 + 4 ∧ ∀ r, r ≠ r3 → r ≠ r4 → t.regs r = s.regs r := by
  obtain ⟨regs, flags, mem, pc⟩ := s
  obtain rfl : pc = copyDataInit := hpc
  refine ⟨_, .head rfl (.head rfl (.head rfl (.refl _))), rfl, ?_, ?_, fun r hr3 hr4 => ?_⟩
  · simp [State.setResult, State.store, State.setReg]
  · simp [State.setResult, State.store, State.setReg]
  · simp [State.setResult, State.store, State.setReg, hr3, hr4]

/-- The copy loop with `k` words left, over the memory `m` before it. -/
structure Copying (L : Symbols) (m : Memory) (k : ℕ) (s : State) : Prop where
  pc_eq : s.pc = loopCopyDataInit
  sp_eq : s.regs sp = L.estack
  r0_eq : s.regs r0 = L.sdata
  r1_eq : s.regs r1 = L.edata
  r2_eq : s.regs r2 = L.sidata
  le : 4 * k ≤ L.dataLen
  r3_eq : s.regs r3 = BitVec.ofNat 32 (L.dataLen - 4 * k)
  mem_eq : s.mem = copyBytes m L.sdata L.sidata (L.dataLen - 4 * k)

/-- Up to the copy loop. -/
theorem steps_copying (h : L.Placed) {s : State} (hpc : s.pc = 0) :
    ∃ t, Steps (resetHandler L) 6 s t ∧ Copying L s.mem (L.dataLen / 4) t := by
  obtain ⟨regs, flags, mem, pc⟩ := s
  obtain rfl : pc = 0 := hpc
  have hwords := Nat.mul_div_cancel' h.data_words
  refine ⟨_, .head rfl (.head rfl (.head rfl (.head rfl (.head rfl (.head rfl (.refl _)))))), ?_⟩
  refine ⟨rfl, rfl, rfl, rfl, rfl, hwords.le, ?_, ?_⟩
  · rw [hwords, Nat.sub_self]
    rfl
  · rw [hwords, Nat.sub_self, copyBytes_zero]
    rfl

/-- **Step.** One round of the copy loop copies one word. -/
theorem Copying.step (h : L.Placed) {m : Memory} {k : ℕ} {s : State} (hs : Copying L m (k + 1) s) :
    ∃ t, Steps (resetHandler L) 6 s t ∧ Copying L m k t := by
  have hlt := L.edata.isLt
  have hle := hs.le
  have hdata := h.data_le
  have hlen : L.dataLen = L.edata.toNat - L.sdata.toNat := rfl
  obtain ⟨n, hn⟩ : ∃ n, L.dataLen - 4 * (k + 1) = n := ⟨_, rfl⟩
  have hn' : L.dataLen - 4 * k = n + 4 := by omega
  have hmem := hs.mem_eq
  have hr3 := hs.r3_eq
  rw [hn] at hmem hr3
  obtain ⟨t, ht, htmem, htregs, htpc⟩ := steps_loopCopyDataInit (L := L) hs.pc_eq
  have hbelow : (s.regs r0 + s.regs r3).toNat < (s.regs r1).toNat := by
    rw [hs.r0_eq, hs.r1_eq, hr3, toNat_add_ofNat (by omega)]
    omega
  rw [if_pos hbelow] at htpc
  obtain ⟨u, hu, hupc, humem, hur3, huregs⟩ := steps_copyDataInit (L := L) htpc
  refine ⟨u, ht.trans hu, hupc, ?_, ?_, ?_, ?_, by omega, ?_, ?_⟩
  · rw [huregs sp (by simp) (by simp), htregs sp (by simp), hs.sp_eq]
  · rw [huregs r0 (by simp) (by simp), htregs r0 (by simp), hs.r0_eq]
  · rw [huregs r1 (by simp) (by simp), htregs r1 (by simp), hs.r1_eq]
  · rw [huregs r2 (by simp) (by simp), htregs r2 (by simp), hs.r2_eq]
  · rw [hur3, htregs r3 (by simp), hr3, hn', BitVec.ofNat_add]
    rfl
  · have hdisj : ∀ b ∈ extent (L.sidata + BitVec.ofNat 32 n) 4, b ∉ extent L.sdata n := by
      intro b hb hb'
      have hoff : (BitVec.ofNat 32 n : Word).toNat = n := by
        rw [BitVec.toNat_ofNat, Nat.mod_eq_of_lt (by omega)]
      refine Set.disjoint_left.mp h.image_disjoint
        (extent_add_subset (p := L.sidata) (m := L.dataLen) (by omega) hb) ?_
      rw [mem_extent] at hb' ⊢
      omega
    rw [humem, htmem, htregs r0 (by simp), htregs r2 (by simp), htregs r3 (by simp), hmem,
      hs.r0_eq, hs.r2_eq, hr3, hn']
    exact writeWord_copyBytes (by omega) hdisj

/-! ## The fill loop -/

/-- Between the loops. -/
theorem steps_between {s : State} (hpc : s.pc = 12) :
    ∃ t, Steps (resetHandler L) 4 s t ∧ t.pc = loopFillZerobss ∧ t.mem = s.mem ∧
      t.regs r2 = L.sbss ∧ t.regs r3 = 0 ∧ t.regs r4 = L.ebss ∧ t.regs sp = s.regs sp := by
  obtain ⟨regs, flags, mem, pc⟩ := s
  obtain rfl : pc = 12 := hpc
  exact ⟨_, .head rfl (.head rfl (.head rfl (.head rfl (.refl _)))), rfl, rfl, rfl, rfl, rfl, rfl⟩

/-- The test of the fill loop. -/
theorem steps_loopFillZerobss {s : State} (hpc : s.pc = loopFillZerobss) :
    ∃ t, Steps (resetHandler L) 2 s t ∧ t.mem = s.mem ∧ t.regs = s.regs ∧
      t.pc = if (s.regs r2).toNat < (s.regs r4).toNat then fillZerobss else 20 := by
  obtain ⟨regs, flags, mem, pc⟩ := s
  obtain rfl : pc = loopFillZerobss := hpc
  refine ⟨_, .head rfl (.head rfl (.refl _)), rfl, rfl, ?_⟩
  simp only [State.branch, subWithFlags_c, ← decide_not, not_le, decide_eq_true_eq]
  rfl

/-- The body of the fill loop. -/
theorem steps_fillZerobss {s : State} (hpc : s.pc = fillZerobss) :
    ∃ t, Steps (resetHandler L) 2 s t ∧ t.pc = loopFillZerobss ∧
      t.mem = writeWord s.mem (s.regs r2) (s.regs r3) ∧ t.regs r2 = s.regs r2 + 4 ∧
      ∀ r, r ≠ r2 → t.regs r = s.regs r := by
  obtain ⟨regs, flags, mem, pc⟩ := s
  obtain rfl : pc = fillZerobss := hpc
  refine ⟨_, .head rfl (.head rfl (.refl _)), rfl, rfl, ?_, fun r hr => ?_⟩
  · simp [State.setResult, State.store]
  · exact Function.update_of_ne hr _ _

/-- The fill loop with `k` words left, over the memory `m` before it. -/
structure Filling (L : Symbols) (m : Memory) (k : ℕ) (s : State) : Prop where
  pc_eq : s.pc = loopFillZerobss
  sp_eq : s.regs sp = L.estack
  r3_eq : s.regs r3 = 0
  r4_eq : s.regs r4 = L.ebss
  le : 4 * k ≤ L.bssLen
  r2_eq : s.regs r2 = L.sbss + BitVec.ofNat 32 (L.bssLen - 4 * k)
  mem_eq : s.mem = zeroBytes m L.sbss (L.bssLen - 4 * k)

/-- **Step.** One round of the fill loop clears one word. -/
theorem Filling.step (h : L.Placed) {m : Memory} {k : ℕ} {s : State} (hs : Filling L m (k + 1) s) :
    ∃ t, Steps (resetHandler L) 4 s t ∧ Filling L m k t := by
  have hlt := L.ebss.isLt
  have hle := hs.le
  have hbss := h.bss_le
  have hlen : L.bssLen = L.ebss.toNat - L.sbss.toNat := rfl
  obtain ⟨n, hn⟩ : ∃ n, L.bssLen - 4 * (k + 1) = n := ⟨_, rfl⟩
  have hn' : L.bssLen - 4 * k = n + 4 := by omega
  have hmem := hs.mem_eq
  have hr2 := hs.r2_eq
  rw [hn] at hmem hr2
  obtain ⟨t, ht, htmem, htregs, htpc⟩ := steps_loopFillZerobss (L := L) hs.pc_eq
  have hbelow : (s.regs r2).toNat < (s.regs r4).toNat := by
    rw [hr2, hs.r4_eq, toNat_add_ofNat (by omega)]
    omega
  rw [if_pos hbelow] at htpc
  obtain ⟨u, hu, hupc, humem, hur2, huregs⟩ := steps_fillZerobss (L := L) htpc
  refine ⟨u, ht.trans hu, hupc, ?_, ?_, ?_, by omega, ?_, ?_⟩
  · rw [huregs sp (by simp), htregs, hs.sp_eq]
  · rw [huregs r3 (by simp), htregs, hs.r3_eq]
  · rw [huregs r4 (by simp), htregs, hs.r4_eq]
  · rw [hur2, htregs, hr2, hn', BitVec.ofNat_add, ← BitVec.add_assoc]
    rfl
  · rw [humem, htmem, htregs, hmem, hr2, hs.r3_eq, hn']
    exact writeWord_zeroBytes (by omega)

/-! ## The whole handler -/

/-- The memory the C program starts in: `.bss` is zero and `.data` is its image in flash. -/
def initialized (L : Symbols) (m : Memory) : Memory :=
  zeroBytes (copyBytes m L.sdata L.sidata L.dataLen) L.sbss L.bssLen

/-- The number of instructions up to the call of `SystemInit`. -/
def resetSteps (L : Symbols) : ℕ := 15 + 6 * (L.dataLen / 4) + 4 * (L.bssLen / 4)

/-- **Run.** From reset the handler gets to the call of `SystemInit`, with the stack pointer at
`_estack` and the initialized memory. -/
theorem steps_resetHandler (h : L.Placed) {s : State} (hpc : s.pc = 0) :
    ∃ t, Steps (resetHandler L) (resetSteps L) s t ∧ t.pc = 20 ∧ t.regs sp = L.estack ∧
      t.mem = initialized L s.mem := by
  obtain ⟨s₁, h₁, hcopying⟩ := steps_copying h hpc
  obtain ⟨s₂, h₂, hcopied⟩ := Steps.loop (fun _ _ => Copying.step h) _ hcopying
  -- the copy loop ends at `_edata`
  have hdata := h.data_le
  have hlt := L.edata.isLt
  have hlen : L.dataLen = L.edata.toNat - L.sdata.toNat := rfl
  have hcopied3 := hcopied.r3_eq
  have hcopiedmem := hcopied.mem_eq
  rw [Nat.mul_zero, Nat.sub_zero] at hcopied3 hcopiedmem
  obtain ⟨s₃, h₃, hmem₃, hregs₃, hpc₃⟩ := steps_loopCopyDataInit (L := L) hcopied.pc_eq
  have hend : ¬ (s₂.regs r0 + s₂.regs r3).toNat < (s₂.regs r1).toNat := by
    rw [hcopied.r0_eq, hcopied.r1_eq, hcopied3, toNat_add_ofNat (by omega)]
    omega
  rw [if_neg hend] at hpc₃
  obtain ⟨s₄, h₄, hpc₄, hmem₄, hr2₄, hr3₄, hr4₄, hsp₄⟩ := steps_between (L := L) hpc₃
  have hwords := Nat.mul_div_cancel' h.bss_words
  have hfilling : Filling L s₃.mem (L.bssLen / 4) s₄ := by
    refine ⟨hpc₄, ?_, hr3₄, hr4₄, hwords.le, ?_, ?_⟩
    · rw [hsp₄, hregs₃ sp (by simp), hcopied.sp_eq]
    · rw [hr2₄, hwords, Nat.sub_self, BitVec.add_zero]
    · rw [hmem₄, hwords, Nat.sub_self, zeroBytes_zero]
  obtain ⟨s₅, h₅, hfilled⟩ := Steps.loop (fun _ _ => Filling.step h) _ hfilling
  -- the fill loop ends at `_ebss`
  have hbss := h.bss_le
  have hlt' := L.ebss.isLt
  have hlen' : L.bssLen = L.ebss.toNat - L.sbss.toNat := rfl
  have hfilled2 := hfilled.r2_eq
  have hfilledmem := hfilled.mem_eq
  rw [Nat.mul_zero, Nat.sub_zero] at hfilled2 hfilledmem
  obtain ⟨s₆, h₆, hmem₆, hregs₆, hpc₆⟩ := steps_loopFillZerobss (L := L) hfilled.pc_eq
  have hend' : ¬ (s₅.regs r2).toNat < (s₅.regs r4).toNat := by
    rw [hfilled2, hfilled.r4_eq, toNat_add_ofNat (by omega)]
    omega
  rw [if_neg hend'] at hpc₆
  refine ⟨s₆, ?_, hpc₆, ?_, ?_⟩
  · have hrun := h₁.trans (h₂.trans (h₃.trans (h₄.trans (h₅.trans h₆))))
    have hsteps : resetSteps L = 6 + (L.dataLen / 4 * 6 + (3 + (4 + (L.bssLen / 4 * 4 + 2)))) := by
      unfold resetSteps
      omega
    rw [hsteps]
    exact hrun
  · rw [hregs₆, hfilled.sp_eq]
  · rw [hmem₆, hfilledmem, hmem₃, hcopiedmem, initialized]

end Stm32Eth.Startup
