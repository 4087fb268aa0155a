import Stm32Eth.Lib.LinkerScript
import Stm32Eth.Startup.Reset
import Stm32Eth.Heap.Sbrk
import Mathlib.Data.Fintype.Basic

/-!
# The memory layout

`STM32F407VGTx_FLASH.ld`, command by command, over any input sections. When the link succeeds, the
sections lie where the reset handler and the C heap rely on (`linked_of_link`): `.data` and `.bss`
are whole words in RAM, one after the other, the image of `.data` is in flash, and the bytes the
script reserves follow `.bss`. So the reset handler initializes the memory of every program that
links (`resetHandler_initializes`), and its heap has a `MemoryMap`.
-/

namespace Stm32Eth.Startup

open Extent LinkerScript Transition

/-! ## The script -/

/-- The regions of `MEMORY`. -/
inductive MemRegion
  | ram
  | ccmram
  | flash
  deriving DecidableEq

instance : Fintype MemRegion where
  elems := {.ram, .ccmram, .flash}
  complete r := by
    cases r with
    | ram => simp
    | ccmram => simp
    | flash => simp

/-- `MEMORY`. -/
def memory : MemRegion → Region
  | .ram => Heap.ram
  | .ccmram => Heap.ccmram
  | .flash => ⟨0x08000000, 1024 * 1024⟩

/-- The patterns of input sections, in the order of the script. -/
inductive Pattern
  | isrVector
  | text
  | textAll
  | glue7
  | glue7t
  | ehFrame
  | init
  | fini
  | rodata
  | rodataAll
  | armExtab
  | armExidx
  | preinitArray
  | initArraySorted
  | initArray
  | finiArraySorted
  | finiArray
  | data
  | dataAll
  | ccmram
  | ccmramAll
  | bss
  | bssAll
  | common
  deriving DecidableEq

/-- The symbols the script defines. -/
inductive Sym
  | etext
  | exidxStart
  | exidxEnd
  | preinitArrayStart
  | preinitArrayEnd
  | initArrayStart
  | initArrayEnd
  | finiArrayStart
  | finiArrayEnd
  | sidata
  | sdata
  | edata
  | siccmram
  | sccmram
  | eccmram
  | sbss
  | bssStart
  | ebss
  | bssEnd
  | endSym
  | endSym'
  deriving DecidableEq

/-- An output section of the script. -/
abbrev OutputSection := Section MemRegion Pattern Sym

/-- The sections in flash, up to `.fini_array`. -/
def flashSections : List OutputSection :=
  [ -- .isr_vector
    { body := [.align 4, .input .isrVector, .align 4]
      region := .flash, loadRegion := none, loadSymbol := none },
    -- .text
    { body := [.align 4, .input .text, .input .textAll, .input .glue7, .input .glue7t,
        .input .ehFrame, .input .init, .input .fini, .align 4, .symbol .etext]
      region := .flash, loadRegion := none, loadSymbol := none },
    -- .rodata
    { body := [.align 4, .input .rodata, .input .rodataAll, .align 4]
      region := .flash, loadRegion := none, loadSymbol := none },
    -- .ARM.extab
    { body := [.input .armExtab]
      region := .flash, loadRegion := none, loadSymbol := none },
    -- .ARM
    { body := [.symbol .exidxStart, .input .armExidx, .symbol .exidxEnd]
      region := .flash, loadRegion := none, loadSymbol := none },
    -- .preinit_array
    { body := [.symbol .preinitArrayStart, .input .preinitArray, .symbol .preinitArrayEnd]
      region := .flash, loadRegion := none, loadSymbol := none },
    -- .init_array
    { body := [.symbol .initArrayStart, .input .initArraySorted, .input .initArray,
        .symbol .initArrayEnd]
      region := .flash, loadRegion := none, loadSymbol := none },
    -- .fini_array
    { body := [.symbol .finiArrayStart, .input .finiArraySorted, .input .finiArray,
        .symbol .finiArrayEnd]
      region := .flash, loadRegion := none, loadSymbol := none }]

/-- `.data`. -/
def dataSection : OutputSection where
  body := [.align 4, .symbol .sdata, .input .data, .input .dataAll, .align 4, .symbol .edata]
  region := .ram
  loadRegion := some .flash
  loadSymbol := some .sidata

/-- `.ccmram`. -/
def ccmramSection : OutputSection where
  body := [.align 4, .symbol .sccmram, .input .ccmram, .input .ccmramAll, .align 4,
    .symbol .eccmram]
  region := .ccmram
  loadRegion := some .flash
  loadSymbol := some .siccmram

/-- `.bss`. The assignment to the location counter before it, outside of every section, does not
move the cursor of RAM. -/
def bssSection : OutputSection where
  body := [.symbol .sbss, .symbol .bssStart, .input .bss, .input .bssAll, .input .common, .align 4,
    .symbol .ebss, .symbol .bssEnd]
  region := .ram
  loadRegion := none
  loadSymbol := none

/-- `_Min_Stack_Size`. -/
def minStackSize : ℕ := 0x400

/-- `._user_heap_stack`. -/
def userHeapStackSection : OutputSection where
  body := [.align 8, .symbol .endSym, .symbol .endSym', .skip Heap.minHeapSize,
    .skip minStackSize, .align 8]
  region := .ram
  loadRegion := none
  loadSymbol := none

/-- `SECTIONS`. -/
def sections : List OutputSection :=
  flashSections ++ [dataSection, ccmramSection, bssSection, userHeapStackSection]

/-! ## What a link promises -/

/-- What holds of the symbols of a program that links. -/
structure Linked (S : Sym → ℕ) : Prop where
  origin_le_sdata : Heap.ram.origin ≤ S .sdata
  sdata_le_edata : S .sdata ≤ S .edata
  edata_le_sbss : S .edata ≤ S .sbss
  sbss_le_ebss : S .sbss ≤ S .ebss
  ebss_le_end : S .ebss ≤ S .endSym
  reserve_le : S .endSym + Heap.minHeapSize + minStackSize ≤ Heap.ramEnd
  sdata_dvd : 4 ∣ S .sdata
  edata_dvd : 4 ∣ S .edata
  sbss_dvd : 4 ∣ S .sbss
  ebss_dvd : 4 ∣ S .ebss
  image_ge : 0x08000000 ≤ S .sidata
  image_le : S .sidata + (S .edata - S .sdata) ≤ 0x08100000

variable {inputs : Pattern → List Input}

/-- The alignment of an output section goes with that of words. -/
theorem dvd_or_dvd_pow (p : ℕ) : 4 ∣ 2 ^ p ∨ 2 ^ p ∣ 4 := by
  rcases Nat.le_total 2 p with hp | hp
  · exact .inl (Nat.pow_dvd_pow 2 hp)
  · exact .inr (Nat.pow_dvd_pow 2 hp)

/-- `.data` starts and ends at words, and its image takes the same number of bytes of flash. -/
theorem place_dataSection {F A : Layout MemRegion Sym} (h : dataSection.place inputs F = A)
    (hram : 4 ∣ F.cursor .ram) :
    F.cursor .ram ≤ A.symbol .sdata ∧ A.symbol .sdata ≤ A.symbol .edata ∧
      A.symbol .edata = A.cursor .ram ∧ 4 ∣ A.symbol .sdata ∧ 4 ∣ A.symbol .edata ∧
      A.symbol .sidata = F.cursor .flash ∧
      A.cursor .flash = F.cursor .flash + (A.symbol .edata - A.symbol .sdata) := by
  obtain ⟨start, hstart⟩ : ∃ start, dataSection.start inputs F = start := ⟨_, rfl⟩
  have hle : F.cursor .ram ≤ start := hstart ▸ le_alignUp _ _
  have hdvd : 4 ∣ start := by
    rw [← hstart]
    exact dvd_alignUp_of_dvd hram (dvd_or_dvd_pow _) (Nat.two_pow_pos _)
  have hsdata : A.symbol .sdata = start := by
    rw [← h, ← hstart]
    exact alignUp_of_dvd (hstart ▸ hdvd)
  have hedata : A.symbol .edata = alignUp (placeInputs (placeInputs (alignUp start 4)
      (inputs .data)) (inputs .dataAll)) 4 := by
    rw [← h, ← hstart]
    rfl
  have hcursor : A.symbol .edata = A.cursor .ram := by
    rw [← h]
    rfl
  have hflash : A.cursor .flash = F.cursor .flash + (A.cursor .ram - start) := by
    rw [← h, ← hstart]
    rfl
  refine ⟨hle.trans_eq hsdata.symm, ?_, hcursor, hsdata ▸ hdvd, ?_, ?_, ?_⟩
  · rw [hsdata, hedata, alignUp_of_dvd hdvd]
    exact (le_placeInputs _ _).trans ((le_placeInputs _ _).trans (le_alignUp _ _))
  · rw [hedata]
    exact dvd_alignUp _ (by omega)
  · rw [← h]
    rfl
  · rw [hflash, hcursor, hsdata]

/-- `.bss` starts and ends at words. -/
theorem place_bssSection {B C : Layout MemRegion Sym} (h : bssSection.place inputs B = C)
    (hram : 4 ∣ B.cursor .ram) :
    B.cursor .ram ≤ C.symbol .sbss ∧ C.symbol .sbss ≤ C.symbol .ebss ∧
      C.symbol .ebss = C.cursor .ram ∧ 4 ∣ C.symbol .sbss ∧ 4 ∣ C.symbol .ebss := by
  obtain ⟨start, hstart⟩ : ∃ start, bssSection.start inputs B = start := ⟨_, rfl⟩
  have hle : B.cursor .ram ≤ start := hstart ▸ le_alignUp _ _
  have hsbss : C.symbol .sbss = start := by
    rw [← h, ← hstart]
    rfl
  have hebss : C.symbol .ebss = alignUp (placeInputs (placeInputs (placeInputs start (inputs .bss))
      (inputs .bssAll)) (inputs .common)) 4 := by
    rw [← h, ← hstart]
    rfl
  refine ⟨hle.trans_eq hsbss.symm, ?_, ?_, ?_, ?_⟩
  · rw [hsbss, hebss]
    calc start ≤ placeInputs start (inputs .bss) := le_placeInputs _ _
      _ ≤ placeInputs (placeInputs start (inputs .bss)) (inputs .bssAll) := le_placeInputs _ _
      _ ≤ placeInputs (placeInputs (placeInputs start (inputs .bss)) (inputs .bssAll))
            (inputs .common) := le_placeInputs _ _
      _ ≤ _ := le_alignUp _ _
  · rw [← h]
    rfl
  · rw [hsbss, ← hstart]
    exact dvd_alignUp_of_dvd hram (dvd_or_dvd_pow _) (Nat.two_pow_pos _)
  · rw [hebss]
    exact dvd_alignUp _ (by omega)

/-- The reserved bytes follow the symbol `end`. -/
theorem place_userHeapStackSection {C E : Layout MemRegion Sym}
    (h : userHeapStackSection.place inputs C = E) :
    C.cursor .ram ≤ E.symbol .endSym ∧
      E.symbol .endSym + Heap.minHeapSize + minStackSize ≤ E.cursor .ram := by
  have hend : E.symbol .endSym = alignUp (userHeapStackSection.start inputs C) 8 := by
    rw [← h]
    rfl
  have hcursor : E.cursor .ram
      = alignUp (E.symbol .endSym + Heap.minHeapSize + minStackSize) 8 := by
    rw [hend, ← h]
    rfl
  refine ⟨?_, hcursor ▸ le_alignUp _ _⟩
  rw [hend]
  exact (le_alignUp _ _).trans (le_alignUp _ _)

/-- **Every program that links is laid out as it should.** -/
theorem linked_of_link {L : Layout MemRegion Sym} (h : link inputs memory sections = some L) :
    Linked L.symbol := by
  -- the cursors and symbols before and after each section in RAM
  obtain ⟨F, hF⟩ : ∃ F, layout inputs flashSections (.initial memory) = F := ⟨_, rfl⟩
  obtain ⟨A, hA⟩ : ∃ A, dataSection.place inputs F = A := ⟨_, rfl⟩
  obtain ⟨B, hB⟩ : ∃ B, ccmramSection.place inputs A = B := ⟨_, rfl⟩
  obtain ⟨C, hC⟩ : ∃ C, bssSection.place inputs B = C := ⟨_, rfl⟩
  obtain ⟨hfits, hL⟩ := (link_eq_some_iff inputs).mp h
  have hE : userHeapStackSection.place inputs C = L := by
    rw [← hL, sections, layout_append, hF, ← hC, ← hB, ← hA]
    rfl
  rw [hL] at hfits
  have hFram : F.cursor .ram = 0x20000000 := by
    rw [← hF]
    refine cursor_layout_of_ne inputs ?_ _
    simp [flashSections]
  -- the image of `.data` is in flash
  have hflash : 0x08000000 ≤ F.cursor .flash ∧ A.cursor .flash ≤ 0x08100000 := by
    have hlink : link inputs memory ((flashSections ++ [dataSection]) ++
        [ccmramSection, bssSection, userHeapStackSection]) = some L := h
    have hbefore := (cursor_le_of_link inputs h .flash).1
    have hafter := (cursor_le_of_link inputs hlink .flash).2
    rw [hF] at hbefore
    rw [layout_append, hF] at hafter
    exact ⟨hbefore, hA ▸ hafter⟩
  obtain ⟨horigin, hdata, hedata, hsdata4, hedata4, hsidata, hAflash⟩ :=
    place_dataSection hA (hFram ▸ by decide)
  have hBram : B.cursor .ram = A.cursor .ram := by
    rw [← hB]
    exact Section.cursor_place_of_ne inputs (by simp [ccmramSection]) (by simp [ccmramSection]) A
  obtain ⟨hsbss, hbss, hebss, hsbss4, hebss4⟩ :=
    place_bssSection hC (hBram ▸ hedata ▸ hedata4)
  obtain ⟨hend, hreserve⟩ := place_userHeapStackSection hE
  -- the later sections define none of the earlier symbols
  have hAL : ∀ x, x = .sdata ∨ x = .edata ∨ x = .sidata → L.symbol x = A.symbol x := by
    have hlater : layout inputs [ccmramSection, bssSection, userHeapStackSection] A = L := by
      rw [← hE, ← hC, ← hB]
      rfl
    intro x hx
    rw [← hlater]
    refine symbol_layout_of_notMem inputs ?_ A
    rcases hx with rfl | rfl | rfl
    · decide
    · decide
    · decide
  have hCL : ∀ x, x = .sbss ∨ x = .ebss → L.symbol x = C.symbol x := by
    intro x hx
    rw [← hE]
    refine Section.symbol_place_of_notMem inputs ?_ C
    rcases hx with rfl | rfl
    · decide
    · decide
  have hfitsRam : L.cursor .ram ≤ 0x20020000 := hfits .ram
  have hsd := hAL .sdata (by simp)
  have hed := hAL .edata (by simp)
  have hsi := hAL .sidata (by simp)
  have hsb := hCL .sbss (by simp)
  have heb := hCL .ebss (by simp)
  have horigin' : Heap.ram.origin = 0x20000000 := rfl
  have hramEnd : Heap.ramEnd = 0x20020000 := rfl
  refine ⟨?_, ?_, ?_, ?_, ?_, ?_, ?_, ?_, ?_, ?_, ?_, ?_⟩
  all_goals omega

/-! ## The reset handler of a program that links -/

/-- The symbols the reset handler uses. -/
def symbols (S : Sym → ℕ) : Symbols where
  estack := BitVec.ofNat 32 Heap.estack
  sdata := BitVec.ofNat 32 (S .sdata)
  edata := BitVec.ofNat 32 (S .edata)
  sidata := BitVec.ofNat 32 (S .sidata)
  sbss := BitVec.ofNat 32 (S .sbss)
  ebss := BitVec.ofNat 32 (S .ebss)

namespace Linked

variable {S : Sym → ℕ}

/-- The symbols are addresses of RAM and flash. -/
theorem lt (h : Linked S) : S .sdata ≤ 0x20020000 ∧ S .edata ≤ 0x20020000 ∧
    S .sbss ≤ 0x20020000 ∧ S .ebss ≤ 0x20020000 ∧ S .endSym + 0x600 ≤ 0x20020000 ∧
    S .sidata ≤ 0x08100000 := by
  obtain ⟨-, h₁, h₂, h₃, h₄, hreserve, -, -, -, -, -, himage⟩ := h
  simp only [Heap.minHeapSize, minStackSize, Heap.ramEnd, Heap.ram] at hreserve
  omega

/-- The symbols, as numbers. -/
theorem toNat_symbols (h : Linked S) :
    (symbols S).sdata.toNat = S .sdata ∧ (symbols S).edata.toNat = S .edata ∧
      (symbols S).sidata.toNat = S .sidata ∧ (symbols S).sbss.toNat = S .sbss ∧
      (symbols S).ebss.toNat = S .ebss := by
  obtain ⟨hsdata, hedata, hsbss, hebss, -, hsidata⟩ := h.lt
  simp only [symbols, BitVec.toNat_ofNat]
  omega

/-- The reset handler can rely on the layout. -/
theorem placed (h : Linked S) : (symbols S).Placed := by
  obtain ⟨hsdata, hedata, hsidata, hsbss, hebss⟩ := h.toNat_symbols
  have hlt := h.lt
  have horigin : 0x20000000 ≤ S .sdata := h.origin_le_sdata
  have himage := h.image_ge
  refine ⟨?_, ?_, ?_, ?_, ?_⟩
  · rw [hsdata, hedata]
    exact h.sdata_le_edata
  · rw [Symbols.dataLen, hsdata, hedata]
    exact Nat.dvd_sub h.edata_dvd h.sdata_dvd
  · rw [hsbss, hebss]
    exact h.sbss_le_ebss
  · rw [Symbols.bssLen, hsbss, hebss]
    exact Nat.dvd_sub h.ebss_dvd h.sbss_dvd
  · -- flash ends below RAM
    have hle := h.image_le
    rw [Set.disjoint_left]
    intro a ha ha'
    rw [Symbols.dataLen, hsdata, hedata] at ha ha'
    rw [mem_extent_iff (by omega), hsidata] at ha
    rw [mem_extent_iff (by omega), hsdata] at ha'
    omega

end Linked

/-- **Every program that links starts with its statics initialized.** From reset, the handler gets to
the call of `SystemInit` after a number of instructions that depends on the two sections only, with
the stack pointer at the end of CCMRAM. Then every byte of `.bss` is zero, every byte of `.data` is
the byte of its image in flash, and no other byte of memory has changed. -/
theorem resetHandler_initializes (inputs : Pattern → List Input) (L : Layout MemRegion Sym)
    (h : link inputs memory sections = some L) (s : Thumb.State) (hpc : s.pc = 0) :
    ∃ t, Thumb.Steps (resetHandler (symbols L.symbol))
        (15 + 6 * ((L.symbol .edata - L.symbol .sdata) / 4)
          + 4 * ((L.symbol .ebss - L.symbol .sbss) / 4)) s t ∧
      (resetHandler (symbols L.symbol))[t.pc]? = some (.bl "SystemInit") ∧
      t.regs .sp = 0x10010000 ∧
      ∀ a : Addr, t.mem a =
        if L.symbol .sbss ≤ a.toNat ∧ a.toNat < L.symbol .ebss then 0
        else if L.symbol .sdata ≤ a.toNat ∧ a.toNat < L.symbol .edata then
          s.mem (BitVec.ofNat 32 (L.symbol .sidata + (a.toNat - L.symbol .sdata)))
        else s.mem a := by
  have hlinked := linked_of_link h
  obtain ⟨t, hsteps, htpc, hsp, hmem⟩ := steps_resetHandler hlinked.placed hpc
  obtain ⟨hsdata, hedata, hsidata, hsbss, hebss⟩ := hlinked.toNat_symbols
  have hlt := hlinked.lt
  have hdata := hlinked.sdata_le_edata
  have hbss := hlinked.sbss_le_ebss
  refine ⟨t, ?_, ?_, hsp, fun a => ?_⟩
  · rw [resetSteps, Symbols.dataLen, Symbols.bssLen, hsdata, hedata, hsbss, hebss] at hsteps
    exact hsteps
  · rw [htpc]
    rfl
  · have hinBss : (a - (symbols L.symbol).sbss).toNat < (symbols L.symbol).bssLen ↔
        L.symbol .sbss ≤ a.toNat ∧ a.toNat < L.symbol .ebss := by
      rw [← Extent.mem_extent, Symbols.bssLen, hsbss, hebss, Extent.mem_extent_iff (by omega),
        hsbss]
      omega
    have hinData : (a - (symbols L.symbol).sdata).toNat < (symbols L.symbol).dataLen ↔
        L.symbol .sdata ≤ a.toNat ∧ a.toNat < L.symbol .edata := by
      rw [← Extent.mem_extent, Symbols.dataLen, hsdata, hedata, Extent.mem_extent_iff (by omega),
        hsdata]
      omega
    rw [hmem, initialized, Thumb.zeroBytes, Thumb.copyBytes]
    simp only [hinBss, hinData]
    split
    · rfl
    · split
      · rename_i hin
        congr 1
        apply BitVec.eq_of_toNat_eq
        rw [BitVec.toNat_add, BitVec.toNat_sub, BitVec.toNat_ofNat, hsdata, hsidata]
        omega
      · rfl

/-- The input sections of a small program: 8 bytes of data and 100 of zeros. -/
def smallInputs : Pattern → List Input
  | .text => [⟨1024, 1⟩]
  | .data => [⟨6, 2⟩]
  | .bss => [⟨100, 3⟩]
  | _ => []

/-- The small program links. -/
theorem smallInputs_link : link smallInputs memory sections
    = some (layout smallInputs sections (.initial memory)) :=
  (link_eq_some_iff smallInputs).mpr ⟨by decide, rfl⟩

/-- The statics of the small program are initialized by 15 + 6 · 2 + 4 · 25 instructions. -/
theorem resetHandler_initializes_small :
    ∃ t, Thumb.Steps (resetHandler (symbols
        (layout smallInputs sections (.initial memory)).symbol)) 127
          ⟨fun _ => 0, ⟨false, false, false, false⟩, fun _ => 0xFF, 0⟩ t ∧
      t.mem 0x20000008 = 0 ∧ t.mem 0x20000070 = 0xFF := by
  obtain ⟨t, hsteps, -, -, hmem⟩ := resetHandler_initializes smallInputs _ smallInputs_link
    ⟨fun _ => 0, ⟨false, false, false, false⟩, fun _ => 0xFF, 0⟩ rfl
  refine ⟨t, hsteps, ?_, ?_⟩
  · rw [hmem, if_pos (by decide)]
  · rw [hmem, if_neg (by decide), if_neg (by decide)]

/-! ## The heap of a program that links -/

/-- The memory map of a program that links. -/
def Linked.memoryMap {S : Sym → ℕ} (h : Linked S) : Heap.MemoryMap where
  endAddr := BitVec.ofNat 32 (S .endSym)
  origin_le := by
    have hlt := h.lt
    have hle : Heap.ram.origin ≤ S .endSym := by
      have h₁ := h.origin_le_sdata
      have h₂ := h.sdata_le_edata
      have h₃ := h.edata_le_sbss
      have h₄ := h.sbss_le_ebss
      have h₅ := h.ebss_le_end
      omega
    rw [BitVec.toNat_ofNat, Nat.mod_eq_of_lt (by omega)]
    exact hle
  reserve_le := by
    have hlt := h.lt
    have hreserve := h.reserve_le
    rw [BitVec.toNat_ofNat, Nat.mod_eq_of_lt (by omega)]
    omega

/-- A stack pointer of a program that links: on the main stack, in CCMRAM, or on the stack of a
task, in the heap array of the kernel and so in `.bss`. -/
def OnStack (S : Sym → ℕ) (sp : Addr) : Prop :=
  (Heap.ccmram.origin ≤ sp.toNat ∧ sp.toNat ≤ Heap.estack) ∨
    (S .sbss ≤ sp.toNat ∧ sp.toNat < S .ebss)

instance (S : Sym → ℕ) (sp : Addr) : Decidable (OnStack S sp) :=
  inferInstanceAs (Decidable (_ ∨ _))

/-- Every such stack pointer is below the symbol `end`. -/
theorem Linked.lt_end {S : Sym → ℕ} (h : Linked S) {sp : Addr} (hsp : OnStack S sp) :
    sp.toNat < h.memoryMap.endAddr.toNat := by
  have hlt := h.lt
  have hend : h.memoryMap.endAddr.toNat = S .endSym :=
    Nat.mod_eq_of_lt (show S .endSym < 2 ^ 32 by omega)
  rw [hend]
  have h₁ := h.origin_le_sdata
  have h₂ := h.sdata_le_edata
  have h₃ := h.edata_le_sbss
  have h₄ := h.sbss_le_ebss
  have h₅ := h.ebss_le_end
  have hestack : Heap.estack < Heap.ram.origin := by decide
  rcases hsp with ⟨-, hmain⟩ | ⟨-, htask⟩
  · omega
  · omega

/-- A call that gets nothing: it returns -1, sets `ENOMEM` and leaves the break at `end`. -/
def Refused {ctx : Addr → Prop} (M : Heap.MemoryMap) (u : Heap.Usage) (c : Heap.Call ctx)
    (u' : Heap.Usage) : Prop :=
  Heap.result M u c = -1 ∧ u'.heap.errno = Heap.ENOMEM ∧ Heap.brk M.endAddr u'.heap = M.endAddr

/-- A word in `.bss` is zero when the C program starts. -/
theorem readWord_initialized {S : Sym → ℕ} (h : Linked S) {m : Thumb.Memory} {a : Addr}
    (hlo : S .sbss ≤ a.toNat) (hhi : a.toNat + 4 ≤ S .ebss) :
    Thumb.readWord (initialized (symbols S) m) a = 0 := by
  obtain ⟨-, -, -, hsbss, hebss⟩ := h.toNat_symbols
  have hlt := h.lt
  have hzero : Thumb.readWord (initialized (symbols S) m) a = Thumb.readWord (fun _ => 0) a := by
    refine Thumb.readWord_congr fun b hb => if_pos ?_
    rw [mem_extent_iff (by omega)] at hb
    rw [← mem_extent, Symbols.bssLen, hsbss, hebss, mem_extent_iff (by omega), hsbss]
    omega
  rw [hzero]
  simp [Thumb.readWord]

/-- **The C heap of every program that links is empty.** With `heap_end` in `.bss` as the reset
handler leaves it, every call of `_sbrk` from the main stack or the stack of a task returns -1, sets
`ENOMEM` and leaves the break at `end`, whatever calls came before. -/
theorem sbrk_refused_of_link (inputs : Pattern → List Input) (L : Layout MemRegion Sym)
    (h : link inputs memory sections = some L) (m : Thumb.Memory) (heapEnd : Addr)
    (hlo : L.symbol .sbss ≤ heapEnd.toNat) (hhi : heapEnd.toNat + 4 ≤ L.symbol .ebss)
    (errno : BitVec 32) (calls : List (Heap.Call (OnStack L.symbol))) :
    Always (Heap.call (linked_of_link h).memoryMap) (Refused (linked_of_link h).memoryMap)
      ⟨⟨Thumb.readWord (initialized (symbols L.symbol) m) heapEnd, errno⟩, []⟩ calls := by
  have hlinked := linked_of_link h
  rw [readWord_initialized hlinked hlo hhi]
  -- nothing granted, the break stays at `end`
  have hstep : ∀ (u : Heap.Usage) (c : Heap.Call (OnStack L.symbol)),
      Heap.Inv hlinked.memoryMap u ∧ u.granted = [] →
        Refused hlinked.memoryMap u c (Heap.call hlinked.memoryMap u c) ∧
          Heap.Inv hlinked.memoryMap (Heap.call hlinked.memoryMap u c) ∧
          (Heap.call hlinked.memoryMap u c).granted = [] := by
    rintro u c ⟨hinv, hnone⟩
    have hsp := hlinked.lt_end c.onStack
    have htiles := hinv.tiles
    have hbrk : hlinked.memoryMap.endAddr = Heap.brk hlinked.memoryMap.endAddr u.heap := by
      rw [hnone] at htiles
      exact BitVec.eq_of_toNat_eq htiles
    have hle := htiles.le
    obtain ⟨hresult, herrno, hgranted, hbrk'⟩ := hinv.call_refused (c := c) (by omega)
    have hreserve := hlinked.memoryMap.reserve_le
    obtain ⟨-, hinv'⟩ := hinv.step (c := c) (by omega)
    exact ⟨⟨hresult, herrno, hbrk'.trans hbrk.symm⟩, hinv', hgranted.trans hnone⟩
  exact Always.of_invariant hstep calls ⟨Heap.inv_start hlinked.memoryMap errno, rfl⟩

/-- The small program asks for 16 bytes, from its main stack. -/
theorem sbrk_refused_of_link_small :
    Always (Heap.call (linked_of_link smallInputs_link).memoryMap)
      (Refused (linked_of_link smallInputs_link).memoryMap)
      ⟨⟨Thumb.readWord (initialized (symbols
        (layout smallInputs sections (.initial memory)).symbol) fun _ => 0xFF) 0x20000010, 0⟩, []⟩
      [(⟨0x1000FF00, 16, .inl ⟨by decide, by decide⟩, by decide⟩ :
        Heap.Call (OnStack (layout smallInputs sections (.initial memory)).symbol))] :=
  sbrk_refused_of_link smallInputs _ smallInputs_link _ _ (by decide) (by decide) _ _

end Stm32Eth.Startup
