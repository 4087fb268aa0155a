import Stm32Eth.Lib.Transition
import Stm32Eth.Lib.Blocks
import Stm32Eth.Lib.LinkerScript
import Stm32Eth.Pbuf
import Mathlib.Algebra.Order.Group.Nat

/-!
# The break of the C heap

`_sbrk` of `sysmem.c` lets the heap grow from the symbol `end` up to the stack pointer of its
caller. Whatever the caller, the blocks it grants are consecutive and stay below the stack pointer,
and a refused call leaves the break where it is (`sbrk_kept`). The linker script puts the main stack
into CCMRAM, whose addresses lie below those of RAM, and the task stacks into `.bss`, below `end`:
from either of them every call is refused, also within the bytes reserved at `end`
(`sbrk_ok_iff`). A stack above the reserved bytes makes it keep its promise
(`sbrk_ok_of_aboveReserve`).
-/

namespace Stm32Eth.Heap

open Blocks Transition

/-! ## The memory map -/

/-- The region `RAM`. -/
def ram : LinkerScript.Region := ⟨0x20000000, 128 * 1024⟩

/-- The region `CCMRAM`. -/
def ccmram : LinkerScript.Region := ⟨0x10000000, 64 * 1024⟩

/-- `_estack`, the top of the main stack. -/
def estack : ℕ := ccmram.origin + ccmram.length

/-- `_Min_Heap_Size`. -/
def minHeapSize : ℕ := 0x200

/-- The end of RAM. -/
def ramEnd : ℕ := ram.origin + ram.length

/-- Where the linker places the symbol `end`: in RAM, with `_Min_Heap_Size` bytes after it. -/
structure MemoryMap where
  endAddr : Addr
  origin_le : ram.origin ≤ endAddr.toNat
  reserve_le : endAddr.toNat + minHeapSize ≤ ramEnd

/-- The stack pointer of the program: on the main stack in CCMRAM, or on a task stack, which lies in
the heap array of the kernel, in `.bss` and so below `end`. -/
def OnStack (M : MemoryMap) (sp : Addr) : Prop :=
  (ccmram.origin ≤ sp.toNat ∧ sp.toNat ≤ estack) ∨
    (ram.origin ≤ sp.toNat ∧ sp.toNat < M.endAddr.toNat)

instance (M : MemoryMap) (sp : Addr) : Decidable (OnStack M sp) :=
  inferInstanceAs (Decidable (_ ∨ _))

/-- A stack pointer in RAM above the bytes reserved for the heap. -/
def AboveReserve (M : MemoryMap) (sp : Addr) : Prop :=
  M.endAddr.toNat + minHeapSize ≤ sp.toNat ∧ sp.toNat ≤ ramEnd

/-- A call of `_sbrk` that does not shrink the heap, from a context whose stack pointer meets
`ctx`. -/
structure Call (ctx : Addr → Prop) where
  sp : Addr
  incr : BitVec 32
  onStack : ctx sp
  nonneg : 0 ≤ incr.toInt

/-! ## `_sbrk` -/

/-- `ENOMEM`. -/
def ENOMEM : BitVec 32 := 12

/-- The static `heap_end` of `_sbrk`, and `errno`. -/
structure SbrkState where
  heapEnd : Addr
  errno : BitVec 32
  deriving DecidableEq, Repr

/-- `_sbrk`: the symbol `end` is at `endAddr` and the stack pointer is `sp`. -/
def sbrk (endAddr sp : Addr) (incr : BitVec 32) (s : SbrkState) : Addr × SbrkState :=
  let s := if s.heapEnd = 0 then { s with heapEnd := endAddr } else s
  let prevHeapEnd := s.heapEnd
  -- pointers compare unsigned
  if s.heapEnd + incr > sp then
    (-1, { s with errno := ENOMEM })
  else
    let s := { s with heapEnd := s.heapEnd + incr }
    (prevHeapEnd, s)

/-- The break: `heap_end`, or `end` until the first call stores it there. -/
def brk (endAddr : Addr) (s : SbrkState) : Addr :=
  if s.heapEnd = 0 then endAddr else s.heapEnd

/-- `_sbrk` in terms of the break. -/
theorem sbrk_eq (endAddr sp : Addr) (incr : BitVec 32) (s : SbrkState) :
    sbrk endAddr sp incr s =
      if brk endAddr s + incr > sp then (-1, ⟨brk endAddr s, ENOMEM⟩)
      else (brk endAddr s, ⟨brk endAddr s + incr, s.errno⟩) := by
  unfold sbrk brk
  by_cases hinit : s.heapEnd = 0
  · simp only [if_pos hinit]
  · simp only [if_neg hinit]

/-- A call whose new break is above the stack pointer is refused. -/
theorem sbrk_of_lt {endAddr sp : Addr} {incr : BitVec 32} {s : SbrkState}
    (h : sp < brk endAddr s + incr) :
    sbrk endAddr sp incr s = (-1, ⟨brk endAddr s, ENOMEM⟩) := by
  rw [sbrk_eq, if_pos h]

/-- A call whose new break is at most the stack pointer is granted. -/
theorem sbrk_of_le {endAddr sp : Addr} {incr : BitVec 32} {s : SbrkState}
    (h : brk endAddr s + incr ≤ sp) :
    sbrk endAddr sp incr s = (brk endAddr s, ⟨brk endAddr s + incr, s.errno⟩) := by
  rw [sbrk_eq, if_neg (BitVec.not_lt.mpr h)]

/-! ## Runs of calls -/

/-- The heap, and the blocks granted so far. -/
structure Usage where
  heap : SbrkState
  granted : List (Block ℕ)

/-- Before the first call. -/
def start (errno : BitVec 32) : Usage := ⟨⟨0, errno⟩, []⟩

variable {M : MemoryMap} {ctx : Addr → Prop}

/-- A call, and the block it grants unless it returns -1. -/
def call (M : MemoryMap) (u : Usage) (c : Call ctx) : Usage :=
  let (p, heap) := sbrk M.endAddr c.sp c.incr u.heap
  { heap, granted := if p = -1 then u.granted else u.granted ++ [⟨p.toNat, c.incr.toNat⟩] }

/-- What the call returns. -/
def result (M : MemoryMap) (u : Usage) (c : Call ctx) : Addr :=
  (sbrk M.endAddr c.sp c.incr u.heap).1

/-- The bytes granted so far. -/
def Usage.total (u : Usage) : ℕ := (u.granted.map Block.size).sum

/-- What every call keeps: a failure returns -1, sets `ENOMEM` and leaves the break, and the blocks
granted are consecutive from `end` to the break, pairwise disjoint and in RAM. -/
structure CallKept (M : MemoryMap) (u : Usage) (c : Call ctx) (u' : Usage) : Prop where
  failed : result M u c ≠ brk M.endAddr u.heap →
    result M u c = -1 ∧ u'.heap.errno = ENOMEM ∧ brk M.endAddr u'.heap = brk M.endAddr u.heap
  consecutive : Tiles M.endAddr.toNat u'.granted (brk M.endAddr u'.heap).toNat
  disjoint : u'.granted.Pairwise fun b d => Disjoint b.extent d.extent
  contained : ∀ b ∈ u'.granted, b.extent ⊆ Set.Ico M.endAddr.toNat ramEnd

/-- The promise of `_Min_Heap_Size`: a call within the reserved bytes returns the previous break and
advances it. -/
structure CallOk (M : MemoryMap) (u : Usage) (c : Call ctx) (u' : Usage) : Prop
    extends CallKept M u c u' where
  reserved : u.total + c.incr.toNat ≤ minHeapSize →
    result M u c = brk M.endAddr u.heap ∧
      brk M.endAddr u'.heap = brk M.endAddr u.heap + c.incr

/-- The invariant of a run: the granted blocks fill the heap from `end` to the break, in RAM. -/
structure Inv (M : MemoryMap) (u : Usage) : Prop where
  tiles : Tiles M.endAddr.toNat u.granted (brk M.endAddr u.heap).toNat
  brk_le : (brk M.endAddr u.heap).toNat ≤ ramEnd

/-- Before the first call the heap is empty. -/
theorem inv_start (M : MemoryMap) (errno : BitVec 32) : Inv M (start errno) := by
  refine ⟨rfl, ?_⟩
  have hreserve := M.reserve_le
  show M.endAddr.toNat ≤ ramEnd
  omega

/-- The granted bytes lie between `end` and the break. -/
theorem Inv.end_add_total {u : Usage} (h : Inv M u) :
    M.endAddr.toNat + u.total = (brk M.endAddr u.heap).toNat :=
  h.tiles.add_sum

/-- The break is in RAM, so the new break does not wrap around. -/
theorem Inv.toNat_brk_add {u : Usage} (h : Inv M u) (c : Call ctx) :
    (brk M.endAddr u.heap + c.incr).toNat = (brk M.endAddr u.heap).toNat + c.incr.toNat := by
  have hbrk : (brk M.endAddr u.heap).toNat ≤ 0x20020000 := h.brk_le
  have hincr := c.nonneg
  rw [BitVec.toInt_eq_toNat_cond] at hincr
  have hlt : c.incr.toNat < 2 ^ 31 := by
    have := c.incr.isLt
    split at hincr <;> omega
  rw [BitVec.toNat_add, Nat.mod_eq_of_lt (by omega)]

/-- The break is neither null nor -1. -/
theorem Inv.brk_ne {u : Usage} (h : Inv M u) :
    brk M.endAddr u.heap ≠ 0 ∧ brk M.endAddr u.heap ≠ -1 := by
  have hlo : ram.origin ≤ (brk M.endAddr u.heap).toNat := M.origin_le.trans h.tiles.le
  have hhi := h.brk_le
  constructor
  · intro hzero
    rw [hzero] at hlo
    exact absurd hlo (by decide)
  · intro hmax
    rw [hmax] at hhi
    exact absurd hhi (by decide)

/-- Nor is the new break null. -/
theorem Inv.brk_add_ne {u : Usage} (h : Inv M u) (c : Call ctx) :
    brk M.endAddr u.heap + c.incr ≠ 0 := by
  intro hzero
  have hsum := h.toNat_brk_add c
  have hbrk := BitVec.toNat_ne_iff_ne.mpr h.brk_ne.1
  rw [hzero] at hsum
  change _ ≠ 0 at hbrk
  change 0 = _ at hsum
  omega

/-- An initialised break is `heap_end`. -/
theorem brk_of_ne {endAddr a : Addr} (h : a ≠ 0) (errno : BitVec 32) :
    brk endAddr ⟨a, errno⟩ = a := if_neg h

/-- A refused call: the new break is above the stack pointer. -/
theorem Inv.call_refused {u : Usage} (h : Inv M u) {c : Call ctx}
    (hsp : c.sp.toNat < (brk M.endAddr u.heap).toNat + c.incr.toNat) :
    result M u c = -1 ∧ (call M u c).heap.errno = ENOMEM ∧ (call M u c).granted = u.granted ∧
      brk M.endAddr (call M u c).heap = brk M.endAddr u.heap := by
  have hlt : c.sp < brk M.endAddr u.heap + c.incr := by
    rw [BitVec.lt_def, h.toNat_brk_add]
    exact hsp
  unfold result call
  rw [sbrk_of_lt hlt]
  exact ⟨rfl, rfl, rfl, brk_of_ne h.brk_ne.1 ENOMEM⟩

/-- A granted call: the new break is at most the stack pointer. -/
theorem Inv.call_granted {u : Usage} (h : Inv M u) {c : Call ctx}
    (hsp : (brk M.endAddr u.heap).toNat + c.incr.toNat ≤ c.sp.toNat) :
    result M u c = brk M.endAddr u.heap ∧
      (call M u c).granted =
        u.granted ++ [⟨(brk M.endAddr u.heap).toNat, c.incr.toNat⟩] ∧
      brk M.endAddr (call M u c).heap = brk M.endAddr u.heap + c.incr := by
  have hle : brk M.endAddr u.heap + c.incr ≤ c.sp := by
    rw [BitVec.le_def, h.toNat_brk_add]
    exact hsp
  unfold result call
  rw [sbrk_of_le hle]
  exact ⟨rfl, if_neg h.brk_ne.2, brk_of_ne (h.brk_add_ne c) u.heap.errno⟩

/-- What the invariant after a call says about the granted blocks. -/
theorem Inv.kept {u u' : Usage} {c : Call ctx} (h : Inv M u')
    (hfailed : result M u c ≠ brk M.endAddr u.heap → result M u c = -1 ∧
      u'.heap.errno = ENOMEM ∧ brk M.endAddr u'.heap = brk M.endAddr u.heap) :
    CallKept M u c u' := by
  refine ⟨hfailed, h.tiles, h.tiles.pairwise_disjoint, fun b hb => ?_⟩
  exact (h.tiles.extent_subset hb).trans (Set.Ico_subset_Ico_right h.brk_le)

/-- **Step.** A call from a stack pointer that is not above RAM. -/
theorem Inv.step {u : Usage} (h : Inv M u) {c : Call ctx} (hsp : c.sp.toNat ≤ ramEnd) :
    CallKept M u c (call M u c) ∧ Inv M (call M u c) := by
  rcases Nat.lt_or_ge c.sp.toNat ((brk M.endAddr u.heap).toNat + c.incr.toNat) with hlt | hge
  · obtain ⟨hresult, herrno, hgranted, hbrk⟩ := h.call_refused hlt
    have hinv : Inv M (call M u c) := by
      refine ⟨?_, ?_⟩
      · rw [hgranted, hbrk]
        exact h.tiles
      · rw [hbrk]
        exact h.brk_le
    exact ⟨hinv.kept fun _ => ⟨hresult, herrno, hbrk⟩, hinv⟩
  · obtain ⟨hresult, hgranted, hbrk⟩ := h.call_granted hge
    have hinv : Inv M (call M u c) := by
      refine ⟨?_, ?_⟩
      · rw [hgranted, hbrk, h.toNat_brk_add]
        exact h.tiles.concat _
      · rw [hbrk, h.toNat_brk_add]
        exact hge.trans hsp
    exact ⟨hinv.kept fun hne => absurd hresult hne, hinv⟩

/-- **Run.** From whatever contexts `_sbrk` is called, as long as no stack lies above RAM: a failure
returns -1, sets `ENOMEM` and leaves the break, and the granted blocks are consecutive, disjoint and
in RAM. -/
theorem sbrk_kept (M : MemoryMap) (hctx : ∀ sp, ctx sp → sp.toNat ≤ ramEnd) (errno : BitVec 32)
    (calls : List (Call ctx)) : Always (call M) (CallKept M) (start errno) calls :=
  Always.of_invariant (fun _ c h => h.step (hctx c.sp c.onStack)) calls (inv_start M errno)

/-! ## A stack above the reserved bytes -/

/-- **Step.** A stack pointer above the reserved bytes grants every call within them. -/
theorem Inv.step_aboveReserve {u : Usage} (h : Inv M u) (c : Call (AboveReserve M)) :
    CallOk M u c (call M u c) ∧ Inv M (call M u c) := by
  obtain ⟨hreserve, hsp⟩ := c.onStack
  obtain ⟨hkept, hinv⟩ := h.step hsp
  refine ⟨⟨hkept, fun hfits => ?_⟩, hinv⟩
  have htotal := h.end_add_total
  have hge : (brk M.endAddr u.heap).toNat + c.incr.toNat ≤ c.sp.toNat := by omega
  obtain ⟨hresult, -, hbrk⟩ := h.call_granted hge
  exact ⟨hresult, hbrk⟩

/-- **Run.** Called from stacks above the reserved bytes only, `_sbrk` keeps its promise. -/
theorem sbrk_ok_of_aboveReserve (M : MemoryMap) (errno : BitVec 32)
    (calls : List (Call (AboveReserve M))) : Always (call M) (CallOk M) (start errno) calls :=
  Always.of_invariant (fun _ c h => h.step_aboveReserve c) calls (inv_start M errno)

/-! ## The stacks of this program -/

/-- Both kinds of stack lie below `end`. -/
theorem OnStack.lt_end {sp : Addr} (h : OnStack M sp) : sp.toNat < M.endAddr.toNat := by
  rcases h with ⟨-, hmain⟩ | ⟨-, htask⟩
  · have hregions : estack < ram.origin := by decide
    exact (hmain.trans_lt hregions).trans_le M.origin_le
  · exact htask

/-- **Step.** From the stacks of this program every call is refused, which breaks the promise when
the call is within the reserved bytes. -/
theorem Inv.step_onStack {u : Usage} (h : Inv M u) (hnone : u.granted = [])
    (c : Call (OnStack M)) :
    (CallOk M u c (call M u c) ↔ minHeapSize < c.incr.toNat) ∧
      Inv M (call M u c) ∧ (call M u c).granted = [] := by
  have hbelow := c.onStack.lt_end
  have hend := h.tiles.le
  have hreserve := M.reserve_le
  obtain ⟨hresult, -, hgranted, -⟩ := h.call_refused (c := c) (by omega)
  obtain ⟨hkept, hinv⟩ := h.step (c := c) (by omega)
  refine ⟨⟨fun hok => ?_, fun hlarge => ?_⟩, hinv, hgranted.trans hnone⟩
  · by_contra hsmall
    have hfits : u.total + c.incr.toNat ≤ minHeapSize := by
      simp only [Usage.total, hnone, List.map_nil, List.sum_nil]
      omega
    exact h.brk_ne.2 ((hok.reserved hfits).1.symm.trans hresult)
  · exact ⟨hkept, fun hfits => absurd hfits (by omega)⟩

/-- **The heap of this program.** In a run of calls from the main stack and the task stacks, calls
within the reserved bytes return the previous break, failures return -1, set `ENOMEM` and leave the
break, and the granted blocks are consecutive, disjoint and in RAM, if and only if every call asks
for more than the reserved bytes. -/
theorem sbrk_ok_iff (M : MemoryMap) (errno : BitVec 32) (calls : List (Call (OnStack M))) :
    Always (call M) (CallOk M) (start errno) calls ↔ ∀ c ∈ calls, minHeapSize < c.incr.toNat := by
  have hstep : ∀ u (c : Call (OnStack M)), Inv M u ∧ u.granted = [] →
      (CallOk M u c (call M u c) ↔ minHeapSize < c.incr.toNat) ∧
        Inv M (call M u c) ∧ (call M u c).granted = [] :=
    fun _ c h => h.1.step_onStack h.2 c
  exact Always.iff_forall hstep calls ⟨inv_start M errno, rfl⟩

/-- A program with 16 KiB of data. -/
def smallMap : MemoryMap := ⟨0x20004000, by decide, by decide⟩

/-- 64 bytes are refused on the main stack, and on a task stack. -/
theorem sbrk_refuses_smallMap :
    ¬ Always (call smallMap) (CallOk smallMap) (start 0)
        [(⟨0x1000FF00, 64, by decide, by decide⟩ : Call (OnStack smallMap))] ∧
      ¬ Always (call smallMap) (CallOk smallMap) (start 0)
        [(⟨0x20002000, 64, by decide, by decide⟩ : Call (OnStack smallMap))] := by
  constructor
  · intro h
    exact absurd (h.1.reserved (by decide)).1 (by decide)
  · intro h
    exact absurd (h.1.reserved (by decide)).1 (by decide)

end Stm32Eth.Heap
