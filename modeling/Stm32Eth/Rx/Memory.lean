import Stm32Eth.Lib.Extent
import Stm32Eth.Rx.Ownership
import Stm32Eth.Tx.Output

/-!
# The receive buffers in memory

The DMA writes `RxBuffLen` bytes at most into the buffer of a descriptor. The elements of `RX_POOL`
do not overlap, so who owns an element decides what the DMA can overwrite: nothing of an element
that any other owner holds, and no `struct pbuf` at all (`dma_disjoint`). The other way round, what
a filled descriptor, the frame under construction and `ethif_in` hold is out of reach of the DMA and
of lwIP (`Inv.not_mayWrite`).
-/

namespace Stm32Eth.Rx

open Extent Ledger
open Tx (bytesAt)

variable {D : ℕ} {pool : RxPool} {elemSize : ℕ}
  {pbufAllocedCustom : BitVec 16 → Addr → BitVec 16 → Pbuf → Pbuf} {refuses : Multiset Addr → Prop}

/-! ## The layout of the pool -/

/-- `s_heth.Init.RxBuffLen`. -/
def rxBuffLen : ℕ := 1536

/-- `RX_POOL` in memory: elements of `elemSize` bytes that do not overlap, each with room for its
`buff`. -/
structure RxPool.Laid (pool : RxPool) (elemSize : ℕ) : Prop where
  disjoint : ∀ p ∈ pool.elems, ∀ q ∈ pool.elems, p ≠ q →
    Disjoint (extent p elemSize) (extent q elemSize)
  fits : pool.offsetofBuff.toNat + ethRxBufSize.toNat ≤ elemSize
  le : elemSize ≤ 2 ^ 32

/-- The DMA does not write beyond a `buff`. -/
theorem rxBuffLen_le : rxBuffLen ≤ ethRxBufSize.toNat := by decide

/-- The buffer of an element lies in the element. -/
theorem RxPool.Laid.buff_subset (h : pool.Laid elemSize) (p : Addr) :
    extent (p + pool.offsetofBuff) rxBuffLen ⊆ extent p elemSize :=
  extent_add_subset ((Nat.add_le_add_left rxBuffLen_le _).trans h.fits)

/-- The address of an element of `ramPool`. -/
theorem ramPool_toNat {i : ℕ} (hi : i < ethRxBufferCnt) :
    (0x20000000 + 1568 * BitVec.ofNat 32 i : Addr).toNat = 0x20000000 + 1568 * i := by
  unfold ethRxBufferCnt at hi
  rw [BitVec.toNat_add, BitVec.toNat_mul, BitVec.toNat_ofNat]
  change (0x20000000 + 1568 * (i % 2 ^ 32) % 2 ^ 32) % 2 ^ 32 = _
  omega

/-- The elements of `ramPool` are 1568 bytes long. -/
theorem ramPool_laid : ramPool.Laid 1568 where
  disjoint := by
    simp only [ramPool, Finset.forall_mem_image, Finset.mem_range]
    intro i hi j hj hne
    have hij : i ≠ j := by
      rintro rfl
      exact hne rfl
    have hi' := ramPool_toNat hi
    have hj' := ramPool_toNat hj
    unfold ethRxBufferCnt at hi hj
    rw [Set.disjoint_left]
    intro a ha ha'
    rw [mem_extent_iff (by omega), hi'] at ha
    rw [mem_extent_iff (by omega), hj'] at ha'
    omega
  fits := by decide
  le := by decide

/-! ## What the DMA can overwrite -/

/-- The buffer of a descriptor lies in the element the descriptor owns. -/
theorem Inv.attached_mem {s : State D} {i : Fin D} (hbuff : (s.desc i).buff ≠ NULL) :
    (s.desc i).buff - pool.offsetofBuff ∈ ledger pool s (.descriptor i) := by
  simp [ledger, (s.desc i).attached_of_ne hbuff]

/-- Two elements with different owners do not overlap. -/
theorem Inv.extent_disjoint {s : State D} (h : Inv pool s) (hlaid : pool.Laid elemSize)
    {o o' : Owner D} (hne : o ≠ o') {p q : Addr} (hp : p ∈ ledger pool s o)
    (hq : q ∈ ledger pool s o') : Disjoint (extent p elemSize) (extent q elemSize) := by
  refine hlaid.disjoint p (h.mem_elems hp) q (h.mem_elems hq) ?_
  rintro rfl
  exact h.not_mem hp o' hne hq

/-- The buffer of a descriptor lies in its element. -/
theorem RxPool.Laid.desc_subset (h : pool.Laid elemSize) (b : Addr) :
    extent b rxBuffLen ⊆ extent (b - pool.offsetofBuff) elemSize := by
  have hsub := h.buff_subset (b - pool.offsetofBuff)
  rwa [BitVec.sub_add_cancel] at hsub

/-- **The DMA overwrites nothing it does not own.** In every reachable state the buffer of a
descriptor is disjoint from every element that another owner holds: another descriptor, the pool,
the frame under construction, `ethif_in` or the stack. It is also disjoint from the part before
`buff` of every element, where the `struct pbuf_custom` is. -/
theorem dma_disjoint (pool : RxPool) (elemSize : ℕ) (hlaid : pool.Laid elemSize)
    (pbufAllocedCustom : BitVec 16 → Addr → BitVec 16 → Pbuf → Pbuf)
    (refuses : Multiset Addr → Prop) (s : State D)
    (h : (system pool pbufAllocedCustom refuses).Reachable s) (i : Fin D)
    (hbuff : (s.desc i).buff ≠ NULL) :
    (∀ o, o ≠ .descriptor i → ∀ q ∈ ledger pool s o,
        Disjoint (extent (s.desc i).buff rxBuffLen) (extent q elemSize)) ∧
      ∀ q ∈ pool.elems,
        Disjoint (extent (s.desc i).buff rxBuffLen) (extent q pool.offsetofBuff.toNat) := by
  have hinv := inv_of_reachable h
  have hown : (s.desc i).buff - pool.offsetofBuff ∈ ledger pool s (.descriptor i) :=
    Inv.attached_mem hbuff
  have hsub := hlaid.desc_subset (s.desc i).buff
  refine ⟨fun o ho q hq => ?_, fun q hq => ?_⟩
  · exact (hinv.extent_disjoint hlaid ho.symm hown hq).mono_left hsub
  · by_cases hqp : q = (s.desc i).buff - pool.offsetofBuff
    · -- the element's own header ends where its buffer starts
      have hfits := hlaid.fits
      have hle := hlaid.le
      have hlen := rxBuffLen_le
      have hheader : Disjoint (extent q pool.offsetofBuff.toNat)
          (extent (q + pool.offsetofBuff) rxBuffLen) := disjoint_extent_add (by omega)
      rw [hqp, BitVec.sub_add_cancel, ← hqp] at hheader
      exact hheader.symm
    · have hheader : extent q pool.offsetofBuff.toNat ⊆ extent q elemSize := by
        have hfits := hlaid.fits
        intro a ha
        rw [mem_extent] at ha ⊢
        omega
      exact (hlaid.disjoint _ (hinv.mem_elems hown) q hq (Ne.symm hqp)).mono hsub hheader

/-- The first buffer of `ramPool`, once a descriptor has it, is disjoint from the second element. -/
theorem dma_disjoint_ramPool :
    Disjoint (extent (0x20000020 : Addr) rxBuffLen) (extent (0x20000620 : Addr) 1568) := by
  have hstart : (system ramPool lwipAllocedCustom (· = 0)).Reachable
      (State.start ramPool fun _ => ⟨⟨NULL, 0, 0, 0⟩, none⟩ : State 4) :=
    .init (State.start_init _ _ _ _)
  have hrefill := (hstart.step (.pollRead rfl rfl)).step
    (.refill (p := 0x20000000) 0 rfl rfl (.inl (by decide)) rfl (by decide))
  have hdisjoint := dma_disjoint ramPool 1568 ramPool_laid lwipAllocedCustom (· = 0) _ hrefill 0
    (by decide)
  exact hdisjoint.1 .rxPool (by simp) 0x20000620 (by decide)

/-- What the DMA and lwIP may write: free elements, elements of the stack, and the buffers of
descriptors the DMA has not filled. -/
def MayWrite (elemSize : ℕ) (s : State D) (a : Addr) : Prop :=
  (∃ p ∈ s.shared.rxPool, a ∈ extent p elemSize) ∨ (∃ p ∈ s.heldByStack, a ∈ extent p elemSize) ∨
    ∃ i, (s.desc i).buff ≠ NULL ∧ (s.desc i).filled = none ∧ a ∈ extent (s.desc i).buff rxBuffLen

/-- Nothing else is written: not the elements of a filled descriptor, of the frame under
construction and of `ethif_in`. -/
theorem Inv.not_mayWrite {s : State D} (h : Inv pool s) (hlaid : pool.Laid elemSize) {o : Owner D}
    (hpool : o ≠ .rxPool) (hstack : o ≠ .stack)
    (hfilled : ∀ i, o = .descriptor i → (s.desc i).filled ≠ none) {p : Addr}
    (hp : p ∈ ledger pool s o) {a : Addr} (ha : a ∈ extent p elemSize) :
    ¬ MayWrite elemSize s a := by
  rintro (⟨q, hq, ha'⟩ | ⟨q, hq, ha'⟩ | ⟨i, hbuff, hempty, ha'⟩)
  · have hfree : q ∈ ledger pool s .rxPool := hq
    exact Set.disjoint_left.mp (h.extent_disjoint hlaid hpool hp hfree) ha ha'
  · have hheld : q ∈ ledger pool s .stack := hq
    exact Set.disjoint_left.mp (h.extent_disjoint hlaid hstack hp hheld) ha ha'
  · have hne : o ≠ .descriptor i := fun ho => hfilled i ho hempty
    exact Set.disjoint_left.mp (h.extent_disjoint hlaid hne hp (Inv.attached_mem hbuff)) ha
      (hlaid.desc_subset _ ha')

/-! ## Bytes -/

/-- The bytes of a block depend on its addresses only. -/
theorem bytesAt_congr {b b' : Addr → BitVec 8} {p : Addr} {n m : ℕ}
    (h : ∀ a ∈ extent p m, b' a = b a) (hn : n ≤ m) (hm : m ≤ 2 ^ 32) :
    bytesAt b' p n = bytesAt b p n := by
  unfold bytesAt
  refine List.map_congr_left fun k hk => h _ ?_
  exact add_mem_extent p ((List.mem_range.mp hk).trans_le hn) hm

end Stm32Eth.Rx
