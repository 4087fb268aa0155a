import Stm32Eth.Pbuf
import Mathlib.Data.Finset.Card

/-!
# The receive callbacks of `ethif.c`

`pbuf_free_custom`, `HAL_ETH_RxAllocateCallback` and `HAL_ETH_RxLinkCallback` over the state they
share: the free elements of `RX_POOL`, the flag `RxAllocStatus` and the pbufs of the pool's
elements. `LWIP_MEMPOOL_ALLOC` and `pbuf_alloced_custom` belong to lwIP: the pointer the first
returns and the effect of the second are parameters.

Each callback has a specification lemma that its users cite. The one of the link callback says that
it terminates on a well formed chain, appends the new pbuf, and adds its length to every `tot_len`.
-/

namespace Stm32Eth.Rx

open Linked

/-- The values of `custom_free_function` in this program. -/
inductive CustomFree
  | pbufFreeCustom
  deriving DecidableEq, Repr

/-- `struct pbuf_custom`, the first member of every pool element. -/
structure PbufCustom where
  pbuf : Pbuf
  customFreeFunction : Option CustomFree
  deriving DecidableEq, Repr

/-- The pbufs of the pool's elements, by the address of the element. -/
abbrev Mem := Addr → PbufCustom

/-- The successor of a pbuf in its chain. -/
abbrev Mem.next (m : Mem) (a : Addr) : Addr := (m a).pbuf.next

/-- `MemChain m p l`: following `next` from `p` visits the pool elements `l`. -/
abbrev MemChain (m : Mem) (p : Addr) (l : List Addr) : Prop := Chain NULL m.next p l

/-- Write one `struct pbuf` in place. -/
def Mem.setPbuf (m : Mem) (a : Addr) (f : Pbuf → Pbuf) : Mem :=
  Function.update m a { m a with pbuf := f (m a).pbuf }

@[simp] theorem Mem.setPbuf_self (m : Mem) (a : Addr) (f : Pbuf → Pbuf) :
    m.setPbuf a f a = { m a with pbuf := f (m a).pbuf } := by
  simp [Mem.setPbuf]

@[simp] theorem Mem.setPbuf_of_ne (m : Mem) {a b : Addr} (f : Pbuf → Pbuf) (h : b ≠ a) :
    m.setPbuf a f b = m b := by
  simp [Mem.setPbuf, h]

/-- `RxAllocStatusTypeDef`. -/
inductive RxAllocStatus
  | rxAllocOk
  | rxAllocError
  deriving DecidableEq, Repr

/-- `RX_POOL` and the layout of its elements, `RxBuff_t`: the addresses of the elements and the
offset of `buff` in them. Neither an element nor its `buff` is at the null address. -/
structure RxPool where
  elems : Finset Addr
  offsetofBuff : Addr
  ne_null : ∀ p ∈ elems, p ≠ NULL
  buff_ne_null : ∀ p ∈ elems, p + offsetofBuff ≠ NULL

/-- `ETH_RX_BUFFER_CNT`. -/
def ethRxBufferCnt : ℕ := 12

/-- `ETH_RX_BUF_SIZE`. -/
def ethRxBufSize : BitVec 16 := 1536

/-- `RX_POOL` with its elements one after the other from the start of RAM. -/
def ramPool : RxPool where
  elems := (Finset.range ethRxBufferCnt).image fun i => 0x20000000 + 1568 * BitVec.ofNat 32 i
  offsetofBuff := 32
  ne_null := by
    simp only [Finset.forall_mem_image]
    decide
  buff_ne_null := by
    simp only [Finset.forall_mem_image]
    decide

/-- The elements of `ramPool` are distinct. -/
theorem ramPool_card : ramPool.elems.card = ethRxBufferCnt := by
  decide +kernel

/-- What the receive callbacks share: the free elements of `RX_POOL`, `RxAllocStatus` and the
pbufs. -/
structure Shared where
  rxPool : Multiset Addr
  rxAllocStatus : RxAllocStatus
  mem : Mem

/-! ## `pbuf_free_custom` -/

/-- `LWIP_MEMPOOL_FREE(RX_POOL, custom_pbuf)`. -/
def Shared.mempoolFree (s : Shared) (p : Addr) : Shared :=
  { s with rxPool := p ::ₘ s.rxPool }

/-- The end of `pbuf_free_custom`: if the pool was exhausted, signal the `ethernetif_input` task. -/
def Shared.signal (s : Shared) : Shared :=
  if s.rxAllocStatus = .rxAllocError then { s with rxAllocStatus := .rxAllocOk } else s

@[simp] theorem Shared.signal_rxPool (s : Shared) : s.signal.rxPool = s.rxPool := by
  unfold Shared.signal; split <;> rfl

@[simp] theorem Shared.signal_mem (s : Shared) : s.signal.mem = s.mem := by
  unfold Shared.signal; split <;> rfl

@[simp] theorem Shared.signal_rxAllocStatus (s : Shared) :
    s.signal.rxAllocStatus = .rxAllocOk := by
  unfold Shared.signal
  cases h : s.rxAllocStatus with
  | rxAllocOk => simp [h]
  | rxAllocError => simp

/-- `pbuf_free_custom`, run without interruption. -/
def pbufFreeCustom (p : Addr) (s : Shared) : Shared :=
  (s.mempoolFree p).signal

@[simp] theorem pbufFreeCustom_rxPool (p : Addr) (s : Shared) :
    (pbufFreeCustom p s).rxPool = p ::ₘ s.rxPool := by
  simp [pbufFreeCustom, Shared.mempoolFree]

@[simp] theorem pbufFreeCustom_mem (p : Addr) (s : Shared) :
    (pbufFreeCustom p s).mem = s.mem := by
  simp [pbufFreeCustom, Shared.mempoolFree]

@[simp] theorem pbufFreeCustom_rxAllocStatus (p : Addr) (s : Shared) :
    (pbufFreeCustom p s).rxAllocStatus = .rxAllocOk := by
  simp [pbufFreeCustom]

/-- lwIP's `pbuf_free` on one unshared custom pbuf: its custom free function is called, once. -/
def callCustomFree (p : Addr) (s : Shared) : Shared :=
  match (s.mem p).customFreeFunction with
  | some .pbufFreeCustom => pbufFreeCustom p s
  | none => s

/-! ## `HAL_ETH_RxAllocateCallback` -/

/-- `HAL_ETH_RxAllocateCallback`: `p` is what `LWIP_MEMPOOL_ALLOC(RX_POOL)` returned. The first
component is the value stored in `*buff`. -/
def halEthRxAllocateCallback (pool : RxPool)
    (pbufAllocedCustom : BitVec 16 → Addr → BitVec 16 → Pbuf → Pbuf) (p : Addr) (s : Shared) :
    Addr × Shared :=
  if p ≠ NULL then
    let buff := p + pool.offsetofBuff
    (buff,
      { s with
        rxPool := s.rxPool.erase p
        mem := Function.update s.mem p
          { pbuf := pbufAllocedCustom 0 buff ethRxBufSize (s.mem p).pbuf
            customFreeFunction := some .pbufFreeCustom } })
  else
    (NULL, { s with rxAllocStatus := .rxAllocError })

/-- With an element of the pool, the allocate callback takes it out of the pool, hands out its
buffer, initializes its pbuf and installs the free function. -/
theorem halEthRxAllocateCallback_of_ne {pool : RxPool}
    {pbufAllocedCustom : BitVec 16 → Addr → BitVec 16 → Pbuf → Pbuf} {p : Addr} (s : Shared)
    (hp : p ≠ NULL) :
    halEthRxAllocateCallback pool pbufAllocedCustom p s = (p + pool.offsetofBuff,
      { s with
        rxPool := s.rxPool.erase p
        mem := Function.update s.mem p
          { pbuf := pbufAllocedCustom 0 (p + pool.offsetofBuff) ethRxBufSize (s.mem p).pbuf
            customFreeFunction := some .pbufFreeCustom } }) := by
  rw [halEthRxAllocateCallback, if_pos hp]

/-- Without one, it hands out null and records the failure. -/
theorem halEthRxAllocateCallback_null {pool : RxPool}
    {pbufAllocedCustom : BitVec 16 → Addr → BitVec 16 → Pbuf → Pbuf} (s : Shared) :
    halEthRxAllocateCallback pool pbufAllocedCustom NULL s
      = (NULL, { s with rxAllocStatus := .rxAllocError }) := by
  rw [halEthRxAllocateCallback, if_neg (by simp)]

/-- lwIP's `pbuf_alloced_custom` for a buffer without room for a header. -/
def lwipAllocedCustom (length : BitVec 16) (payloadMem : Addr) (_payloadMemLen : BitVec 16)
    (_p : Pbuf) : Pbuf :=
  { next := NULL, payload := payloadMem, totLen := length, len := length }

/-! ## `HAL_ETH_RxLinkCallback` -/

/-- The handle's frame under construction: `*pStart` and `*pEnd`, with the pbufs. -/
structure FrameState where
  mem : Mem
  pStart : Addr
  pEnd : Addr

/-- The loop at the end of `HAL_ETH_RxLinkCallback`: add `length` to the `tot_len` of every pbuf
from `p` on. It gives `none` when `fuel` runs out before the chain ends. -/
def addTotLen (length : BitVec 16) : ℕ → Mem → Addr → Option Mem
  | 0, _, _ => none
  | fuel + 1, m, p =>
      if p = NULL then some m
      else
        let m := m.setPbuf p fun b => { b with totLen := b.totLen + length }
        addTotLen length fuel m (m.next p)

/-- `HAL_ETH_RxLinkCallback`. -/
def halEthRxLinkCallback (pool : RxPool) (fuel : ℕ) (buff : Addr) (length : BitVec 16)
    (s : FrameState) : Option FrameState :=
  -- get the struct pbuf from the buff address
  let p := buff - pool.offsetofBuff
  let m := s.mem.setPbuf p fun b => { b with next := NULL, totLen := 0, len := length }
  let (m, pStart) :=
    if s.pStart = NULL then (m, p)
    else (m.setPbuf s.pEnd fun b => { b with next := p }, s.pStart)
  (addTotLen length fuel m pStart).map fun m => { mem := m, pStart := pStart, pEnd := p }

/-- The memory after the loop: `length` added to the `tot_len` of every pbuf of `l`. -/
def Mem.addLen (m : Mem) (length : BitVec 16) (l : List Addr) : Mem := fun a =>
  if a ∈ l then { m a with pbuf := { (m a).pbuf with totLen := (m a).pbuf.totLen + length } }
  else m a

@[simp] theorem Mem.addLen_next (m : Mem) (length : BitVec 16) (l : List Addr) :
    (m.addLen length l).next = m.next := by
  funext a
  simp only [Mem.next, Mem.addLen]
  split <;> rfl

/-- **The loop.** On a chain the loop terminates, with any fuel above its length, and has added
`length` to exactly the chain's pbufs. -/
theorem addTotLen_eq (length : BitVec 16) {m : Mem} {p : Addr} {l : List Addr}
    (h : MemChain m p l) {fuel : ℕ} (hfuel : l.length < fuel) :
    addTotLen length fuel m p = some (m.addLen length l) := by
  induction l generalizing m p fuel with
  | nil =>
      obtain ⟨f, rfl⟩ : ∃ f, fuel = f + 1 := ⟨fuel - 1, by omega⟩
      have hp : p = NULL := h.eq_nil_iff.mp rfl
      simp only [addTotLen, if_pos hp, Option.some.injEq]
      funext a
      simp [Mem.addLen]
  | cons q l ih =>
      obtain ⟨f, rfl⟩ : ∃ f, fuel = f + 1 := ⟨fuel - 1, by omega⟩
      have hnd := h.nodup
      cases h with
      | cons hp ht =>
          simp only [addTotLen, if_neg hp]
          -- writing `tot_len` of the head leaves every link alone
          have hlink : (m.setPbuf q fun b => { b with totLen := b.totLen + length }).next
              = m.next := by
            funext a
            by_cases ha : a = q
            · subst ha
              simp [Mem.next]
            · simp [Mem.next, ha]
          have ht' : MemChain (m.setPbuf q fun b => { b with totLen := b.totLen + length })
              (m.next q) l := by
            rw [MemChain, hlink]
            exact ht
          rw [hlink, ih ht' (by simpa using hfuel), Option.some.injEq]
          funext a
          have hq : q ∉ l := (List.nodup_cons.mp hnd).1
          by_cases ha : a = q
          · subst ha
            simp [Mem.addLen, hq]
          · simp [Mem.addLen, ha]

/-- More fuel never changes what the loop computes. -/
theorem addTotLen_mono {length : BitVec 16} {fuel fuel' : ℕ} {m m' : Mem} {p : Addr}
    (h : addTotLen length fuel m p = some m') (hle : fuel ≤ fuel') :
    addTotLen length fuel' m p = some m' := by
  induction fuel generalizing m p fuel' with
  | zero => simp [addTotLen] at h
  | succ fuel ih =>
      obtain ⟨f, rfl⟩ : ∃ f, fuel' = f + 1 := ⟨fuel' - 1, by omega⟩
      by_cases hp : p = NULL
      · simpa only [addTotLen, if_pos hp] using h
      · simp only [addTotLen, if_neg hp] at h ⊢
        exact ih h (by omega)

end Stm32Eth.Rx
