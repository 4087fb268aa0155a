import Stm32Eth.Lib.Transition
import Stm32Eth.Rx.Callbacks
import Mathlib.Algebra.BigOperators.Group.Multiset.Basic
import Mathlib.Algebra.Order.Group.Multiset

/-!
# The receive machine

Three parties share the receive buffers: the DMA, which fills the buffers of descriptors, the task
`ethif_in`, which runs `ethernetif_input` with `low_level_input`, `HAL_ETH_ReadData` and the
callbacks, and the `TCP/IP` thread, which releases accepted frames with `pbuf_free`. `Step` is
their interleaving, at the granularity of one callback for `ethif_in` and of one statement of
`pbuf_free_custom` for the `TCP/IP` thread. This allows more interleavings than the priorities of
the two tasks do.

`HAL_ETH_ReadData` is the driver library's. It appears as the calls it makes: it hands the buffer
of a filled descriptor to the link callback and detaches it, until the end of a frame; it calls the
allocate callback for descriptors without a buffer, until one call gives no buffer; it returns the
start of a finished frame and resets it. `LWIP_MEMPOOL_ALLOC` hands out a free element, or null
when `refuses` allows it. lwIP may write anything into free elements and into the pbufs of frames
it holds, save their free function.
-/

namespace Stm32Eth.Rx

/-- A receive descriptor: the attached buffer, null if none, and, once the DMA has filled it, the
number of bytes and whether it ends a frame. -/
structure RxDesc where
  buff : Addr
  filled : Option (BitVec 16 × Bool)

/-- Where the task `ethif_in` is. -/
inductive RxPc
  /-- about to call `low_level_input` -/
  | idle
  /-- in `HAL_ETH_ReadData`: whether it still refills descriptors, and whether a frame is ready -/
  | reading (refill ready : Bool)
  /-- about to call `s_netif.input` on a non-null frame -/
  | input (p : Addr)
  /-- in `pbuf_free` of a rejected frame, with these pbufs still to free -/
  | freeing (todo : List Addr)
  deriving DecidableEq

/-- Where the `TCP/IP` thread is in the release of a frame, with the pbufs still to free. -/
inductive TcpipPc
  /-- no release in progress -/
  | idle
  /-- in `pbuf_free`, about to call `pbuf_free_custom` on the first pbuf -/
  | freeing (todo : List Addr)
  /-- in `pbuf_free_custom`, after `LWIP_MEMPOOL_FREE` and before the test of `RxAllocStatus` -/
  | returned (todo : List Addr)
  /-- in `pbuf_free_custom`, after the test saw `RX_ALLOC_ERROR` and before the store -/
  | tested (todo : List Addr)
  deriving DecidableEq

/-- The pbufs the release in progress still has to free. -/
def TcpipPc.todo : TcpipPc → List Addr
  | .idle => []
  | .freeing todo => todo
  | .returned todo => todo
  | .tested todo => todo

/-- The state of the receive machine with `D` descriptors. `frames` are the frames the stack
accepted and has not begun to release, each as the list of its pbufs. -/
structure State (D : ℕ) where
  shared : Shared
  desc : Fin D → RxDesc
  pRxStart : Addr
  pRxEnd : Addr
  rx : RxPc
  frames : Multiset (List Addr)
  tcpip : TcpipPc

/-- The pbufs lwIP holds: those of accepted frames and of the release in progress. -/
def State.heldByStack {D : ℕ} (s : State D) : Multiset Addr :=
  (s.frames.map fun l : List Addr => (l : Multiset Addr)).sum + (s.tcpip.todo : Multiset Addr)

/-- The steps, by what happens. -/
inductive Event
  | dmaComplete
  | poll
  | link
  | refill
  | readDone
  | accept
  | reject
  | rxFree
  | lwipWrite
  | release
  | mempoolFree
  | testStatus
  | storeOk
  | released
  deriving DecidableEq, Repr

/-- The statements of `pbuf_free_custom` in the `TCP/IP` thread. -/
def Event.inFreeCustom : Event → Bool
  | .mempoolFree | .testStatus | .storeOk => true
  | _ => false

/-- The steps that return a frame to the pool: of the `TCP/IP` thread, and of `ethif_in` for a
rejected frame. -/
def Event.inRelease : Event → Bool
  | .reject | .rxFree | .release | .mempoolFree | .testStatus | .storeOk | .released => true
  | _ => false

theorem Event.inRelease_of_inFreeCustom {e : Event} (h : e.inFreeCustom) : e.inRelease := by
  cases e with
  | mempoolFree => rfl
  | testStatus => rfl
  | storeOk => rfl
  | _ => exact absurd h (by decide)

/-- What `LWIP_MEMPOOL_ALLOC` may return: a free element, or null when `refuses` allows it. -/
def Answers (refuses : Multiset Addr → Prop) (rxPool : Multiset Addr) (p : Addr) : Prop :=
  p ∈ rxPool ∨ p = NULL ∧ refuses rxPool

/-- The end of an iteration of the `do` loop of `ethernetif_input` up to `s_netif.input`: a null
frame ends the loop. -/
def afterInput (p : Addr) : RxPc := if p = NULL then .idle else .input p

section

variable {D : ℕ} (pool : RxPool) (pbufAllocedCustom : BitVec 16 → Addr → BitVec 16 → Pbuf → Pbuf)
  (refuses : Multiset Addr → Prop)

/-- The steps of the receive machine. -/
inductive Step : State D → Event → State D → Prop
  /-- The DMA fills the buffer of a descriptor. -/
  | dmaComplete {s : State D} (i : Fin D) (length : BitVec 16) (last : Bool)
      (attached : (s.desc i).buff ≠ NULL) (empty : (s.desc i).filled = none) :
      Step s .dmaComplete
        { s with
          desc := Function.update s.desc i { s.desc i with filled := some (length, last) } }
  /-- `low_level_input` sees `RX_ALLOC_OK` and calls `HAL_ETH_ReadData`. -/
  | pollRead {s : State D} (idle : s.rx = .idle) (ok : s.shared.rxAllocStatus = .rxAllocOk) :
      Step s .poll { s with rx := .reading true false }
  /-- `low_level_input` sees `RX_ALLOC_ERROR` and returns `NULL`. -/
  | pollSkip {s : State D} (idle : s.rx = .idle)
      (error : s.shared.rxAllocStatus = .rxAllocError) :
      Step s .poll { s with rx := afterInput NULL }
  /-- `HAL_ETH_ReadData` hands a filled buffer to the link callback and detaches it. -/
  | link {s : State D} {refill last : Bool} {length : BitVec 16} {f : FrameState} (i : Fin D)
      (fuel : ℕ) (reading : s.rx = .reading refill false) (attached : (s.desc i).buff ≠ NULL)
      (filled : (s.desc i).filled = some (length, last))
      (call : halEthRxLinkCallback pool fuel (s.desc i).buff length
        ⟨s.shared.mem, s.pRxStart, s.pRxEnd⟩ = some f) :
      Step s .link
        { s with
          shared := { s.shared with mem := f.mem }
          pRxStart := f.pStart
          pRxEnd := f.pEnd
          desc := Function.update s.desc i { buff := NULL, filled := none }
          rx := .reading refill last }
  /-- `HAL_ETH_ReadData` gets a buffer for a descriptor without one. -/
  | refill {s : State D} {ready : Bool} {p buff : Addr} {shared : Shared} (i : Fin D)
      (reading : s.rx = .reading true ready) (detached : (s.desc i).buff = NULL)
      (answer : Answers refuses s.shared.rxPool p)
      (call : halEthRxAllocateCallback pool pbufAllocedCustom p s.shared = (buff, shared))
      (got : buff ≠ NULL) :
      Step s .refill
        { s with
          shared := shared
          desc := Function.update s.desc i { buff := buff, filled := none } }
  /-- `HAL_ETH_ReadData` gets no buffer and stops refilling. -/
  | refillNull {s : State D} {ready : Bool} {p buff : Addr} {shared : Shared} (i : Fin D)
      (reading : s.rx = .reading true ready) (detached : (s.desc i).buff = NULL)
      (answer : Answers refuses s.shared.rxPool p)
      (call : halEthRxAllocateCallback pool pbufAllocedCustom p s.shared = (buff, shared))
      (none : buff = NULL) :
      Step s .refill { s with shared := shared, rx := .reading false ready }
  /-- `HAL_ETH_ReadData` returns `HAL_OK` with the finished frame. -/
  | readOk {s : State D} {refill : Bool} (reading : s.rx = .reading refill true) :
      Step s .readDone { s with pRxStart := NULL, rx := afterInput s.pRxStart }
  /-- `HAL_ETH_ReadData` finds no complete frame, and `low_level_input` returns `NULL`. -/
  | readError {s : State D} {refill : Bool} (reading : s.rx = .reading refill false) :
      Step s .readDone { s with rx := afterInput NULL }
  /-- `s_netif.input` accepts the frame, which now belongs to the stack. -/
  | accept {s : State D} {p : Addr} {l : List Addr} (input : s.rx = .input p)
      (chain : MemChain s.shared.mem p l) :
      Step s .accept { s with frames := l ::ₘ s.frames, rx := .idle }
  /-- `s_netif.input` rejects the frame, and `ethernetif_input` calls `pbuf_free` on it. -/
  | reject {s : State D} {p : Addr} {l : List Addr} (input : s.rx = .input p)
      (chain : MemChain s.shared.mem p l) :
      Step s .reject { s with rx := .freeing l }
  /-- `pbuf_free` of a rejected frame frees the next pbuf, uninterrupted by the `TCP/IP` thread. -/
  | rxFree {s : State D} {p : Addr} {todo : List Addr} (freeing : s.rx = .freeing (p :: todo)) :
      Step s .rxFree { s with shared := callCustomFree p s.shared, rx := .freeing todo }
  /-- `pbuf_free` of a rejected frame returns; `p = NULL` ends the loop. -/
  | rxFreed {s : State D} (freeing : s.rx = .freeing []) :
      Step s .rxFree { s with rx := afterInput NULL }
  /-- lwIP writes into free elements of the pool and into the pbufs it holds. -/
  | lwipWrite {s : State D} (mem : Mem)
      (frame : ∀ a, a ∉ s.shared.rxPool → a ∉ s.heldByStack → mem a = s.shared.mem a)
      (keep : ∀ a ∈ s.heldByStack,
        (mem a).customFreeFunction = (s.shared.mem a).customFreeFunction) :
      Step s .lwipWrite { s with shared := { s.shared with mem := mem } }
  /-- The `TCP/IP` thread begins to release an accepted frame. -/
  | release {s : State D} {l : List Addr} {frames : Multiset (List Addr)}
      (accepted : s.frames = l ::ₘ frames) (idle : s.tcpip = .idle) :
      Step s .release { s with frames := frames, tcpip := .freeing l }
  /-- `pbuf_free_custom` in the `TCP/IP` thread: `LWIP_MEMPOOL_FREE`. -/
  | mempoolFree {s : State D} {p : Addr} {todo : List Addr}
      (freeing : s.tcpip = .freeing (p :: todo))
      (custom : (s.shared.mem p).customFreeFunction = some .pbufFreeCustom) :
      Step s .mempoolFree
        { s with shared := s.shared.mempoolFree p, tcpip := .returned todo }
  /-- `pbuf_free` in the `TCP/IP` thread on a pbuf without a free function. -/
  | noCustomFree {s : State D} {p : Addr} {todo : List Addr}
      (freeing : s.tcpip = .freeing (p :: todo))
      (custom : (s.shared.mem p).customFreeFunction = none) :
      Step s .mempoolFree { s with tcpip := .freeing todo }
  /-- `pbuf_free_custom` in the `TCP/IP` thread: the test sees `RX_ALLOC_ERROR`. -/
  | testError {s : State D} {todo : List Addr} (returned : s.tcpip = .returned todo)
      (error : s.shared.rxAllocStatus = .rxAllocError) :
      Step s .testStatus { s with tcpip := .tested todo }
  /-- `pbuf_free_custom` in the `TCP/IP` thread: the test sees `RX_ALLOC_OK`. -/
  | testOk {s : State D} {todo : List Addr} (returned : s.tcpip = .returned todo)
      (ok : s.shared.rxAllocStatus = .rxAllocOk) :
      Step s .testStatus { s with tcpip := .freeing todo }
  /-- `pbuf_free_custom` in the `TCP/IP` thread: `RxAllocStatus = RX_ALLOC_OK`. -/
  | storeOk {s : State D} {todo : List Addr} (tested : s.tcpip = .tested todo) :
      Step s .storeOk
        { s with
          shared := { s.shared with rxAllocStatus := .rxAllocOk }
          tcpip := .freeing todo }
  /-- `pbuf_free` in the `TCP/IP` thread returns. -/
  | released {s : State D} (freeing : s.tcpip = .freeing []) :
      Step s .released { s with tcpip := .idle }

/-- The receive machine, from the full pool: no descriptor has a buffer, no frame is under
construction, and the pbufs and `pRxEnd` hold anything. -/
def system : Transition.System (State D) Event where
  init s := s.shared.rxPool = pool.elems.val ∧ s.shared.rxAllocStatus = .rxAllocOk ∧
    (∀ i, s.desc i = { buff := NULL, filled := none }) ∧ s.pRxStart = NULL ∧ s.rx = .idle ∧
    s.frames = 0 ∧ s.tcpip = .idle
  step := Step pool pbufAllocedCustom refuses

end

/-- The start of the receive machine with the pbufs `mem`. -/
def State.start {D : ℕ} (pool : RxPool) (mem : Mem) : State D where
  shared := { rxPool := pool.elems.val, rxAllocStatus := .rxAllocOk, mem := mem }
  desc _ := { buff := NULL, filled := none }
  pRxStart := NULL
  pRxEnd := NULL
  rx := .idle
  frames := 0
  tcpip := .idle

theorem State.start_init {D : ℕ} (pool : RxPool)
    (pbufAllocedCustom : BitVec 16 → Addr → BitVec 16 → Pbuf → Pbuf)
    (refuses : Multiset Addr → Prop) (mem : Mem) :
    (system pool pbufAllocedCustom refuses).init (State.start pool mem : State D) :=
  ⟨rfl, rfl, fun _ => rfl, rfl, rfl, rfl, rfl⟩

/-- Run to its end without interruption, `pbuf_free_custom` in the `TCP/IP` thread is
`pbufFreeCustom`. -/
theorem run_pbufFreeCustom {D : ℕ} (pool : RxPool)
    (pbufAllocedCustom : BitVec 16 → Addr → BitVec 16 → Pbuf → Pbuf)
    (refuses : Multiset Addr → Prop) {s : State D} {p : Addr} {todo : List Addr}
    (hfreeing : s.tcpip = .freeing (p :: todo))
    (hcustom : (s.shared.mem p).customFreeFunction = some .pbufFreeCustom) :
    ∃ es, (∀ e ∈ es, e.inFreeCustom) ∧ (system pool pbufAllocedCustom refuses).Run s es
      { s with shared := pbufFreeCustom p s.shared, tcpip := .freeing todo } := by
  cases hstatus : s.shared.rxAllocStatus with
  | rxAllocOk =>
      have hsignal : pbufFreeCustom p s.shared = s.shared.mempoolFree p := by
        simp [pbufFreeCustom, Shared.signal, Shared.mempoolFree, hstatus]
      rw [hsignal]
      exact ⟨[.mempoolFree, .testStatus], by simp [Event.inFreeCustom],
        .cons (.mempoolFree hfreeing hcustom) (.single (.testOk rfl hstatus))⟩
  | rxAllocError =>
      have hsignal : pbufFreeCustom p s.shared
          = { s.shared.mempoolFree p with rxAllocStatus := .rxAllocOk } := by
        simp [pbufFreeCustom, Shared.signal, Shared.mempoolFree, hstatus]
      rw [hsignal]
      exact ⟨[.mempoolFree, .testStatus, .storeOk], by simp [Event.inFreeCustom],
        .cons (.mempoolFree hfreeing hcustom)
          (.cons (.testError rfl hstatus) (.single (.storeOk rfl)))⟩

end Stm32Eth.Rx
