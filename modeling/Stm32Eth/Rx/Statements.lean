import Stm32Eth.Rx.Wakeup

/-!
# The receive path, statement by statement

The receive machine runs a callback of `ethif_in` in one step. Here `ethif_in` runs the statements
of `HAL_ETH_RxAllocateCallback`, `HAL_ETH_RxLinkCallback` and `pbuf_free_custom` one at a time, the
DMA works all the while, and a parameter says when the `TCP/IP` thread may run.

`main.c` gives `ethif_in` the priority 3 and `lwipopts.h` the thread the priority 1, so the thread
runs only while `ethif_in` is in `vTaskDelay` (`Fine.Delayed`). Then the callbacks are atomic: the
statements refine the receive machine, and what holds of its reachable states holds whenever the
thread runs (`statements_refine`).
-/

namespace Stm32Eth.Rx

open Linked
open Transition

variable {D : ℕ} {pool : RxPool}
  {pbufAllocedCustom : BitVec 16 → Addr → BitVec 16 → Pbuf → Pbuf} {refuses : Multiset Addr → Prop}

/-! ## The statements -/

/-- The next statement of `HAL_ETH_RxAllocateCallback`. -/
inductive AllocPc
  /-- `p = LWIP_MEMPOOL_ALLOC(RX_POOL)` -/
  | mempoolAlloc
  /-- `p->custom_free_function = pbuf_free_custom` -/
  | setCustomFree (p : Addr)
  /-- `pbuf_alloced_custom(...)` -/
  | allocedCustom (p : Addr)
  /-- `RxAllocStatus = RX_ALLOC_ERROR` -/
  | storeError
  /-- the return, with `*buff` -/
  | allocated (buff : Addr)
  deriving DecidableEq

/-- The next statement of `HAL_ETH_RxLinkCallback`. -/
inductive LinkPc
  /-- `p->next = NULL` -/
  | setNext
  /-- `p->tot_len = 0` -/
  | setTotLen
  /-- `p->len = Length` -/
  | setLen
  /-- `*ppStart = p` or `(*ppEnd)->next = p` -/
  | chain
  /-- `*ppEnd = p` -/
  | setEnd
  /-- the loop, before the test of its variable -/
  | loop (p : Addr)
  /-- the return -/
  | linked
  deriving DecidableEq

/-- The next statement of `pbuf_free_custom`. -/
inductive FreePc
  /-- `LWIP_MEMPOOL_FREE(RX_POOL, custom_pbuf)` -/
  | mempoolFree
  /-- `RxAllocStatus == RX_ALLOC_ERROR` -/
  | testStatus
  /-- `RxAllocStatus = RX_ALLOC_OK` -/
  | storeOk
  /-- the return -/
  | freed
  deriving DecidableEq

/-- A statement of `HAL_ETH_RxLinkCallback`. -/
def LinkPc.exec (pool : RxPool) (buff : Addr) (length : BitVec 16) :
    LinkPc → FrameState → LinkPc × FrameState
  | .setNext, s =>
      (.setTotLen, { s with
        mem := s.mem.setPbuf (buff - pool.offsetofBuff) fun b => { b with next := NULL } })
  | .setTotLen, s =>
      (.setLen, { s with
        mem := s.mem.setPbuf (buff - pool.offsetofBuff) fun b => { b with totLen := 0 } })
  | .setLen, s =>
      (.chain, { s with
        mem := s.mem.setPbuf (buff - pool.offsetofBuff) fun b => { b with len := length } })
  | .chain, s =>
      (.setEnd,
        if s.pStart = NULL then { s with pStart := buff - pool.offsetofBuff }
        else { s with
          mem := s.mem.setPbuf s.pEnd fun b => { b with next := buff - pool.offsetofBuff } })
  | .setEnd, s => (.loop s.pStart, { s with pEnd := buff - pool.offsetofBuff })
  | .loop p, s =>
      if p = NULL then (.linked, s)
      else
        let m := s.mem.setPbuf p fun b => { b with totLen := b.totLen + length }
        (.loop (m.next p), { s with mem := m })
  | .linked, s => (.linked, s)

/-! ## The machine -/

/-- Where `ethif_in` is inside a function of `ethif.c`: in the allocate callback or the link
callback for a descriptor, or in `pbuf_free_custom`. -/
inductive Code (D : ℕ)
  | alloc (i : Fin D) (pc : AllocPc)
  | link (i : Fin D) (pc : LinkPc)
  | free (pc : FreePc)
  deriving DecidableEq

/-- The step of the receive machine that stands for the whole call. -/
def Code.event : Code D → Event
  | .alloc _ _ => .refill
  | .link _ _ => .link
  | .free _ => .rxFree

/-- The state of the receive machine, where `ethif_in` is inside a function, and whether it is in
`vTaskDelay`. -/
structure Fine (D : ℕ) where
  state : State D
  code : Option (Code D)
  delayed : Bool

/-- The `TCP/IP` thread runs at a lower priority than `ethif_in`. -/
def Fine.Delayed (s : Fine D) : Prop := s.delayed = true

/-- The handle's frame under construction. -/
def State.frame (s : State D) : FrameState := ⟨s.shared.mem, s.pRxStart, s.pRxEnd⟩

/-- The handle has another frame under construction. -/
def State.withFrame (s : State D) (f : FrameState) : State D :=
  { s with shared := { s.shared with mem := f.mem }, pRxStart := f.pStart, pRxEnd := f.pEnd }

/-- The steps of the `TCP/IP` thread. -/
def Event.ofThread : Event → Bool
  | .release | .mempoolFree | .testStatus | .storeOk | .released | .lwipWrite => true
  | _ => false

/-- The steps of `ethif_in` outside the functions of `ethif.c`, `pbuf_free` apart. -/
def Event.ofDriver : Event → Bool
  | .poll | .readDone | .accept | .reject => true
  | _ => false

/-- The steps, by what runs. -/
inductive FineEvent
  | dma
  | thread
  | driver
  | call
  | statement
  | wake
  deriving DecidableEq, Repr

section

variable (pool : RxPool) (pbufAllocedCustom : BitVec 16 → Addr → BitVec 16 → Pbuf → Pbuf)
  (refuses : Multiset Addr → Prop) (runs : Fine D → Prop)

/-- The steps of the machine. `runs` says when the `TCP/IP` thread may run. -/
inductive FineStep : Fine D → FineEvent → Fine D → Prop
  /-- The DMA fills a buffer. -/
  | dma {s : Fine D} {t : State D}
      (step : Step pool pbufAllocedCustom refuses s.state .dmaComplete t) :
      FineStep s .dma { s with state := t }
  /-- A statement of the `TCP/IP` thread. -/
  | thread {s : Fine D} {t : State D} {e : Event} (ofThread : e.ofThread) (run : runs s)
      (step : Step pool pbufAllocedCustom refuses s.state e t) :
      FineStep s .thread { s with state := t }
  /-- `ethif_in` polls, gets the result of `HAL_ETH_ReadData`, or calls `s_netif.input`. Without a
  frame the `do` loop ends, and `ethif_in` calls `vTaskDelay`. -/
  | driver {s : Fine D} {t : State D} {e : Event} (ofDriver : e.ofDriver) (outside : s.code = none)
      (awake : s.delayed = false) (step : Step pool pbufAllocedCustom refuses s.state e t) :
      FineStep s .driver
        { s with state := t, delayed := decide (e ≠ .accept ∧ t.rx = .idle) }
  /-- `vTaskDelay` returns. -/
  | wake {s : Fine D} (delayed : s.delayed = true) : FineStep s .wake { s with delayed := false }
  /-- `HAL_ETH_ReadData` calls the allocate callback for a descriptor without a buffer. -/
  | callAlloc {s : Fine D} {ready : Bool} (i : Fin D) (outside : s.code = none)
      (awake : s.delayed = false) (reading : s.state.rx = .reading true ready)
      (detached : (s.state.desc i).buff = NULL) :
      FineStep s .call { s with code := some (.alloc i .mempoolAlloc) }
  | mempoolAlloc {s : Fine D} {i : Fin D} {p : Addr} (code : s.code = some (.alloc i .mempoolAlloc))
      (answer : Answers refuses s.state.shared.rxPool p) (got : p ≠ NULL) :
      FineStep s .statement
        { s with
          state := { s.state with
            shared := { s.state.shared with rxPool := s.state.shared.rxPool.erase p } }
          code := some (.alloc i (.setCustomFree p)) }
  | mempoolAllocNull {s : Fine D} {i : Fin D} (code : s.code = some (.alloc i .mempoolAlloc))
      (answer : Answers refuses s.state.shared.rxPool NULL) :
      FineStep s .statement { s with code := some (.alloc i .storeError) }
  | setCustomFree {s : Fine D} {i : Fin D} {p : Addr}
      (code : s.code = some (.alloc i (.setCustomFree p))) :
      FineStep s .statement
        { s with
          state := { s.state with
            shared := { s.state.shared with
              mem := Function.update s.state.shared.mem p
                { s.state.shared.mem p with customFreeFunction := some .pbufFreeCustom } } }
          code := some (.alloc i (.allocedCustom p)) }
  | allocedCustom {s : Fine D} {i : Fin D} {p : Addr}
      (code : s.code = some (.alloc i (.allocedCustom p))) :
      FineStep s .statement
        { s with
          state := { s.state with
            shared := { s.state.shared with
              mem := s.state.shared.mem.setPbuf p
                (pbufAllocedCustom 0 (p + pool.offsetofBuff) ethRxBufSize) } }
          code := some (.alloc i (.allocated (p + pool.offsetofBuff))) }
  | storeError {s : Fine D} {i : Fin D} (code : s.code = some (.alloc i .storeError)) :
      FineStep s .statement
        { s with
          state := { s.state with shared := { s.state.shared with rxAllocStatus := .rxAllocError } }
          code := some (.alloc i (.allocated NULL)) }
  /-- `HAL_ETH_ReadData` attaches the buffer it got. -/
  | allocated {s : Fine D} {i : Fin D} {buff : Addr}
      (code : s.code = some (.alloc i (.allocated buff))) (got : buff ≠ NULL) :
      FineStep s .statement
        { s with
          state := { s.state with
            desc := Function.update s.state.desc i { buff := buff, filled := none } }
          code := none }
  /-- `HAL_ETH_ReadData` got no buffer and stops refilling. -/
  | allocatedNull {s : Fine D} {i : Fin D} {ready : Bool}
      (code : s.code = some (.alloc i (.allocated NULL)))
      (reading : s.state.rx = .reading true ready) :
      FineStep s .statement
        { s with state := { s.state with rx := .reading false ready }, code := none }
  /-- `HAL_ETH_ReadData` calls the link callback for a filled descriptor. -/
  | callLink {s : Fine D} {refill last : Bool} {length : BitVec 16} (i : Fin D)
      (outside : s.code = none) (awake : s.delayed = false)
      (reading : s.state.rx = .reading refill false) (attached : (s.state.desc i).buff ≠ NULL)
      (filled : (s.state.desc i).filled = some (length, last)) :
      FineStep s .call { s with code := some (.link i .setNext) }
  /-- A statement of the link callback. -/
  | link {s : Fine D} {last : Bool} {length : BitVec 16} {i : Fin D} {pc : LinkPc}
      (code : s.code = some (.link i pc)) (running : pc ≠ .linked)
      (filled : (s.state.desc i).filled = some (length, last)) :
      FineStep s .statement
        { s with
          state := s.state.withFrame (pc.exec pool (s.state.desc i).buff length s.state.frame).2
          code := some (.link i (pc.exec pool (s.state.desc i).buff length s.state.frame).1) }
  /-- `HAL_ETH_ReadData` detaches the buffer it has handed over. -/
  | linked {s : Fine D} {refill last : Bool} {length : BitVec 16} {i : Fin D}
      (code : s.code = some (.link i .linked)) (reading : s.state.rx = .reading refill false)
      (filled : (s.state.desc i).filled = some (length, last)) :
      FineStep s .statement
        { s with
          state := { s.state with
            desc := Function.update s.state.desc i { buff := NULL, filled := none }
            rx := .reading refill last }
          code := none }
  /-- `pbuf_free` of a rejected frame calls `pbuf_free_custom`. -/
  | callFree {s : Fine D} {p : Addr} {todo : List Addr} (outside : s.code = none)
      (awake : s.delayed = false) (freeing : s.state.rx = .freeing (p :: todo))
      (custom : (s.state.shared.mem p).customFreeFunction = some .pbufFreeCustom) :
      FineStep s .call { s with code := some (.free .mempoolFree) }
  | mempoolFree {s : Fine D} {p : Addr} {todo : List Addr}
      (code : s.code = some (.free .mempoolFree)) (freeing : s.state.rx = .freeing (p :: todo)) :
      FineStep s .statement
        { s with
          state := { s.state with shared := s.state.shared.mempoolFree p }
          code := some (.free .testStatus) }
  | testStatus {s : Fine D} (code : s.code = some (.free .testStatus)) :
      FineStep s .statement
        { s with
          code := some (.free (if s.state.shared.rxAllocStatus = .rxAllocError then .storeOk
            else .freed)) }
  | storeOk {s : Fine D} (code : s.code = some (.free .storeOk)) :
      FineStep s .statement
        { s with
          state := { s.state with shared := { s.state.shared with rxAllocStatus := .rxAllocOk } }
          code := some (.free .freed) }
  | freed {s : Fine D} {p : Addr} {todo : List Addr} (code : s.code = some (.free .freed))
      (freeing : s.state.rx = .freeing (p :: todo)) :
      FineStep s .statement
        { s with state := { s.state with rx := .freeing todo }, code := none }
  /-- `pbuf_free` on a pbuf without a free function. -/
  | noCustomFree {s : Fine D} {p : Addr} {todo : List Addr} (outside : s.code = none)
      (awake : s.delayed = false) (freeing : s.state.rx = .freeing (p :: todo))
      (custom : (s.state.shared.mem p).customFreeFunction = none) :
      FineStep s .call { s with state := { s.state with rx := .freeing todo } }
  /-- `pbuf_free` of a rejected frame returns; `p = NULL` ends the loop. -/
  | allFreed {s : Fine D} (outside : s.code = none) (awake : s.delayed = false)
      (freeing : s.state.rx = .freeing []) :
      FineStep s .call { s with state := { s.state with rx := afterInput NULL }, delayed := true }

/-- The machine, from a start of the receive machine; `ethif_in` begins with `vTaskDelay`. -/
def fineSystem : System (Fine D) FineEvent where
  init s := (system pool pbufAllocedCustom refuses).init s.state ∧ s.code = none ∧ s.delayed = true
  step := FineStep pool pbufAllocedCustom refuses runs

end

/-! ## The allocate callback -/

/-- The allocate callback gets an element and runs to its return. -/
theorem reachable_allocated {runs : Fine D → Prop} {s : Fine D} {ready : Bool} {p : Addr}
    (i : Fin D) (h : (fineSystem pool pbufAllocedCustom refuses runs).Reachable s)
    (outside : s.code = none) (awake : s.delayed = false)
    (reading : s.state.rx = .reading true ready) (detached : (s.state.desc i).buff = NULL)
    (answer : Answers refuses s.state.shared.rxPool p) (ne : p ≠ NULL)
    (got : p + pool.offsetofBuff ≠ NULL) :
    (fineSystem pool pbufAllocedCustom refuses runs).Reachable
      { s with
        state := { s.state with
          shared := (halEthRxAllocateCallback pool pbufAllocedCustom p s.state.shared).2
          desc := Function.update s.state.desc i
            { buff := p + pool.offsetofBuff, filled := none } }
        code := none } := by
  have halloc := (h.step (.callAlloc i outside awake reading detached)).step
    (.mempoolAlloc rfl answer ne)
  have hinit := (halloc.step (.setCustomFree rfl)).step (.allocedCustom rfl)
  rw [halEthRxAllocateCallback_of_ne _ ne]
  simpa [Mem.setPbuf] using hinit.step (.allocated rfl got)

/-! ## The link callback -/

/-- Two writes to one pbuf. -/
theorem Mem.setPbuf_setPbuf (m : Mem) (a : Addr) (f g : Pbuf → Pbuf) :
    (m.setPbuf a f).setPbuf a g = m.setPbuf a fun b => g (f b) := by
  rw [Mem.setPbuf, Mem.setPbuf_self, Mem.setPbuf, Function.update_idem, Mem.setPbuf]

/-- The next `n` statements of the link callback. -/
def linkStatements (pool : RxPool) (buff : Addr) (length : BitVec 16) (n : ℕ)
    (x : LinkPc × FrameState) : LinkPc × FrameState :=
  (fun x => x.1.exec pool buff length x.2)^[n] x

section

variable {buff : Addr} {length : BitVec 16}

/-- One statement, and then the others. -/
theorem linkStatements_succ (n : ℕ) (x : LinkPc × FrameState) :
    linkStatements pool buff length (n + 1) x
      = linkStatements pool buff length n (x.1.exec pool buff length x.2) :=
  Function.iterate_succ_apply _ n x

/-- The link callback has returned. -/
theorem linkStatements_linked (n : ℕ) (s : FrameState) :
    linkStatements pool buff length n (.linked, s) = (.linked, s) :=
  Function.iterate_fixed rfl n

/-- Statements after statements. -/
theorem linkStatements_add (m n : ℕ) (x : LinkPc × FrameState) :
    linkStatements pool buff length (m + n) x
      = linkStatements pool buff length m (linkStatements pool buff length n x) :=
  Function.iterate_add_apply _ m n x

/-- The statements before the loop do what the callback does before it. -/
theorem exists_linkStatements_loop (pool : RxPool) (buff : Addr) (length : BitVec 16)
    (s : FrameState) : ∃ t : FrameState,
      linkStatements pool buff length 5 (.setNext, s) = (.loop t.pStart, t) ∧
      ∀ fuel, halEthRxLinkCallback pool fuel buff length s
        = (addTotLen length fuel t.mem t.pStart).map fun m => { t with mem := m } := by
  refine ⟨(linkStatements pool buff length 5 (.setNext, s)).2, rfl, fun fuel => ?_⟩
  by_cases hs : s.pStart = NULL
  · rw [halEthRxLinkCallback, if_pos hs]
    simp only [linkStatements_succ, LinkPc.exec, if_pos hs, Mem.setPbuf_setPbuf]
    rfl
  · rw [halEthRxLinkCallback, if_neg hs]
    simp only [linkStatements_succ, LinkPc.exec, if_neg hs, Mem.setPbuf_setPbuf]
    rfl

/-- The statements of the loop are the loop. -/
theorem linkStatements_loop {n : ℕ} {s t : FrameState} {q : Addr} :
    linkStatements pool buff length n (.loop q, s) = (.linked, t) ↔
      (addTotLen length n s.mem q).map (fun m => { s with mem := m }) = some t := by
  induction n generalizing q s with
  | zero => simp [linkStatements, addTotLen]
  | succ n ih =>
      rw [linkStatements_succ, LinkPc.exec]
      by_cases hq : q = NULL
      · rw [if_pos hq, linkStatements_linked, addTotLen, if_pos hq, Option.map_some,
          Option.some.injEq, Prod.mk.injEq]
        exact and_iff_right rfl
      · rw [if_neg hq, addTotLen, if_neg hq]
        exact ih

/-- **The statements of the link callback are the callback.** -/
theorem linkStatements_iff {n : ℕ} {s t : FrameState} :
    linkStatements pool buff length (n + 5) (.setNext, s) = (.linked, t) ↔
      halEthRxLinkCallback pool n buff length s = some t := by
  obtain ⟨u, hu, hcall⟩ := exists_linkStatements_loop pool buff length s
  rw [linkStatements_add, hu, hcall]
  exact linkStatements_loop

/-- However many statements it took. -/
theorem call_of_linkStatements {n : ℕ} {s t : FrameState}
    (h : linkStatements pool buff length n (.setNext, s) = (.linked, t)) :
    halEthRxLinkCallback pool n buff length s = some t := by
  -- no statement follows the return
  rw [← linkStatements_iff, add_comm, linkStatements_add, h, linkStatements_linked]

/-- The link callback runs to its return, in any system that has its statements. -/
theorem run_linked {runs : Fine D → Prop} {M : System (Fine D) FineEvent} {u : Fine D}
    {es : List FineEvent} {s : State D} {d : Bool} {i : Fin D} {last : Bool} {f : FrameState}
    {pc : LinkPc} {n : ℕ} (hcall : M.Run u es ⟨s, some (.link i pc), d⟩)
    (hM : ∀ {s t : Fine D}, s.delayed = d →
      FineStep pool pbufAllocedCustom refuses runs s .statement t → M.step s .statement t)
    (hfilled : (s.desc i).filled = some (length, last))
    (hrun : linkStatements pool (s.desc i).buff length n (pc, s.frame) = (.linked, f)) :
    ∃ fs, M.Run u fs ⟨s.withFrame f, some (.link i .linked), d⟩ := by
  induction n generalizing es s pc with
  | zero =>
      obtain ⟨rfl, rfl⟩ := Prod.mk.inj hrun
      exact ⟨es, hcall⟩
  | succ n ih =>
      by_cases hpc : pc = .linked
      · rw [hpc, linkStatements_linked] at hrun
        obtain rfl := (Prod.mk.inj hrun).2
        exact ⟨es, hpc ▸ hcall⟩
      · rw [linkStatements_succ] at hrun
        have hstep := hcall.step (hM rfl (.link rfl hpc hfilled))
        exact @ih _ (s.withFrame _) _ hstep hfilled hrun

/-- In the machine the link callback comes to its return. -/
theorem Inv.exists_linkStatements {s : State D} (h : Inv pool s) {i : Fin D} (length : BitVec 16)
    (hattached : (s.desc i).buff ≠ NULL) :
    ∃ t, linkStatements pool (s.desc i).buff length (s.building.length + 7) (.setNext, s.frame)
      = (.linked, t) := by
  obtain ⟨t, hcall⟩ := h.exists_linkCallback length hattached
  exact ⟨t, linkStatements_iff.mpr hcall⟩

end

/-! ## Where a callback has got to -/

section

variable (pool : RxPool) (pbufAllocedCustom : BitVec 16 → Addr → BitVec 16 → Pbuf → Pbuf)
  (refuses : Multiset Addr → Prop)

/-- What the allocate callback has made of `s`. -/
inductive AllocPc.Done (s : Shared) : AllocPc → Shared → Prop
  | mempoolAlloc : Done s .mempoolAlloc s
  | setCustomFree {p : Addr} (answer : Answers refuses s.rxPool p) (got : p ≠ NULL) :
      Done s (.setCustomFree p) { s with rxPool := s.rxPool.erase p }
  | allocedCustom {p : Addr} (answer : Answers refuses s.rxPool p) (got : p ≠ NULL) :
      Done s (.allocedCustom p)
        { s with
          rxPool := s.rxPool.erase p
          mem := Function.update s.mem p
            { s.mem p with customFreeFunction := some .pbufFreeCustom } }
  | storeError (answer : Answers refuses s.rxPool NULL) : Done s .storeError s
  | allocated {p buff : Addr} {t : Shared} (answer : Answers refuses s.rxPool p)
      (call : halEthRxAllocateCallback pool pbufAllocedCustom p s = (buff, t)) :
      Done s (.allocated buff) t

/-- What `pbuf_free_custom` has made of `s`. -/
inductive FreePc.Done (p : Addr) (s : Shared) : FreePc → Shared → Prop
  | mempoolFree : Done p s .mempoolFree s
  | testStatus : Done p s .testStatus (s.mempoolFree p)
  | storeOk (error : s.rxAllocStatus = .rxAllocError) : Done p s .storeOk (s.mempoolFree p)
  | freed {t : Shared} (call : pbufFreeCustom p s = t) : Done p s .freed t

/-- `Within c code s`: `ethif_in` has been called in the state `c` of the receive machine, and its
statements so far have led to `s`. -/
inductive Within (c : State D) : Option (Code D) → State D → Prop
  | outside : Within c none c
  | alloc {i : Fin D} {pc : AllocPc} {ready : Bool} {shared : Shared}
      (reading : c.rx = .reading true ready) (detached : (c.desc i).buff = NULL)
      (done : pc.Done pool pbufAllocedCustom refuses c.shared shared) :
      Within c (some (.alloc i pc)) { c with shared := shared }
  | link {i : Fin D} {pc : LinkPc} {refill last : Bool} {length : BitVec 16} {n : ℕ}
      {f : FrameState} (reading : c.rx = .reading refill false) (attached : (c.desc i).buff ≠ NULL)
      (filled : (c.desc i).filled = some (length, last))
      (done : linkStatements pool (c.desc i).buff length n (.setNext, c.frame) = (pc, f)) :
      Within c (some (.link i pc)) (c.withFrame f)
  | free {pc : FreePc} {p : Addr} {todo : List Addr} {shared : Shared}
      (freeing : c.rx = .freeing (p :: todo))
      (custom : (c.shared.mem p).customFreeFunction = some .pbufFreeCustom)
      (done : pc.Done p c.shared shared) : Within c (some (.free pc)) { c with shared := shared }

end

namespace Within

variable {c s t : State D} {i : Fin D}

theorem of_none (h : Within pool pbufAllocedCustom refuses c none s) : s = c := by
  cases h with
  | outside => rfl

theorem of_alloc {pc : AllocPc}
    (h : Within pool pbufAllocedCustom refuses c (some (.alloc i pc)) s) :
    ∃ ready shared, c.rx = .reading true ready ∧ (c.desc i).buff = NULL ∧
      pc.Done pool pbufAllocedCustom refuses c.shared shared ∧ s = { c with shared := shared } := by
  cases h with
  | alloc reading detached done => exact ⟨_, _, reading, detached, done, rfl⟩

theorem of_link {pc : LinkPc} (h : Within pool pbufAllocedCustom refuses c (some (.link i pc)) s) :
    ∃ refill length last n f, c.rx = .reading refill false ∧ (c.desc i).buff ≠ NULL ∧
      (c.desc i).filled = some (length, last) ∧
      linkStatements pool (c.desc i).buff length n (.setNext, c.frame) = (pc, f) ∧
      s = c.withFrame f := by
  cases h with
  | link reading attached filled done => exact ⟨_, _, _, _, _, reading, attached, filled, done, rfl⟩

theorem of_free {pc : FreePc} (h : Within pool pbufAllocedCustom refuses c (some (.free pc)) s) :
    ∃ p todo shared, c.rx = .freeing (p :: todo) ∧
      (c.shared.mem p).customFreeFunction = some .pbufFreeCustom ∧ pc.Done p c.shared shared ∧
      s = { c with shared := shared } := by
  cases h with
  | free freeing custom done => exact ⟨_, _, _, freeing, custom, done, rfl⟩

/-- A callback does not touch what the receive machine has besides the memory it works on. -/
theorem agree {code : Option (Code D)} (h : Within pool pbufAllocedCustom refuses c code s) :
    s.desc = c.desc ∧ s.rx = c.rx ∧ s.frames = c.frames ∧ s.tcpip = c.tcpip := by
  cases h with
  | outside => exact ⟨rfl, rfl, rfl, rfl⟩
  | alloc reading detached done => exact ⟨rfl, rfl, rfl, rfl⟩
  | link reading attached filled done => exact ⟨rfl, rfl, rfl, rfl⟩
  | free freeing custom done => exact ⟨rfl, rfl, rfl, rfl⟩

/-- The DMA fills a buffer while a callback runs. -/
theorem dma {code : Option (Code D)} (h : Within pool pbufAllocedCustom refuses c code s)
    (hs : Step pool pbufAllocedCustom refuses s .dmaComplete t) :
    ∃ c', Step pool pbufAllocedCustom refuses c .dmaComplete c' ∧
      Within pool pbufAllocedCustom refuses c' code t := by
  cases h with
  | outside => exact ⟨t, hs, .outside⟩
  | @alloc i pc ready shared reading detached done =>
      cases hs with
      | dmaComplete j length last attached empty =>
          -- the descriptor the callback is called for has no buffer
          have hij : i ≠ j := by
            rintro rfl
            exact attached detached
          have hdesc := Function.update_of_ne hij { c.desc j with filled := some (length, last) }
            c.desc
          rw [← hdesc] at detached
          exact ⟨_, .dmaComplete j length last attached empty, .alloc reading detached done⟩
  | @link i pc refill last length n f reading attached filled done =>
      cases hs with
      | dmaComplete j length' last' attached' empty =>
          -- the descriptor the callback is called for is full already
          have hij : i ≠ j := by
            rintro rfl
            exact absurd (filled.symm.trans empty) (by simp)
          have hdesc := Function.update_of_ne hij { c.desc j with filled := some (length', last') }
            c.desc
          rw [← hdesc] at attached filled done
          exact ⟨_, .dmaComplete j length' last' attached' empty,
            .link reading attached filled done⟩
  | free freeing custom done =>
      cases hs with
      | dmaComplete j length last attached empty =>
          exact ⟨_, .dmaComplete j length last attached empty, .free freeing custom done⟩

/-- A statement of a function goes on with the call, or it returns, which is the step of the receive
machine that stands for the whole call. -/
theorem statement {s t : Fine D} {code : Code D} (hcode : s.code = some code)
    (h : Within pool pbufAllocedCustom refuses c (some code) s.state) {runs : Fine D → Prop}
    (hs : FineStep pool pbufAllocedCustom refuses runs s .statement t) :
    (∃ code', t.code = some code' ∧
        Within pool pbufAllocedCustom refuses c (some code') t.state) ∨
      t.code = none ∧ Step pool pbufAllocedCustom refuses c code.event t.state := by
  cases hs with
  | mempoolAlloc here answer got =>
      obtain rfl := Option.some.inj (hcode.symm.trans here)
      obtain ⟨ready, shared, reading, detached, done, hstate⟩ := h.of_alloc
      rw [hstate] at answer ⊢
      cases done with
      | mempoolAlloc => exact .inl ⟨_, rfl, .alloc reading detached (.setCustomFree answer got)⟩
  | mempoolAllocNull here answer =>
      obtain rfl := Option.some.inj (hcode.symm.trans here)
      obtain ⟨ready, shared, reading, detached, done, hstate⟩ := h.of_alloc
      rw [hstate] at answer ⊢
      cases done with
      | mempoolAlloc => exact .inl ⟨_, rfl, .alloc reading detached (.storeError answer)⟩
  | setCustomFree here =>
      obtain rfl := Option.some.inj (hcode.symm.trans here)
      obtain ⟨ready, shared, reading, detached, done, hstate⟩ := h.of_alloc
      rw [hstate]
      cases done with
      | setCustomFree answer got =>
          exact .inl ⟨_, rfl, .alloc reading detached (.allocedCustom answer got)⟩
  | allocedCustom here =>
      obtain rfl := Option.some.inj (hcode.symm.trans here)
      obtain ⟨ready, shared, reading, detached, done, hstate⟩ := h.of_alloc
      rw [hstate]
      cases done with
      | allocedCustom answer got =>
          refine .inl ⟨_, rfl, .alloc reading detached (.allocated answer ?_)⟩
          rw [halEthRxAllocateCallback_of_ne _ got]
          simp [Mem.setPbuf]
  | storeError here =>
      obtain rfl := Option.some.inj (hcode.symm.trans here)
      obtain ⟨ready, shared, reading, detached, done, hstate⟩ := h.of_alloc
      rw [hstate]
      cases done with
      | storeError answer =>
          exact .inl ⟨_, rfl, .alloc reading detached
            (.allocated answer (halEthRxAllocateCallback_null c.shared))⟩
  | allocated here got =>
      obtain rfl := Option.some.inj (hcode.symm.trans here)
      obtain ⟨ready, shared, reading, detached, done, hstate⟩ := h.of_alloc
      rw [hstate]
      cases done with
      | allocated answer call => exact .inr ⟨rfl, .refill _ reading detached answer call got⟩
  | allocatedNull here reading' =>
      obtain rfl := Option.some.inj (hcode.symm.trans here)
      obtain ⟨ready, shared, reading, detached, done, hstate⟩ := h.of_alloc
      rw [hstate] at reading' ⊢
      cases done with
      | allocated answer call =>
          obtain ⟨-, rfl⟩ := RxPc.reading.inj (reading.symm.trans reading')
          exact .inr ⟨rfl, .refillNull _ reading detached answer call rfl⟩
  | @link last length i pc here running filled' =>
      obtain rfl := Option.some.inj (hcode.symm.trans here)
      obtain ⟨refill, length', last', n, f, reading, attached, filled, done, hstate⟩ := h.of_link
      rw [hstate] at filled' ⊢
      obtain ⟨rfl, -⟩ := Prod.mk.inj (Option.some.inj (filled.symm.trans filled'))
      refine .inl ⟨_, rfl, .link (n := n + 1) reading attached filled ?_⟩
      rw [linkStatements, Function.iterate_succ_apply', ← linkStatements, done]
      rfl
  | linked here reading' filled' =>
      obtain rfl := Option.some.inj (hcode.symm.trans here)
      obtain ⟨refill, length', last', n, f, reading, attached, filled, done, hstate⟩ := h.of_link
      rw [hstate] at reading' filled' ⊢
      obtain ⟨rfl, -⟩ := RxPc.reading.inj (reading.symm.trans reading')
      obtain ⟨rfl, rfl⟩ := Prod.mk.inj (Option.some.inj (filled.symm.trans filled'))
      exact .inr ⟨rfl, .link _ n reading attached filled (call_of_linkStatements done)⟩
  | mempoolFree here freeing' =>
      obtain rfl := Option.some.inj (hcode.symm.trans here)
      obtain ⟨p, todo, shared, freeing, custom, done, hstate⟩ := h.of_free
      rw [hstate] at freeing' ⊢
      cases done with
      | mempoolFree =>
          obtain ⟨rfl, rfl⟩ := List.cons.inj (RxPc.freeing.inj (freeing.symm.trans freeing'))
          exact .inl ⟨_, rfl, .free freeing custom .testStatus⟩
  | testStatus here =>
      obtain rfl := Option.some.inj (hcode.symm.trans here)
      obtain ⟨p, todo, shared, freeing, custom, done, hstate⟩ := h.of_free
      rw [hstate]
      cases done with
      | testStatus =>
          refine .inl ⟨_, rfl, ?_⟩
          by_cases herror : (c.shared.mempoolFree p).rxAllocStatus = .rxAllocError
          · rw [if_pos herror]
            exact .free freeing custom (.storeOk herror)
          · rw [if_neg herror]
            exact .free freeing custom (.freed (if_neg herror))
  | storeOk here =>
      obtain rfl := Option.some.inj (hcode.symm.trans here)
      obtain ⟨p, todo, shared, freeing, custom, done, hstate⟩ := h.of_free
      rw [hstate]
      cases done with
      | storeOk error => exact .inl ⟨_, rfl, .free freeing custom (.freed (if_pos error))⟩
  | freed here freeing' =>
      obtain rfl := Option.some.inj (hcode.symm.trans here)
      obtain ⟨p, todo, shared, freeing, custom, done, hstate⟩ := h.of_free
      rw [hstate] at freeing' ⊢
      cases done with
      | freed call =>
          obtain ⟨rfl, rfl⟩ := List.cons.inj (RxPc.freeing.inj (freeing.symm.trans freeing'))
          have hstep : Step pool pbufAllocedCustom refuses c .rxFree _ := .rxFree freeing
          rw [callCustomFree, custom, call] at hstep
          exact .inr ⟨rfl, hstep⟩

end Within

/-- `ethif_in` enters a function of `ethif.c`, or `pbuf_free` goes on without one. -/
theorem FineStep.call_cases {s t : Fine D} {runs : Fine D → Prop}
    (hs : FineStep pool pbufAllocedCustom refuses runs s .call t) :
    s.code = none ∧ ((∃ code, t.code = some code ∧
        Within pool pbufAllocedCustom refuses s.state (some code) t.state) ∨
      t.code = none ∧ Step pool pbufAllocedCustom refuses s.state .rxFree t.state) := by
  cases hs with
  | callAlloc i outside awake reading detached =>
      exact ⟨outside, .inl ⟨_, rfl, .alloc reading detached .mempoolAlloc⟩⟩
  | callLink i outside awake reading attached filled =>
      exact ⟨outside, .inl ⟨_, rfl, .link (n := 0) reading attached filled rfl⟩⟩
  | callFree outside awake freeing custom =>
      exact ⟨outside, .inl ⟨_, rfl, .free freeing custom .mempoolFree⟩⟩
  | noCustomFree outside awake freeing custom =>
      have hstep : Step pool pbufAllocedCustom refuses s.state .rxFree _ := .rxFree freeing
      rw [callCustomFree, custom] at hstep
      exact ⟨outside, .inr ⟨outside, hstep⟩⟩
  | allFreed outside awake freeing => exact ⟨outside, .inr ⟨outside, .rxFreed freeing⟩⟩

/-! ## The priorities make the callbacks atomic -/

/-- A statement of a function runs inside it. -/
theorem FineStep.code_ne_none {s t : Fine D} {runs : Fine D → Prop}
    (hs : FineStep pool pbufAllocedCustom refuses runs s .statement t) : s.code ≠ none := by
  cases hs with
  | mempoolAlloc code answer got => simp [code]
  | mempoolAllocNull code answer => simp [code]
  | setCustomFree code => simp [code]
  | allocedCustom code => simp [code]
  | storeError code => simp [code]
  | allocated code got => simp [code]
  | allocatedNull code reading => simp [code]
  | link code running filled => simp [code]
  | linked code reading filled => simp [code]
  | mempoolFree code freeing => simp [code]
  | testStatus code => simp [code]
  | storeOk code => simp [code]
  | freed code freeing => simp [code]

/-- `ethif_in` is awake when it calls a function, and does not sleep in one. -/
theorem FineStep.delayed_statement {s t : Fine D} {runs : Fine D → Prop}
    (hs : FineStep pool pbufAllocedCustom refuses runs s .statement t) : t.delayed = s.delayed := by
  cases hs <;> rfl

/-- `ethif_in` is outside the functions of `ethif.c` while it is in `vTaskDelay`. -/
theorem FineStep.code_eq_none {s t : Fine D} {e : FineEvent} {runs : Fine D → Prop}
    (hs : FineStep pool pbufAllocedCustom refuses runs s e t)
    (h : s.delayed = true → s.code = none) (hdelayed : t.delayed = true) : t.code = none := by
  cases e with
  | statement =>
      rw [hs.delayed_statement] at hdelayed
      exact absurd (h hdelayed) hs.code_ne_none
  | dma =>
      cases hs with
      | dma step => exact h hdelayed
  | thread =>
      cases hs with
      | thread ofThread run step => exact h hdelayed
  | driver =>
      cases hs with
      | driver ofDriver outside awake step => exact outside
  | wake =>
      cases hs with
      | wake delayed => exact absurd hdelayed (by simp)
  | call =>
      cases hs with
      | callAlloc i outside awake reading detached =>
          exact absurd (awake.symm.trans hdelayed) (by simp)
      | callLink i outside awake reading attached filled =>
          exact absurd (awake.symm.trans hdelayed) (by simp)
      | callFree outside awake freeing custom => exact absurd (awake.symm.trans hdelayed) (by simp)
      | noCustomFree outside awake freeing custom => exact outside
      | allFreed outside awake freeing => exact outside

/-- **Refinement.** When the `TCP/IP` thread only runs while `ethif_in` is in `vTaskDelay`, the
statements refine the receive machine. -/
theorem fine_refinement : System.Refinement
    (fineSystem (D := D) pool pbufAllocedCustom refuses Fine.Delayed)
    (system pool pbufAllocedCustom refuses)
    fun s c => (s.delayed = true → s.code = none) ∧
      Within pool pbufAllocedCustom refuses c s.code s.state where
  init s h := by
    obtain ⟨hinit, hcode, -⟩ := h
    refine ⟨s.state, hinit, fun _ => hcode, ?_⟩
    rw [hcode]
    exact .outside
  step s e t c hc hR hs := by
    obtain ⟨hdelayed, h⟩ := hR
    have hdelayed' := hs.code_eq_none hdelayed
    cases e with
    | dma =>
        cases hs with
        | dma step =>
            obtain ⟨c', hstep, hwithin⟩ := h.dma step
            exact .inr ⟨_, c', hstep, hdelayed, hwithin⟩
    | thread =>
        cases hs with
        | thread ofThread run step =>
            -- the thread runs in `vTaskDelay`, outside the functions
            rw [hdelayed run] at h
            obtain rfl := h.of_none
            refine .inr ⟨_, _, step, hdelayed, ?_⟩
            rw [hdelayed run]
            exact .outside
    | driver =>
        cases hs with
        | driver ofDriver outside awake step =>
            rw [outside] at h
            obtain rfl := h.of_none
            refine .inr ⟨_, _, step, hdelayed', ?_⟩
            rw [outside]
            exact .outside
    | call =>
        obtain ⟨outside, hcases⟩ := hs.call_cases
        rw [outside] at h
        obtain rfl := h.of_none
        rcases hcases with ⟨code, hcode, hwithin⟩ | ⟨hcode, hstep⟩
        · exact .inl ⟨hdelayed', hcode ▸ hwithin⟩
        · exact .inr ⟨_, _, hstep, hdelayed', hcode ▸ .outside⟩
    | statement =>
        obtain ⟨code, hcode⟩ := Option.ne_none_iff_exists'.mp hs.code_ne_none
        rw [hcode] at h
        rcases h.statement hcode hs with ⟨code', hcode', hwithin⟩ | ⟨hcode', hstep⟩
        · exact .inl ⟨hdelayed', hcode' ▸ hwithin⟩
        · exact .inr ⟨_, _, hstep, hdelayed', hcode' ▸ .outside⟩
    | wake =>
        cases hs with
        | wake delayed => exact .inl ⟨hdelayed', h⟩

/-- The link callback comes to its return. -/
theorem Within.link_returns {c s : State D} {i : Fin D} {pc : LinkPc} (hinv : Inv pool c)
    (h : Within pool pbufAllocedCustom refuses c (some (.link i pc)) s) :
    ∃ length last n t, (s.desc i).filled = some (length, last) ∧
      linkStatements pool (s.desc i).buff length n (pc, s.frame) = (.linked, t) := by
  obtain ⟨refill, length, last, n, f, reading, attached, filled, done, rfl⟩ := h.of_link
  obtain ⟨t, hm⟩ := hinv.exists_linkStatements length attached
  refine ⟨length, last, c.building.length + 7, t, filled, ?_⟩
  show linkStatements pool (c.desc i).buff length _ (pc, f) = _
  rw [← done, ← linkStatements_add, add_comm, linkStatements_add, hm, linkStatements_linked]

/-- **The priorities make the functions atomic.** Let the `TCP/IP` thread run only while `ethif_in`
is in `vTaskDelay`, the DMA at any time, and the pool refuse an element only when it is empty. In
every reachable state: the thread runs only between two calls of the functions of `ethif.c`; between
two calls the receive machine reaches the state, and `RX_ALLOC_ERROR` hides no free buffer, unless
the thread has just returned one and is about to test or to store `RxAllocStatus`; inside a call the
descriptors, the frames and the thread are those of a state it reaches; and inside the link callback
the statements come to the return. -/
theorem statements_refine (pool : RxPool)
    (pbufAllocedCustom : BitVec 16 → Addr → BitVec 16 → Pbuf → Pbuf)
    (refuses : Multiset Addr → Prop) (hrefuses : ∀ l, refuses l → l = 0) (s : Fine D)
    (h : (fineSystem pool pbufAllocedCustom refuses Fine.Delayed).Reachable s) :
    (s.Delayed → s.code = none) ∧
      (s.code = none → (system pool pbufAllocedCustom refuses).Reachable s.state ∧
        (s.state.shared.rxAllocStatus = .rxAllocError → ¬ s.state.tcpip.Signalling →
          s.state.shared.rxPool = 0)) ∧
      (∃ c, (system pool pbufAllocedCustom refuses).Reachable c ∧ s.state.desc = c.desc ∧
        s.state.rx = c.rx ∧ s.state.frames = c.frames ∧ s.state.tcpip = c.tcpip) ∧
      ∀ i pc, s.code = some (.link i pc) → ∃ length last n t,
        (s.state.desc i).filled = some (length, last) ∧
        linkStatements pool (s.state.desc i).buff length n (pc, s.state.frame) = (.linked, t) := by
  obtain ⟨c, hc, hdelayed, hwithin⟩ := fine_refinement.reachable h
  refine ⟨hdelayed, fun hcode => ?_, ⟨c, hc, hwithin.agree⟩, fun i pc hcode => ?_⟩
  · rw [hcode] at hwithin
    rw [hwithin.of_none]
    exact ⟨hc, noLostWakeup_of_reachable hrefuses hc⟩
  · rw [hcode] at hwithin
    exact hwithin.link_returns (inv_of_reachable hc)

/-- The receive machine on `ramPool` before its first step, statement by statement. -/
def fineStart : Fine 4 where
  state := State.start ramPool fun _ => ⟨⟨NULL, 0, 0, 0⟩, none⟩
  code := none
  delayed := true

/-- The link callback on the first buffer of `ramPool` comes to its return. -/
theorem statements_refine_ramPool : ∃ s : Fine 4, s.code = some (.link 0 .setNext) ∧
    ∃ length last n t, (s.state.desc 0).filled = some (length, last) ∧
      linkStatements ramPool (s.state.desc 0).buff length n (.setNext, s.state.frame)
        = (.linked, t) := by
  have hstart : (fineSystem ramPool lwipAllocedCustom (· = 0) Fine.Delayed).Reachable fineStart :=
    .init ⟨State.start_init _ _ _ _, rfl, rfl⟩
  -- a first call of `HAL_ETH_ReadData` gives a descriptor a buffer
  have hpoll := (hstart.step (.wake rfl)).step (.driver (by decide) rfl rfl (.pollRead rfl rfl))
  have hbuff := reachable_allocated (p := 0x20000000) 0 hpoll rfl rfl rfl rfl (.inl (by decide))
    (by decide) (by decide)
  -- in a second one the buffer is full
  have hnone := hbuff.step (.driver (by decide) rfl rfl (.readError rfl))
  have hdma := hnone.step (.dma (.dmaComplete 0 60 true (by decide) rfl))
  have hpoll' := (hdma.step (.wake rfl)).step (.driver (by decide) rfl rfl (.pollRead rfl rfl))
  have hlink := hpoll'.step (.callLink 0 rfl rfl rfl (by decide) rfl)
  exact ⟨_, rfl, (statements_refine ramPool lwipAllocedCustom (· = 0) (fun _ hl => hl) _
    hlink).2.2.2 0 .setNext rfl⟩

end Stm32Eth.Rx
