import Stm32Eth.Lib.Framing
import Stm32Eth.Rx.Memory

/-!
# The frames the stack receives

`Traced` runs the receive machine over the bytes of the memory and beside it a ghost: for each
descriptor the bytes the DMA put into its buffer, the buffers handed to the link callback, and what
`s_netif.input` was given. The bytes of free elements, of elements lwIP holds and of buffers the DMA
is filling change at any time (`MayWrite`).

The invariant `Holds` says where the bytes are: a filled descriptor has those the DMA put there, and
the frame under construction, or the finished one, has those of its segments. So the frames given to
lwIP are, byte for byte and in order, those of the stream of linked buffers (`inputs_frames`), and
lwIP's `tot_len` invariant holds of each of them (`input_totLen`).
-/

namespace Stm32Eth.Rx

open Linked Ledger Extent Framing
open Transition
open Tx (bytesAt packetBytes)

variable {D : ℕ} {pool : RxPool} {elemSize : ℕ}
  {pbufAllocedCustom : BitVec 16 → Addr → BitVec 16 → Pbuf → Pbuf} {refuses : Multiset Addr → Prop}

/-! ## Frames -/

/-- A buffer handed to the link callback: its segment, whether it ends a frame, and the bytes the
DMA put into it. -/
structure Received extends Segment where
  last : Bool
  data : List (BitVec 8)

/-- What the stack finds in a frame: its pbufs in order, their `len` and `tot_len`, and the bytes
at their payloads. -/
structure Frame where
  pbufs : List Addr
  lens : List (BitVec 16)
  totLens : List (BitVec 16)
  bytes : List (BitVec 8)

/-- The frame at `p`. -/
noncomputable def observe (m : Mem) (bytes : Addr → BitVec 8) (p : Addr) : Frame :=
  let l := nodes NULL m.next p
  { pbufs := l
    lens := l.map fun a => (m a).pbuf.len
    totLens := l.map fun a => (m a).pbuf.totLen
    bytes := packetBytes (fun a => (m a).pbuf) bytes l }

/-- The total length of the segments from each segment on, modulo `2 ^ 16`. -/
def totLens : List Segment → List (BitVec 16)
  | [] => []
  | g :: gs => BitVec.ofNat 16 (sumLen (g :: gs)) :: totLens gs

/-- The segments of some received buffers. -/
def segments (gs : List Received) : List Segment := gs.map Received.toSegment

/-- The frame of some received buffers. -/
def frameOf (gs : List Received) : Frame where
  pbufs := (segments gs).map Segment.pbuf
  lens := (segments gs).map Segment.length
  totLens := totLens (segments gs)
  bytes := gs.flatMap Received.data

/-! ## The traced machine -/

/-- The receive machine, the bytes of the memory, and the ghost: the bytes the DMA put into the
buffer of each descriptor, the buffers handed to the link callback and the frames given to
`s_netif.input`, both in order. -/
structure Traced (D : ℕ) where
  state : State D
  bytes : Addr → BitVec 8
  dma : Fin D → List (BitVec 8)
  linked : List Received
  inputs : List Frame

section

variable (pool : RxPool) (elemSize : ℕ)
  (pbufAllocedCustom : BitVec 16 → Addr → BitVec 16 → Pbuf → Pbuf) (refuses : Multiset Addr → Prop)

/-- The steps of the traced machine: those of the receive machine, and writes to the memory. -/
inductive TStep : Traced D → Option Event → Traced D → Prop
  /-- The DMA has filled the buffer of a descriptor with at most `RxBuffLen` bytes. -/
  | dmaComplete {x : Traced D} (i : Fin D) (length : BitVec 16) (last : Bool)
      (attached : (x.state.desc i).buff ≠ NULL) (empty : (x.state.desc i).filled = none)
      (bound : length.toNat ≤ rxBuffLen) :
      TStep x (some .dmaComplete)
        { x with
          state := { x.state with
            desc := Function.update x.state.desc i
              { x.state.desc i with filled := some (length, last) } }
          dma := Function.update x.dma i
            (bytesAt x.bytes (x.state.desc i).buff length.toNat) }
  /-- `HAL_ETH_ReadData` hands the buffer of the descriptor `i` to the link callback. -/
  | link {x : Traced D} {t : State D} (i : Fin D) {last : Bool} {length : BitVec 16}
      (filled : (x.state.desc i).filled = some (length, last))
      (step : Step pool pbufAllocedCustom refuses x.state .link t)
      (detached : (t.desc i).filled = none) :
      TStep x (some .link)
        { x with
          state := t
          linked := x.linked ++
            [{ pbuf := (x.state.desc i).buff - pool.offsetofBuff
               buff := (x.state.desc i).buff
               length := length
               last := last
               data := x.dma i }] }
  /-- `s_netif.input` is called on the frame `p`, which it accepts or rejects. -/
  | input {x : Traced D} {t : State D} {e : Event} {p : Addr} (he : e = .accept ∨ e = .reject)
      (input : x.state.rx = .input p)
      (step : Step pool pbufAllocedCustom refuses x.state e t) :
      TStep x (some e)
        { x with
          state := t
          inputs := x.inputs ++ [observe x.state.shared.mem x.bytes p] }
  /-- The other steps of the receive machine. -/
  | other {x : Traced D} {t : State D} {e : Event}
      (he : e ≠ .dmaComplete ∧ e ≠ .link ∧ e ≠ .accept ∧ e ≠ .reject)
      (step : Step pool pbufAllocedCustom refuses x.state e t) :
      TStep x (some e) { x with state := t }
  /-- The DMA and lwIP write to the memory. -/
  | write {x : Traced D} (bytes : Addr → BitVec 8)
      (frame : ∀ a, ¬ MayWrite elemSize x.state a → bytes a = x.bytes a) :
      TStep x none { x with bytes := bytes }

/-- The traced machine, from the full pool, over any memory and without a history. -/
def traced : System (Traced D) (Option Event) where
  init x := (system pool pbufAllocedCustom refuses).init x.state ∧ x.linked = [] ∧ x.inputs = []
  step := TStep pool elemSize pbufAllocedCustom refuses

end

/-- The traced machine is the receive machine with a ghost. -/
theorem traced_simulation : System.Simulation
    (traced (D := D) pool elemSize pbufAllocedCustom refuses)
    (system pool pbufAllocedCustom refuses) Traced.state fun _ => True where
  init x h := h.1
  step x e y _ hs := by
    cases hs with
    | dmaComplete i length last attached empty bound =>
        exact .inr ⟨_, .dmaComplete i length last attached empty⟩
    | link i filled step detached => exact .inr ⟨_, step⟩
    | input he input step => exact .inr ⟨_, step⟩
    | other he step => exact .inr ⟨_, step⟩
    | write bytes frame => exact .inl rfl

/-- The ghost stops no step of the receive machine, when the DMA does not write beyond
`RxBuffLen`. -/
theorem TStep.exists_of_step {x : Traced D} {t : State D} {e : Event}
    (hs : Step pool pbufAllocedCustom refuses x.state e t)
    (hbound : ∀ i length last, (t.desc i).filled = some (length, last) →
      length.toNat ≤ rxBuffLen) :
    ∃ y, TStep pool elemSize pbufAllocedCustom refuses x (some e) y ∧ y.state = t := by
  by_cases hdma : e = .dmaComplete
  · subst hdma
    cases hs with
    | dmaComplete i length last attached empty =>
        exact ⟨_, .dmaComplete i length last attached empty (hbound i length last (by simp)), rfl⟩
  by_cases hlink : e = .link
  · subst hlink
    have hs' := hs
    cases hs with
    | link i fuel reading attached filled call =>
        exact ⟨_, .link i filled hs' (by simp), rfl⟩
  by_cases hinput : e = .accept ∨ e = .reject
  · have hp : ∃ p, x.state.rx = .input p := by
      rcases hinput with rfl | rfl
      · cases hs with
        | accept input chain => exact ⟨_, input⟩
      · cases hs with
        | reject input chain => exact ⟨_, input⟩
    obtain ⟨p, hp⟩ := hp
    exact ⟨_, .input hinput hp hs, rfl⟩
  · exact ⟨_, .other ⟨hdma, hlink, fun h => hinput (.inl h), fun h => hinput (.inr h)⟩ hs, rfl⟩

/-! ## The link callback -/

/-- The loop of the link callback moves no payload. -/
theorem addTotLen_payload {length : BitVec 16} {fuel : ℕ} {m m' : Mem} {p : Addr}
    (h : addTotLen length fuel m p = some m') (a : Addr) :
    (m' a).pbuf.payload = (m a).pbuf.payload := by
  induction fuel generalizing m p with
  | zero => simp [addTotLen] at h
  | succ fuel ih =>
      by_cases hp : p = NULL
      · rw [addTotLen, if_pos hp, Option.some.injEq] at h
        rw [h]
      · simp only [addTotLen, if_neg hp] at h
        rw [ih h]
        by_cases ha : a = p
        · simp [ha]
        · simp [ha]

/-- The link callback moves no payload. -/
theorem halEthRxLinkCallback_payload {fuel : ℕ} {buff : Addr} {length : BitVec 16}
    {s s' : FrameState} (h : halEthRxLinkCallback pool fuel buff length s = some s') (a : Addr) :
    (s'.mem a).pbuf.payload = (s.mem a).pbuf.payload := by
  -- a store that keeps the payload of its pbuf
  have hset : ∀ (m : Mem) (b : Addr) (f : Pbuf → Pbuf), (∀ q, (f q).payload = q.payload) →
      ((m.setPbuf b f) a).pbuf.payload = (m a).pbuf.payload := by
    intro m b f hf
    by_cases ha : a = b
    · simp [ha, hf]
    · simp [ha]
  rw [halEthRxLinkCallback, Option.map_eq_some_iff] at h
  obtain ⟨m, hm, rfl⟩ := h
  rw [addTotLen_payload hm]
  split
  · refine hset _ _ _ ?_
    exact fun _ => rfl
  · refine (hset _ _ _ ?_).trans (hset _ _ _ ?_)
    · exact fun _ => rfl
    · exact fun _ => rfl

/-- Whatever fuel made a call of the link callback terminate, what is built has grown by one
segment. -/
theorem Built.extend {s s' : FrameState} {gs : List Segment} {g : Segment} {fuel : ℕ}
    (h : Built s gs) (hcall : halEthRxLinkCallback pool fuel g.buff g.length s = some s')
    (hpbuf : g.buff - pool.offsetofBuff = g.pbuf) (hne : g.pbuf ≠ NULL)
    (hfresh : g.pbuf ∉ gs.map Segment.pbuf) :
    Built s' (gs ++ [g]) ∧ ∀ a, a ∉ (gs ++ [g]).map Segment.pbuf → s'.mem a = s.mem a := by
  obtain ⟨t, ht, hbuilt⟩ := h.step hpbuf hne hfresh (max fuel (gs.length + 2)) (by omega)
  have hmono : halEthRxLinkCallback pool (max fuel (gs.length + 2)) g.buff g.length s
      = some s' := by
    rw [halEthRxLinkCallback, Option.map_eq_some_iff] at hcall ⊢
    obtain ⟨m, hm, rfl⟩ := hcall
    exact ⟨m, addTotLen_mono hm (le_max_left _ _), rfl⟩
  obtain rfl : s' = t := Option.some.inj (hmono.symm.trans ht)
  exact hbuilt

/-- What is built depends on its own pbufs only. -/
theorem Built.congr {m m' : Mem} {pStart pEnd : Addr} {gs : List Segment}
    (h : Built ⟨m, pStart, pEnd⟩ gs) (hmem : ∀ g ∈ gs, m' g.pbuf = m g.pbuf) :
    Built ⟨m', pStart, pEnd⟩ gs where
  chain := h.chain.frame fun a ha => by
    obtain ⟨g, hg, rfl⟩ := List.mem_map.mp ha
    simp only [Mem.next, hmem g hg]
  last := h.last
  lens pre g suf heq := by
    have hg : g ∈ gs := heq ▸ List.mem_append_right _ List.mem_cons_self
    simp only [hmem g hg]
    exact h.lens pre g suf heq

/-! ## Where the bytes are -/

/-- The chain from `pStart` to `pEnd` is the frame of the received buffers `gs`: it is built from
their segments, and the payload of each pbuf is its element's buffer and has the bytes the DMA put
there. -/
structure Holding (pool : RxPool) (m : Mem) (bytes : Addr → BitVec 8) (pStart pEnd : Addr)
    (gs : List Received) : Prop where
  built : Built ⟨m, pStart, pEnd⟩ (segments gs)
  payload : ∀ g ∈ gs, (m g.pbuf).pbuf.payload = g.pbuf + pool.offsetofBuff
  length_le : ∀ g ∈ gs, g.length.toNat ≤ rxBuffLen
  data : ∀ g ∈ gs, g.data = bytesAt bytes (g.pbuf + pool.offsetofBuff) g.length.toNat

namespace Holding

variable {m m' : Mem} {bytes bytes' : Addr → BitVec 8} {pStart pEnd : Addr} {gs : List Received}

/-- Nothing is held before the first buffer of a frame. -/
theorem nil (pool : RxPool) (m : Mem) (bytes : Addr → BitVec 8) (pEnd : Addr) :
    Holding pool m bytes NULL pEnd [] where
  built := built_nil m pEnd
  payload := by simp
  length_le := by simp
  data := by simp

/-- What is held survives every change outside its elements. -/
theorem keep (h : Holding pool m bytes pStart pEnd gs) (hlaid : pool.Laid elemSize)
    (hmem : ∀ g ∈ gs, m' g.pbuf = m g.pbuf)
    (hbytes : ∀ g ∈ gs, ∀ a ∈ extent g.pbuf elemSize, bytes' a = bytes a) :
    Holding pool m' bytes' pStart pEnd gs where
  built := h.built.congr fun g hg => by
    obtain ⟨r, hr, rfl⟩ := List.mem_map.mp hg
    exact hmem r hr
  payload g hg := by
    rw [hmem g hg]
    exact h.payload g hg
  length_le := h.length_le
  data g hg := by
    rw [h.data g hg]
    have hrange : rxBuffLen ≤ 2 ^ 32 := by decide
    exact (bytesAt_congr (fun a ha => hbytes g hg a (hlaid.buff_subset g.pbuf ha))
      (h.length_le g hg) hrange).symm

/-- The `len` fields. -/
theorem len_eq (h : Holding pool m bytes pStart pEnd gs) {g : Segment} (hg : g ∈ segments gs) :
    (m g.pbuf).pbuf.len = g.length := by
  obtain ⟨pre, suf, heq⟩ := List.append_of_mem hg
  exact (h.built.lens pre g suf heq).1

/-- The `tot_len` fields, from each segment on. -/
theorem totLens_eq (h : Holding pool m bytes pStart pEnd gs) (pre suf : List Segment)
    (heq : segments gs = pre ++ suf) :
    (suf.map fun g => (m g.pbuf).pbuf.totLen) = totLens suf := by
  induction suf generalizing pre with
  | nil => rfl
  | cons g suf ih =>
      rw [List.map_cons, totLens, ih (pre ++ [g]) (by simpa using heq)]
      congr 1
      apply BitVec.eq_of_toNat_eq
      rw [(h.built.lens pre g suf heq).2, BitVec.toNat_ofNat]

/-- **What the stack finds** in a frame is the frame of its received buffers. -/
theorem observe_eq (h : Holding pool m bytes pStart pEnd gs) :
    observe m bytes pStart = frameOf gs := by
  have hnodes : nodes NULL m.next pStart = (segments gs).map Segment.pbuf := h.built.chain.nodes_eq
  have hlens : ((segments gs).map fun g => (m g.pbuf).pbuf.len)
      = (segments gs).map Segment.length := List.map_congr_left fun g hg => h.len_eq hg
  have hbytes : packetBytes (fun a => (m a).pbuf) bytes ((segments gs).map Segment.pbuf)
      = gs.flatMap Received.data := by
    rw [packetBytes, segments, List.map_map, List.flatMap_map]
    refine List.flatMap_congr fun g hg => ?_
    simp only [Function.comp_apply, h.data g hg, h.payload g hg]
    rw [h.len_eq (List.mem_map_of_mem (f := Received.toSegment) hg)]
  have htot := h.totLens_eq [] (segments gs) rfl
  simp only [observe, frameOf, hnodes, hbytes, ← hlens, ← htot, List.map_map]
  rfl

end Holding

/-! ## Where a frame is -/

/-- Where the frame under construction is, read off the task `ethif_in`. -/
inductive RxStage
  /-- the frame under construction is not complete -/
  | assembling
  /-- it is complete, and `HAL_ETH_ReadData` has not returned it -/
  | ready
  /-- `s_netif.input` is about to be called on it -/
  | input (p : Addr)

/-- The stage of the task `ethif_in`. -/
def RxPc.stage : RxPc → RxStage
  | .idle => .assembling
  | .reading _ false => .assembling
  | .reading _ true => .ready
  | .input p => .input p
  | .freeing _ => .assembling

/-- Whether descriptors are refilled does not matter. -/
theorem RxPc.stage_reading (refill refill' ready : Bool) :
    (RxPc.reading refill ready).stage = (RxPc.reading refill' ready).stage := by
  cases ready with
  | true => rfl
  | false => rfl

/-- The task is about to call `s_netif.input` in the last stage only. -/
theorem RxPc.eq_input {rx : RxPc} {p : Addr} (h : rx.stage = .input p) : rx = .input p := by
  cases rx with
  | input q => exact congrArg _ (RxStage.input.inj h)
  | reading refill ready => cases ready <;> exact absurd h (by simp [RxPc.stage])
  | idle => exact absurd h (by simp [RxPc.stage])
  | freeing todo => exact absurd h (by simp [RxPc.stage])

/-- The complete frames not yet given to `s_netif.input`, and the received buffers after them, with
where they are held. -/
inductive Stage (pool : RxPool) (x : Traced D) : List (List Received) → List Received → Prop
  | assembling {rest : List Received} (stage : x.state.rx.stage = .assembling)
      (holding : Holding pool x.state.shared.mem x.bytes x.state.pRxStart x.state.pRxEnd rest) :
      Stage pool x [] rest
  | ready {f : List Received} (stage : x.state.rx.stage = .ready) (ne : f ≠ [])
      (holding : Holding pool x.state.shared.mem x.bytes x.state.pRxStart x.state.pRxEnd f) :
      Stage pool x [f] []
  | input {f : List Received} {p pEnd : Addr} (stage : x.state.rx.stage = .input p)
      (pRxStart_eq : x.state.pRxStart = NULL)
      (holding : Holding pool x.state.shared.mem x.bytes p pEnd f) : Stage pool x [f] []

/-- The pbufs of the frame under construction. -/
theorem Holding.mem_building {s : State D} {bytes : Addr → BitVec 8} {pEnd : Addr}
    {gs : List Received} (h : Holding pool s.shared.mem bytes s.pRxStart pEnd gs) {g : Received}
    (hg : g ∈ gs) : g.pbuf ∈ ledger pool s .building := by
  have hnodes : s.building = (segments gs).map Segment.pbuf := h.built.chain.nodes_eq
  simp only [ledger, hnodes, segments, List.map_map]
  exact Multiset.mem_coe.mpr (List.mem_map_of_mem (f := Segment.pbuf ∘ Received.toSegment) hg)

/-- The pbufs of the frame `s_netif.input` is about to be called on. -/
theorem Holding.mem_driver {s : State D} {bytes : Addr → BitVec 8} {p pEnd : Addr}
    {gs : List Received} (h : Holding pool s.shared.mem bytes p pEnd gs)
    (hrx : s.rx = .input p) {g : Received} (hg : g ∈ gs) : g.pbuf ∈ ledger pool s .driver := by
  have hnodes : nodes NULL s.shared.mem.next p = (segments gs).map Segment.pbuf :=
    h.built.chain.nodes_eq
  simp only [ledger, hrx, RxPc.held_input, hnodes, segments, List.map_map]
  exact Multiset.mem_coe.mpr (List.mem_map_of_mem (f := Segment.pbuf ∘ Received.toSegment) hg)

/-- What is held stays where it is while `ethif_in` stays in its stage and the pbufs and bytes of
its frame do not change. -/
theorem Stage.keep {x y : Traced D} {pending : List (List Received)} {rest : List Received}
    (h : Stage pool x pending rest) (hlaid : pool.Laid elemSize)
    (hstage : y.state.rx.stage = x.state.rx.stage) (hstart : y.state.pRxStart = x.state.pRxStart)
    (hend : y.state.pRxEnd = x.state.pRxEnd)
    (hmem : ∀ o, o = .building ∨ o = .driver → ∀ a ∈ ledger pool x.state o,
      y.state.shared.mem a = x.state.shared.mem a)
    (hbytes : ∀ o, o = .building ∨ o = .driver → ∀ q ∈ ledger pool x.state o,
      ∀ a ∈ extent q elemSize, y.bytes a = x.bytes a) : Stage pool y pending rest := by
  cases h with
  | assembling stage holding =>
      refine .assembling (hstage.trans stage) ?_
      rw [hstart, hend]
      exact holding.keep hlaid (fun g hg => hmem _ (.inl rfl) _ (holding.mem_building hg))
        fun g hg => hbytes _ (.inl rfl) _ (holding.mem_building hg)
  | ready stage ne holding =>
      refine .ready (hstage.trans stage) ne ?_
      rw [hstart, hend]
      exact holding.keep hlaid (fun g hg => hmem _ (.inl rfl) _ (holding.mem_building hg))
        fun g hg => hbytes _ (.inl rfl) _ (holding.mem_building hg)
  | input stage pRxStart_eq holding =>
      have hrx := RxPc.eq_input stage
      refine .input (hstage.trans stage) (hstart.trans pRxStart_eq) (holding.keep hlaid ?_ ?_)
      · exact fun g hg => hmem _ (.inr rfl) _ (holding.mem_driver hrx hg)
      · exact fun g hg => hbytes _ (.inr rfl) _ (holding.mem_driver hrx hg)

/-! ## The steps -/

/-- The invariant of the traced machine: what the DMA put into the buffer of a filled descriptor is
there, the payload of the pbuf of an attached buffer is the buffer, and the frames of the linked
buffers are those given to `s_netif.input`, then at most one complete frame, then the frame under
construction. -/
structure Holds (pool : RxPool) (x : Traced D) : Prop where
  filled : ∀ i length last, (x.state.desc i).filled = some (length, last) →
    (x.state.desc i).buff ≠ NULL ∧ length.toNat ≤ rxBuffLen ∧
      x.dma i = bytesAt x.bytes (x.state.desc i).buff length.toNat
  attached : ∀ i, (x.state.desc i).buff ≠ NULL →
    (x.state.shared.mem ((x.state.desc i).buff - pool.offsetofBuff)).pbuf.payload
      = (x.state.desc i).buff
  stage : ∃ done pending rest, frames Received.last x.linked = (done ++ pending, rest) ∧
    x.inputs = done.map frameOf ∧ Stage pool x pending rest

/-- What the steps do that neither fill a buffer, nor link one, nor move a finished frame on: the
stage and the frame under construction stay, only pbufs in the pool or with the stack change, and a
descriptor changes only by getting a new buffer. -/
structure Quiet (pool : RxPool) (s t : State D) : Prop where
  stage : t.rx.stage = s.rx.stage
  pRxStart_eq : t.pRxStart = s.pRxStart
  pRxEnd_eq : t.pRxEnd = s.pRxEnd
  mem : ∀ o, o ≠ .rxPool → o ≠ .stack → ∀ a ∈ ledger pool s o,
    t.shared.mem a = s.shared.mem a
  desc : ∀ i, t.desc i = s.desc i ∨ (t.desc i).filled = none ∧
    (t.shared.mem ((t.desc i).buff - pool.offsetofBuff)).pbuf.payload = (t.desc i).buff

/-- A step that changes no pbuf and no descriptor is quiet if it keeps the frame under construction
and its stage. -/
theorem Quiet.same {s t : State D} (hstage : t.rx.stage = s.rx.stage)
    (hstart : t.pRxStart = s.pRxStart) (hend : t.pRxEnd = s.pRxEnd)
    (hmem : t.shared.mem = s.shared.mem) (hdesc : t.desc = s.desc) : Quiet pool s t where
  stage := hstage
  pRxStart_eq := hstart
  pRxEnd_eq := hend
  mem _ _ _ _ _ := by rw [hmem]
  desc i := .inl (by rw [hdesc])

/-- `HAL_ETH_ReadData` returns a complete frame, or the step is quiet. -/
theorem Inv.quiet {s t : State D} {e : Event} (h : Inv pool s)
    (hpayload : ∀ l a n p, (pbufAllocedCustom l a n p).payload = a)
    (hs : Step pool pbufAllocedCustom refuses s e t)
    (he : e ≠ .dmaComplete ∧ e ≠ .link ∧ e ≠ .accept ∧ e ≠ .reject) :
    Quiet pool s t ∨ (∃ refill, s.rx = .reading refill true) ∧
      t = { s with pRxStart := NULL, rx := afterInput s.pRxStart } := by
  obtain ⟨hdma, hlink, haccept, hreject⟩ := he
  cases hs with
  | dmaComplete i length last attached empty => exact absurd rfl hdma
  | link i fuel reading attached filled call => exact absurd rfl hlink
  | accept input chain => exact absurd rfl haccept
  | reject input chain => exact absurd rfl hreject
  | pollRead idle ok => exact .inl (.same (by rw [idle]; rfl) rfl rfl rfl rfl)
  | pollSkip idle error => exact .inl (.same (by rw [idle]; rfl) rfl rfl rfl rfl)
  | @refill ready p buff shared i reading detached answer call got =>
      obtain ⟨hp, -⟩ := got_of_ne answer call got
      have helem : p ∈ pool.elems := h.mem_elems (o := .rxPool) hp
      rw [halEthRxAllocateCallback_of_ne _ (pool.ne_null p helem)] at call
      obtain ⟨rfl, rfl⟩ := Prod.mk.inj call
      refine .inl ⟨rfl, rfl, rfl, fun o hpool _ a ha => ?_, fun j => ?_⟩
      · -- the pbuf of the new buffer was free
        have hap : a ≠ p := by
          rintro rfl
          exact h.not_mem ha .rxPool hpool hp
        simp [hap]
      · by_cases hj : j = i
        · subst hj
          refine .inr ⟨by simp, ?_⟩
          simp [hpayload]
        · exact .inl (by simp [hj])
  | refillNull i reading detached answer call none =>
      obtain ⟨-, rfl⟩ := h.refused answer call none
      refine .inl (.same ?_ rfl rfl rfl rfl)
      rw [reading]
      exact RxPc.stage_reading _ _ _
  | readOk reading => exact .inr ⟨⟨_, reading⟩, rfl⟩
  | readError reading => exact .inl (.same (by rw [reading]; rfl) rfl rfl rfl rfl)
  | rxFree freeing =>
      rw [h.callCustomFree_eq freeing]
      exact .inl (.same (by rw [freeing]; rfl) rfl rfl (pbufFreeCustom_mem _ _) rfl)
  | rxFreed freeing => exact .inl (.same (by rw [freeing]; rfl) rfl rfl rfl rfl)
  | lwipWrite mem frame keep =>
      refine .inl ⟨rfl, rfl, rfl, fun o hpool hstack a ha => ?_, fun _ => .inl rfl⟩
      exact frame a (h.not_mem ha .rxPool hpool) (h.not_mem ha .stack hstack)
  | release accepted idle => exact .inl (.same rfl rfl rfl rfl rfl)
  | mempoolFree freeing custom => exact .inl (.same rfl rfl rfl rfl rfl)
  | noCustomFree freeing custom => exact .inl (.same rfl rfl rfl rfl rfl)
  | testError returned error => exact .inl (.same rfl rfl rfl rfl rfl)
  | testOk returned ok => exact .inl (.same rfl rfl rfl rfl rfl)
  | storeOk tested => exact .inl (.same rfl rfl rfl rfl rfl)
  | released freeing => exact .inl (.same rfl rfl rfl rfl rfl)

namespace Holds

variable {x : Traced D} {t : State D}

/-- A quiet step keeps everything. -/
theorem quiet (h : Holds pool x) (hlaid : pool.Laid elemSize) (hq : Quiet pool x.state t) :
    Holds pool { x with state := t } where
  filled i length last hfilled := by
    rcases hq.desc i with hsame | ⟨hnone, -⟩
    · simp only [hsame] at hfilled ⊢
      exact h.filled i length last hfilled
    · exact absurd (hnone.symm.trans hfilled) (by simp)
  attached i hbuff := by
    rcases hq.desc i with hsame | ⟨-, hpayload⟩
    · simp only [hsame] at hbuff ⊢
      rw [hq.mem (.descriptor i) (by simp) (by simp) _ (Inv.attached_mem hbuff)]
      exact h.attached i hbuff
    · exact hpayload
  stage := by
    obtain ⟨done, pending, rest, hframes, hinputs, hstage⟩ := h.stage
    refine ⟨done, pending, rest, hframes, hinputs, ?_⟩
    refine hstage.keep hlaid hq.stage hq.pRxStart_eq hq.pRxEnd_eq (fun o ho => ?_)
      fun _ _ _ _ _ _ => rfl
    rcases ho with rfl | rfl
    · exact hq.mem _ (by simp) (by simp)
    · exact hq.mem _ (by simp) (by simp)

/-- The DMA fills a buffer. -/
theorem dmaComplete (h : Holds pool x) (hlaid : pool.Laid elemSize) {i : Fin D}
    {length : BitVec 16} {last : Bool} (hattached : (x.state.desc i).buff ≠ NULL)
    (hbound : length.toNat ≤ rxBuffLen) :
    Holds pool { x with
      state := { x.state with
        desc := Function.update x.state.desc i
          { x.state.desc i with filled := some (length, last) } }
      dma := Function.update x.dma i (bytesAt x.bytes (x.state.desc i).buff length.toNat) } where
  filled j length' last' hfilled := by
    by_cases hj : j = i
    · subst hj
      simp only [Function.update_self, Option.some.injEq, Prod.mk.injEq] at hfilled ⊢
      obtain ⟨rfl, rfl⟩ := hfilled
      exact ⟨hattached, hbound, rfl⟩
    · simp only [Function.update_of_ne hj] at hfilled ⊢
      exact h.filled j length' last' hfilled
  attached j hbuff := by
    by_cases hj : j = i
    · subst hj
      simp only [Function.update_self]
      exact h.attached j hattached
    · simp only [Function.update_of_ne hj] at hbuff ⊢
      exact h.attached j hbuff
  stage := by
    obtain ⟨done, pending, rest, hframes, hinputs, hstage⟩ := h.stage
    refine ⟨done, pending, rest, hframes, hinputs, ?_⟩
    exact hstage.keep hlaid rfl rfl rfl (fun _ _ _ _ => rfl) fun _ _ _ _ _ _ => rfl

/-- The DMA and lwIP write to the memory: not where a filled descriptor, the frame under
construction or a finished frame is. -/
theorem write (h : Holds pool x) (hinv : Inv pool x.state) (hlaid : pool.Laid elemSize)
    {bytes : Addr → BitVec 8} (hframe : ∀ a, ¬ MayWrite elemSize x.state a → bytes a = x.bytes a) :
    Holds pool { x with bytes := bytes } where
  filled i length last hfilled := by
    obtain ⟨hbuff, hbound, hdata⟩ := h.filled i length last hfilled
    refine ⟨hbuff, hbound, hdata.trans ?_⟩
    have hrange : rxBuffLen ≤ 2 ^ 32 := by decide
    refine (bytesAt_congr (fun a ha => hframe a ?_) hbound hrange).symm
    refine hinv.not_mayWrite hlaid (o := .descriptor i) (by simp) (by simp) ?_
      (Inv.attached_mem hbuff) (hlaid.desc_subset _ ha)
    intro j hj
    obtain rfl := Owner.descriptor.inj hj
    exact fun hnone => absurd (hnone.symm.trans hfilled) (by simp)
  attached := h.attached
  stage := by
    obtain ⟨done, pending, rest, hframes, hinputs, hstage⟩ := h.stage
    refine ⟨done, pending, rest, hframes, hinputs, ?_⟩
    refine hstage.keep hlaid rfl rfl rfl (fun _ _ _ _ => rfl) fun o ho q hq a ha => hframe a ?_
    rcases ho with rfl | rfl
    · exact hinv.not_mayWrite hlaid (by simp) (by simp) (fun i hi => by simp at hi) hq ha
    · exact hinv.not_mayWrite hlaid (by simp) (by simp) (fun i hi => by simp at hi) hq ha

/-- `HAL_ETH_ReadData` returns the complete frame. -/
theorem readOk (h : Holds pool x) {refill : Bool} (hreading : x.state.rx = .reading refill true) :
    Holds pool { x with
      state := { x.state with pRxStart := NULL, rx := afterInput x.state.pRxStart } } where
  filled := h.filled
  attached := h.attached
  stage := by
    obtain ⟨done, pending, rest, hframes, hinputs, hstage⟩ := h.stage
    cases hstage with
    | assembling stage holding => exact absurd stage (by simp [hreading, RxPc.stage])
    | input stage pRxStart_eq holding => exact absurd stage (by simp [hreading, RxPc.stage])
    | ready stage ne holding =>
        refine ⟨done, _, _, hframes, hinputs, .input ?_ rfl holding⟩
        have hne : x.state.pRxStart ≠ NULL := fun hnull => by
          have hnil := holding.built.chain.eq_nil_iff.mpr hnull
          exact ne (by simpa [segments] using hnil)
        simp only [afterInput, if_neg hne]
        rfl

/-- `s_netif.input` is called on the finished frame. -/
theorem input (h : Holds pool x) {e : Event} {p : Addr} (he : e = .accept ∨ e = .reject)
    (hinput : x.state.rx = .input p) (hs : Step pool pbufAllocedCustom refuses x.state e t) :
    Holds pool { x with
      state := t
      inputs := x.inputs ++ [observe x.state.shared.mem x.bytes p] } := by
  -- the frame is handed over, or about to be freed
  have hsame : t.desc = x.state.desc ∧ t.shared.mem = x.state.shared.mem ∧
      t.pRxStart = x.state.pRxStart ∧ t.rx.stage = .assembling := by
    rcases he with rfl | rfl
    · cases hs with
      | accept input chain => exact ⟨rfl, rfl, rfl, rfl⟩
    · cases hs with
      | reject input chain => exact ⟨rfl, rfl, rfl, rfl⟩
  obtain ⟨hdesc, hmem, hstart, hstage'⟩ := hsame
  obtain ⟨done, pending, rest, hframes, hinputs, hstage⟩ := h.stage
  refine ⟨?_, ?_, ?_⟩
  · simp only [hdesc]
    exact h.filled
  · simp only [hdesc, hmem]
    exact h.attached
  cases hstage with
  | assembling stage holding => exact absurd stage (by simp [hinput, RxPc.stage])
  | ready stage ne holding => exact absurd stage (by simp [hinput, RxPc.stage])
  | @input f q pEnd stage pRxStart_eq holding =>
      obtain rfl : p = q := RxPc.input.inj (hinput.symm.trans (RxPc.eq_input stage))
      refine ⟨done ++ [f], [], [], ?_, ?_, .assembling hstage' ?_⟩
      · simp only [hframes, List.append_nil]
      · simp only [hinputs, holding.observe_eq, List.map_append, List.map_cons, List.map_nil]
      · simp only [hstart, pRxStart_eq]
        exact .nil _ _ _ _

/-- The link callback appends the buffer of a filled descriptor to the frame under construction. -/
theorem link (h : Holds pool x) (hinv : Inv pool x.state) {i : Fin D} {length : BitVec 16}
    {last : Bool} (hfilled : (x.state.desc i).filled = some (length, last))
    (hs : Step pool pbufAllocedCustom refuses x.state .link t)
    (hdetached : (t.desc i).filled = none) :
    Holds pool { x with
      state := t
      linked := x.linked ++
        [{ pbuf := (x.state.desc i).buff - pool.offsetofBuff
           buff := (x.state.desc i).buff
           length := length
           last := last
           data := x.dma i }] } := by
  cases hs with
  | @link refill last' length' f j fuel reading attached filled call =>
  obtain rfl : i = j := by
    by_contra hij
    simp [hij, hfilled] at hdetached
  obtain ⟨rfl, rfl⟩ : length = length' ∧ last = last' := by
    simpa using hfilled.symm.trans filled
  obtain ⟨-, hbound, hdata⟩ := h.filled i length last hfilled
  set r : Received :=
    { pbuf := (x.state.desc i).buff - pool.offsetofBuff
      buff := (x.state.desc i).buff
      length := length
      last := last
      data := x.dma i } with hr
  obtain ⟨done, pending, rest, hframes, hinputs, hstage⟩ := h.stage
  have hpayload := halEthRxLinkCallback_payload call
  -- the frame under construction grows by the buffer
  cases hstage with
  | ready stage ne holding => exact absurd stage (by simp [reading, RxPc.stage])
  | input stage pRxStart_eq holding => exact absurd stage (by simp [reading, RxPc.stage])
  | assembling stage holding =>
      have hown : r.pbuf ∈ ledger pool x.state (.descriptor i) := Inv.attached_mem attached
      obtain ⟨hbuilt, -⟩ := holding.built.extend (g := r.toSegment) call rfl
        (pool.ne_null _ (hinv.mem_elems hown)) fun hmem => by
          obtain ⟨g, hg, heq⟩ := List.mem_map.mp hmem
          obtain ⟨r', hr', rfl⟩ := List.mem_map.mp hg
          exact hinv.not_mem hown .building (by simp) (heq ▸ holding.mem_building hr')
      have hgrown : Holding pool f.mem x.bytes f.pStart f.pEnd (rest ++ [r]) := by
        refine ⟨by simpa [segments] using hbuilt, ?_, ?_, ?_⟩
        · intro g hg
          rw [hpayload]
          rcases List.mem_append.mp hg with hg | hg
          · exact holding.payload g hg
          · obtain rfl := List.mem_singleton.mp hg
            rw [hr, BitVec.sub_add_cancel]
            exact h.attached i attached
        · intro g hg
          rcases List.mem_append.mp hg with hg | hg
          · exact holding.length_le g hg
          · obtain rfl := List.mem_singleton.mp hg
            exact hbound
        · intro g hg
          rcases List.mem_append.mp hg with hg | hg
          · exact holding.data g hg
          · obtain rfl := List.mem_singleton.mp hg
            rw [hr, BitVec.sub_add_cancel]
            exact hdata
      refine ⟨?_, ?_, ?_⟩
      · intro k length' last' hk
        by_cases hki : k = i
        · subst hki
          simp at hk
        · simp only [Function.update_of_ne hki] at hk ⊢
          exact h.filled k length' last' hk
      · intro k hk
        by_cases hki : k = i
        · subst hki
          simp at hk
        · simp only [Function.update_of_ne hki] at hk ⊢
          rw [hpayload]
          exact h.attached k hk
      · cases hlast : last with
        | true =>
            refine ⟨done, [rest ++ [r]], [], ?_, hinputs, .ready rfl (by simp) hgrown⟩
            rw [frames_concat_last Received.last x.linked (a := r) hlast, hframes,
              List.append_nil]
        | false =>
            refine ⟨done, [], rest ++ [r], ?_, hinputs, .assembling rfl hgrown⟩
            rw [frames_concat_of_not_last Received.last x.linked (a := r) hlast, hframes]

/-- **Step.** Every step of the traced machine preserves the invariant. -/
theorem step {y : Traced D} {e : Option Event} (h : Holds pool x) (hinv : Inv pool x.state)
    (hlaid : pool.Laid elemSize) (hpayload : ∀ l a n p, (pbufAllocedCustom l a n p).payload = a)
    (hs : TStep pool elemSize pbufAllocedCustom refuses x e y) : Holds pool y := by
  cases hs with
  | dmaComplete i length last attached empty bound => exact h.dmaComplete hlaid attached bound
  | link i filled step detached => exact h.link hinv filled step detached
  | input he input step => exact h.input he input step
  | other he step =>
      rcases hinv.quiet hpayload step he with hq | ⟨⟨refill, hreading⟩, rfl⟩
      · exact h.quiet hlaid hq
      · exact h.readOk hreading
  | write bytes frame => exact h.write hinv hlaid frame

end Holds

/-! ## Every run -/

/-- What the traced machine reaches, the receive machine reaches. -/
theorem reachable_of_traced {x : Traced D}
    (h : (traced pool elemSize pbufAllocedCustom refuses).Reachable x) :
    (system pool pbufAllocedCustom refuses).Reachable x.state :=
  traced_simulation.reachable (fun _ _ => trivial) h

/-- **Run.** The invariant holds in every reachable state. -/
theorem holds_of_reachable (hlaid : pool.Laid elemSize)
    (hpayload : ∀ l a n p, (pbufAllocedCustom l a n p).payload = a) {x : Traced D}
    (h : (traced pool elemSize pbufAllocedCustom refuses).Reachable x) : Holds pool x := by
  refine h.invariant (P := Holds pool) ?_ ?_
  · rintro x ⟨⟨-, -, hdesc, hstart, hrx, -, -⟩, hlinked, hinputs⟩
    refine ⟨fun i length last hfilled => ?_, fun i hbuff => ?_, [], [], [], ?_, ?_, ?_⟩
    · simp [hdesc i] at hfilled
    · simp [hdesc i] at hbuff
    · simp [hlinked]
    · simp [hinputs]
    · refine .assembling (by simp [hrx, RxPc.stage]) ?_
      rw [hstart]
      exact .nil _ _ _ _
  · exact fun x e y hr hx hs =>
      hx.step (inv_of_reachable (reachable_of_traced hr)) hlaid hpayload hs

/-- The stream of linked buffers, cut into the frames `s_netif.input` was called on, those still to
come, and an incomplete one. -/
theorem Holds.exists_frames {x : Traced D} (h : Holds pool x) :
    ∃ (done pending : List (List Received)) (rest : List Received),
      x.linked = (done ++ pending).flatten ++ rest ∧
      (∀ f ∈ done ++ pending, ∃ init g, f = init ++ [g] ∧ g.last = true ∧
        ∀ g' ∈ init, g'.last = false) ∧
      (∀ g ∈ rest, g.last = false) ∧ pending.length ≤ 1 ∧ x.inputs = done.map frameOf := by
  obtain ⟨done, pending, rest, hframes, hinputs, hstage⟩ := h.stage
  have hflatten := flatten_frames Received.last x.linked
  have hlast := frames_last Received.last x.linked
  rw [hframes] at hflatten hlast
  refine ⟨done, pending, rest, hflatten.symm, hlast.1, hlast.2, ?_, hinputs⟩
  cases hstage with
  | assembling stage holding => exact Nat.zero_le _
  | ready stage ne holding => exact le_rfl
  | input stage pRxStart_eq holding => exact le_rfl

/-- **Every received frame, in order and byte for byte.** In every reachable state the buffers
handed to the link callback are a sequence of complete frames, each ending with the only buffer of
its last segment, and the buffers of an incomplete one. `s_netif.input` was called on these complete
frames, in this order and once each, with at most one still to come; and each time it found one pbuf
for each buffer, in order, with its `len` and `tot_len`, and at the payloads the bytes the DMA had
put into the buffers. -/
theorem inputs_frames (pool : RxPool) (elemSize : ℕ) (hlaid : pool.Laid elemSize)
    (pbufAllocedCustom : BitVec 16 → Addr → BitVec 16 → Pbuf → Pbuf)
    (hpayload : ∀ l a n p, (pbufAllocedCustom l a n p).payload = a)
    (refuses : Multiset Addr → Prop) (x : Traced D)
    (h : (traced pool elemSize pbufAllocedCustom refuses).Reachable x) :
    ∃ (done pending : List (List Received)) (rest : List Received),
      x.linked = (done ++ pending).flatten ++ rest ∧
      (∀ f ∈ done ++ pending, ∃ init g, f = init ++ [g] ∧ g.last = true ∧
        ∀ g' ∈ init, g'.last = false) ∧
      (∀ g ∈ rest, g.last = false) ∧ pending.length ≤ 1 ∧ x.inputs = done.map frameOf := by
  exact (holds_of_reachable hlaid hpayload h).exists_frames

/-- The receive machine on `ramPool` before its first step, over a memory of zeros. -/
def tracedStart : Traced 4 where
  state := State.start ramPool fun _ => ⟨⟨NULL, 0, 0, 0⟩, none⟩
  bytes _ := 0
  dma _ := []
  linked := []
  inputs := []

/-- A frame of one buffer gets from the DMA to `s_netif.input`. -/
theorem exists_input : ∃ x : Traced 4,
    (traced ramPool 1568 lwipAllocedCustom (· = 0)).Reachable x ∧ x.inputs = [] ∧
      x.state.rx = .input 0x20000000 := by
  have hstart : (traced ramPool 1568 lwipAllocedCustom (· = 0)).Reachable tracedStart :=
    .init ⟨State.start_init _ _ _ _, rfl, rfl⟩
  -- a first call of `HAL_ETH_ReadData` gives the descriptor a buffer
  have hpoll := hstart.step (.other (by decide) (.pollRead rfl rfl))
  have hrefill := hpoll.step (.other (by decide)
    (.refill (p := 0x20000000) 0 rfl rfl (.inl (by decide)) rfl (by decide)))
  have hnone := hrefill.step (.other (by decide) (.readError rfl))
  -- the second one, after the DMA filled it, returns the frame
  have hdma := hnone.step (.dmaComplete 0 60 true (by decide) rfl (by decide))
  have hpoll' := hdma.step (.other (by decide) (.pollRead rfl rfl))
  have hlink := hpoll'.step (.link 0 rfl (.link 0 3 rfl (by decide) rfl rfl) rfl)
  have hread := hlink.step (.other (by decide) (.readOk rfl))
  exact ⟨_, hread, rfl, rfl⟩

/-- The first frame of `ramPool` is given to `s_netif.input`. -/
theorem inputs_frames_ramPool : ∃ x : Traced 4, x.inputs.length = 1 ∧
    ∃ (done pending : List (List Received)) (rest : List Received),
      x.linked = (done ++ pending).flatten ++ rest ∧ pending.length ≤ 1 ∧
        x.inputs = done.map frameOf := by
  obtain ⟨x, hx, hinputs, hrx⟩ := exists_input
  have hchain := (inv_of_reachable (reachable_of_traced hx)).input _ hrx
  have hy := hx.step (.input (.inl rfl) hrx (.accept hrx hchain))
  obtain ⟨done, pending, rest, hlinked, -, -, hpending, hdone⟩ := inputs_frames ramPool 1568
    ramPool_laid lwipAllocedCustom (fun _ _ _ _ => rfl) _ _ hy
  exact ⟨_, by simp [hinputs], done, pending, rest, hlinked, hpending, hdone⟩

/-- The buffers of a frame have at most `RxBuffLen` bytes each. -/
theorem Holding.sumLen_le {m : Mem} {bytes : Addr → BitVec 8} {pStart pEnd : Addr}
    {gs : List Received} (h : Holding pool m bytes pStart pEnd gs) :
    sumLen (segments gs) ≤ gs.length * rxBuffLen := by
  have hsum := List.sum_le_card_nsmul ((segments gs).map fun g => g.length.toNat) rxBuffLen
    fun n hn => by
      obtain ⟨g, hg, rfl⟩ := List.mem_map.mp hn
      obtain ⟨r, hr, rfl⟩ := List.mem_map.mp hg
      exact h.length_le r hr
  simpa [sumLen, segments] using hsum

/-- The number of bytes of a frame. -/
theorem Holding.length_packetBytes {m : Mem} {bytes : Addr → BitVec 8} {pStart pEnd : Addr}
    {gs : List Received} (h : Holding pool m bytes pStart pEnd gs) :
    (packetBytes (fun a => (m a).pbuf) bytes ((segments gs).map Segment.pbuf)).length
      = sumLen (segments gs) := by
  rw [packetBytes, List.length_flatMap, List.map_map, sumLen]
  congr 1
  refine List.map_congr_left fun g hg => ?_
  rw [Function.comp_apply, h.len_eq hg, bytesAt, List.length_map, List.length_range]

/-- **lwIP's `tot_len` invariant.** Whenever `s_netif.input` is called, the frame is a non-empty
chain, the `tot_len` of each of its pbufs is its own `len` plus the `tot_len` of the next one, the
first `tot_len` is the number of bytes of the frame, and each payload lies in its pbuf's element.
The pool is too small for the 16-bit sums to overflow. -/
theorem input_totLen (pool : RxPool) (elemSize : ℕ) (hlaid : pool.Laid elemSize)
    (hcard : pool.elems.card * rxBuffLen < 2 ^ 16)
    (pbufAllocedCustom : BitVec 16 → Addr → BitVec 16 → Pbuf → Pbuf)
    (hpayload : ∀ l a n p, (pbufAllocedCustom l a n p).payload = a)
    (refuses : Multiset Addr → Prop) (x : Traced D)
    (h : (traced pool elemSize pbufAllocedCustom refuses).Reachable x) (p : Addr)
    (hinput : x.state.rx = .input p) :
    ∃ l, l ≠ [] ∧ MemChain x.state.shared.mem p l ∧
      (∀ q ∈ l, (x.state.shared.mem q).pbuf.totLen.toNat = (x.state.shared.mem q).pbuf.len.toNat +
        if x.state.shared.mem.next q = NULL then 0
        else (x.state.shared.mem (x.state.shared.mem.next q)).pbuf.totLen.toNat) ∧
      (x.state.shared.mem p).pbuf.totLen.toNat
        = (packetBytes (fun a => (x.state.shared.mem a).pbuf) x.bytes l).length ∧
      ∀ q ∈ l, extent (x.state.shared.mem q).pbuf.payload (x.state.shared.mem q).pbuf.len.toNat
        ⊆ extent q elemSize := by
  have hinv := inv_of_reachable (reachable_of_traced h)
  have hholds := holds_of_reachable hlaid hpayload h
  obtain ⟨done, pending, rest, hframes, -, hstage⟩ := hholds.stage
  cases hstage with
  | assembling stage holding => exact absurd stage (by simp [hinput, RxPc.stage])
  | ready stage ne holding => exact absurd stage (by simp [hinput, RxPc.stage])
  | @input f q pEnd stage pRxStart_eq holding =>
      obtain rfl : p = q := RxPc.input.inj (hinput.symm.trans (RxPc.eq_input stage))
      have hlast := (frames_last Received.last x.linked).1 f (by simp [hframes])
      obtain ⟨g, gs, hf⟩ : ∃ g gs, segments f = g :: gs := by
        obtain ⟨init, r, rfl, -⟩ := hlast
        exact List.exists_cons_of_ne_nil (by simp [segments])
      -- each segment has its own element
      have hlength : f.length ≤ pool.elems.card := by
        have hsub : ((segments f).map Segment.pbuf).toFinset ⊆ pool.elems := by
          intro a ha
          obtain ⟨g, hg, rfl⟩ := List.mem_map.mp (List.mem_toFinset.mp ha)
          obtain ⟨r, hr, rfl⟩ := List.mem_map.mp hg
          exact hinv.mem_elems (holding.mem_driver hinput hr)
        have hcard := Finset.card_le_card hsub
        rw [List.toFinset_card_of_nodup holding.built.chain.nodup] at hcard
        simpa [segments] using hcard
      have hsum : sumLen (segments f) < 65536 :=
        (holding.sumLen_le.trans (Nat.mul_le_mul_right _ hlength)).trans_lt hcard
      refine ⟨(segments f).map Segment.pbuf, by simp [hf], holding.built.chain, ?_, ?_, ?_⟩
      · intro q hq
        obtain ⟨g, hg, rfl⟩ := List.mem_map.mp hq
        obtain ⟨pre, suf, heq⟩ := List.append_of_mem hg
        exact holding.built.totLen_next hsum heq
      · have hp : p = g.pbuf := by
          have hbuilt := holding.built
          rw [hf] at hbuilt
          exact hbuilt.pStart_eq
        have htot := (holding.built.lens [] g gs hf).2
        rw [holding.length_packetBytes, hp]
        rw [← hf] at htot
        exact htot.trans (Nat.mod_eq_of_lt hsum)
      · intro q hq
        obtain ⟨g, hg, rfl⟩ := List.mem_map.mp hq
        rw [holding.len_eq hg]
        obtain ⟨r, hr, rfl⟩ := List.mem_map.mp hg
        rw [holding.payload r hr]
        have hbound := holding.length_le r hr
        have hfits := hlaid.fits
        have hbuff := rxBuffLen_le
        exact extent_add_subset (by omega)

/-- The `tot_len` of that frame is the number of its bytes. -/
theorem input_totLen_ramPool : ∃ (x : Traced 4) (l : List Addr), l ≠ [] ∧
    MemChain x.state.shared.mem 0x20000000 l ∧
      (x.state.shared.mem 0x20000000).pbuf.totLen.toNat
        = (packetBytes (fun a => (x.state.shared.mem a).pbuf) x.bytes l).length := by
  obtain ⟨x, hx, -, hrx⟩ := exists_input
  obtain ⟨l, hne, hchain, -, htot, -⟩ := input_totLen ramPool 1568 ramPool_laid
    (by rw [ramPool_card]; decide) lwipAllocedCustom (fun _ _ _ _ => rfl) _ x hx _ hrx
  exact ⟨x, l, hne, hchain, htot⟩

end Stm32Eth.Rx
