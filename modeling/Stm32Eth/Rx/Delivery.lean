import Stm32Eth.Rx.Frames
import Stm32Eth.Sys.Mailbox

/-!
# From the DMA to the `TCP/IP` thread

`init_task` gives the interface lwIP's `tcpip_input` as `s_netif.input`. It puts a frame into a
message and posts the message to the mailbox of the `TCP/IP` thread with `sys_mbox_trypost`, and it
returns `ERR_OK` exactly when the message got in; `ethernetif_input` frees the frame otherwise.
`Delivery` runs the traced machine of `Stm32Eth.Rx.Frames` with this mailbox, which other messages
share. lwIP works on a frame from when the thread has fetched its message until it releases it.

A frame that waits in the mailbox belongs to the stack, but nobody writes to it. So the frames the
thread fetches, and after them those that wait, are, byte for byte and in order, those of the stream
of linked buffers that were not dropped, and a frame is dropped only for want of a message or of
room in the mailbox (`delivered_frames`).
-/

namespace Stm32Eth.Rx

open Linked Ledger Extent
open Sys Transition

variable {D : ℕ} {pool : RxPool} {elemSize : ℕ}
  {pbufAllocedCustom : BitVec 16 → Addr → BitVec 16 → Pbuf → Pbuf} {refuses : Multiset Addr → Prop}

/-! ## The machine -/

/-- A message to the `TCP/IP` thread: a received frame, by its first pbuf, or any other one. -/
inductive TcpipMsg
  | inpkt (p : Addr)
  | other (id : Addr)
  deriving DecidableEq, Repr

/-- The frame of a message. -/
def TcpipMsg.packet : TcpipMsg → Option Addr
  | .inpkt p => some p
  | .other _ => none

/-- The frames of some messages. -/
def packets (msgs : List TcpipMsg) : List Addr := msgs.filterMap TcpipMsg.packet

/-- What `tcpip_input` has done with a frame: it has posted it, it had no message for it, or the
mailbox was full, with this many messages. -/
inductive Verdict
  | posted
  | noMessage
  | full (waiting : ℕ)
  deriving DecidableEq, Repr

/-- What `ethernetif_input` does when `s_netif.input` has returned `err`. -/
def inputEvent (err : SysErr) : Event := if err = .errOk then .accept else .reject

variable {queue : BoundedQueue TcpipMsg}

/-- The traced machine, the mailbox of the `TCP/IP` thread, the frames the thread has fetched and
not yet begun to release, what became of the frames given to `s_netif.input`, and what the thread
found in those it fetched, both in order. -/
structure Delivery (D : ℕ) (queue : BoundedQueue TcpipMsg) where
  rx : Traced D
  tcpipMbox : queue.Carrier
  processing : Multiset (List Addr)
  verdicts : List Verdict
  fetched : List Frame

/-- lwIP works on the frames the thread has fetched and on the one it releases. -/
def Delivery.InHand (s : Delivery D queue) (a : Addr) : Prop :=
  (∃ l ∈ s.processing, a ∈ l) ∨ a ∈ s.rx.state.tcpip.todo

/-- The steps, by what happens. -/
inductive DeliveryEvent
  | input
  | post
  | fetch
  | release
  | write
  | driver (e : Event)

section

variable (pool : RxPool) (elemSize : ℕ)
  (pbufAllocedCustom : BitVec 16 → Addr → BitVec 16 → Pbuf → Pbuf) (refuses : Multiset Addr → Prop)

/-- The steps of the receive path. -/
inductive DStep : Delivery D queue → DeliveryEvent → Delivery D queue → Prop
  /-- `tcpip_input` posts the frame, and `sys_mbox_trypost` gets it in. -/
  | posted {s : Delivery D queue} {x : Traced D} {q : queue.Carrier} {p : Addr}
      (input : s.rx.state.rx = .input p)
      (send : queue.send (.inpkt p) s.tcpipMbox = some q)
      (step : TStep pool elemSize pbufAllocedCustom refuses s.rx
        (some (inputEvent (sysMboxTrypost pdTrue).1)) x) :
      DStep s .input
        { s with rx := x, tcpipMbox := q, verdicts := s.verdicts ++ [.posted] }
  /-- `sys_mbox_trypost` finds the mailbox full. -/
  | full {s : Delivery D queue} {x : Traced D} {p : Addr} (input : s.rx.state.rx = .input p)
      (send : queue.send (.inpkt p) s.tcpipMbox = none)
      (step : TStep pool elemSize pbufAllocedCustom refuses s.rx
        (some (inputEvent (sysMboxTrypost errQueueFull).1)) x) :
      DStep s .input
        { s with
          rx := x
          verdicts := s.verdicts ++ [.full (queue.contents s.tcpipMbox).length] }
  /-- `tcpip_input` has no message for the frame. -/
  | noMessage {s : Delivery D queue} {x : Traced D}
      (step : TStep pool elemSize pbufAllocedCustom refuses s.rx
        (some (inputEvent .errMem)) x) :
      DStep s .input { s with rx := x, verdicts := s.verdicts ++ [.noMessage] }
  /-- Another message gets in. -/
  | postOther {s : Delivery D queue} {q : queue.Carrier} (id : Addr)
      (send : queue.send (.other id) s.tcpipMbox = some q) :
      DStep s .post { s with tcpipMbox := q }
  /-- The thread fetches a frame. -/
  | fetch {s : Delivery D queue} {q : queue.Carrier} {p : Addr}
      (receive : queue.receive s.tcpipMbox = some (.inpkt p, q)) :
      DStep s .fetch
        { s with
          tcpipMbox := q
          processing := nodes NULL s.rx.state.shared.mem.next p ::ₘ s.processing
          fetched := s.fetched ++ [observe s.rx.state.shared.mem s.rx.bytes p] }
  /-- The thread fetches another message. -/
  | fetchOther {s : Delivery D queue} {q : queue.Carrier} {id : Addr}
      (receive : queue.receive s.tcpipMbox = some (.other id, q)) :
      DStep s .fetch { s with tcpipMbox := q }
  /-- The thread begins to release a frame it has fetched. -/
  | release {s : Delivery D queue} {x : Traced D} {l : List Addr}
      {processing : Multiset (List Addr)} (fetched : s.processing = l ::ₘ processing)
      (step : TStep pool elemSize pbufAllocedCustom refuses s.rx (some .release) x)
      (freeing : x.state.tcpip = .freeing l) :
      DStep s .release { s with rx := x, processing := processing }
  /-- lwIP writes to pbufs, of the stack's only to those it works on. -/
  | lwipWrite {s : Delivery D queue} {x : Traced D}
      (step : TStep pool elemSize pbufAllocedCustom refuses s.rx (some .lwipWrite) x)
      (rule : ∀ p ∈ s.rx.state.heldByStack, ¬ s.InHand p →
        x.state.shared.mem p = s.rx.state.shared.mem p) :
      DStep s .write { s with rx := x }
  /-- The DMA and lwIP write to the memory, to the stack's elements only where lwIP works. -/
  | write {s : Delivery D queue} {x : Traced D}
      (step : TStep pool elemSize pbufAllocedCustom refuses s.rx none x)
      (rule : ∀ p ∈ s.rx.state.heldByStack, ¬ s.InHand p → ∀ a ∈ extent p elemSize,
        x.bytes a = s.rx.bytes a) :
      DStep s .write { s with rx := x }
  /-- The other steps of the receive machine. -/
  | driver {s : Delivery D queue} {x : Traced D} {e : Event}
      (he : e ≠ .accept ∧ e ≠ .reject ∧ e ≠ .release ∧ e ≠ .lwipWrite)
      (step : TStep pool elemSize pbufAllocedCustom refuses s.rx (some e) x) :
      DStep s (.driver e) { s with rx := x }

/-- The receive path, from the full pool and the empty mailbox, without a history. -/
def deliverySystem (queue : BoundedQueue TcpipMsg) : System (Delivery D queue) DeliveryEvent where
  init s := (traced pool elemSize pbufAllocedCustom refuses).init s.rx ∧
    queue.contents s.tcpipMbox = [] ∧ s.processing = 0 ∧ s.verdicts = [] ∧ s.fetched = []
  step := DStep pool elemSize pbufAllocedCustom refuses

end

/-- The receive path is the traced machine with a mailbox. -/
theorem delivery_simulation : System.Simulation
    (deliverySystem (D := D) pool elemSize pbufAllocedCustom refuses queue)
    (traced pool elemSize pbufAllocedCustom refuses) Delivery.rx fun _ => True where
  init s h := h.1
  step s e t _ hs := by
    cases hs with
    | posted input send step => exact .inr ⟨_, step⟩
    | full input send step => exact .inr ⟨_, step⟩
    | noMessage step => exact .inr ⟨_, step⟩
    | postOther id send => exact .inl rfl
    | fetch receive => exact .inl rfl
    | fetchOther receive => exact .inl rfl
    | release fetched step freeing => exact .inr ⟨_, step⟩
    | lwipWrite step rule => exact .inr ⟨_, step⟩
    | write step rule => exact .inr ⟨_, step⟩
    | driver he step => exact .inr ⟨_, step⟩

/-! ## What the other steps leave alone -/

/-- Nobody but lwIP writes to the pbufs of the stack. -/
theorem Inv.mem_stack {s t : State D} {e : Event} (h : Inv pool s)
    (hs : Step pool pbufAllocedCustom refuses s e t) (he : e ≠ .lwipWrite) {a : Addr}
    (ha : a ∈ ledger pool s .stack) : t.shared.mem a = s.shared.mem a := by
  cases hs with
  | link i fuel reading attached filled call =>
      have hown : (s.desc i).buff - pool.offsetofBuff ∈ ledger pool s (.descriptor i) :=
        Inv.attached_mem attached
      have happ := halEthRxLinkCallback_appended call h.chain h.last
        (pool.ne_null _ (h.mem_elems hown))
        fun hmem => h.not_mem hown .building (by simp) (Multiset.mem_coe.mpr hmem)
      refine happ.frame a fun hmem => ?_
      rcases List.mem_append.mp hmem with hbuilding | hlast
      · exact h.not_mem ha .building (by simp) (Multiset.mem_coe.mpr hbuilding)
      · rw [List.mem_singleton.mp hlast] at ha
        exact h.not_mem ha (.descriptor i) (by simp) hown
  | @refill ready p buff shared i reading detached answer call got =>
      obtain ⟨hp, -⟩ := got_of_ne answer call got
      have helem : p ∈ pool.elems := h.mem_elems (o := .rxPool) hp
      rw [halEthRxAllocateCallback_of_ne _ (pool.ne_null p helem)] at call
      obtain ⟨rfl, rfl⟩ := Prod.mk.inj call
      refine Function.update_of_ne ?_ _ _
      rintro rfl
      exact h.not_mem ha .rxPool (by simp) hp
  | refillNull i reading detached answer call none =>
      obtain ⟨-, rfl⟩ := h.refused answer call none
      rfl
  | rxFree freeing =>
      rw [h.callCustomFree_eq freeing]
      exact congrFun (pbufFreeCustom_mem _ _) a
  | lwipWrite mem frame keep => exact absurd rfl he
  | _ => rfl

/-- Frames change hands when they are accepted or released. -/
theorem Step.frames_eq {s t : State D} {e : Event}
    (hs : Step pool pbufAllocedCustom refuses s e t) (haccept : e ≠ .accept)
    (hrelease : e ≠ .release) : t.frames = s.frames := by
  cases hs with
  | accept input chain => exact absurd rfl haccept
  | release accepted idle => exact absurd rfl hrelease
  | _ => rfl

/-- What a step of the receive machine other than a call of `s_netif.input` does to the traced
machine. -/
theorem TStep.exists_step {x y : Traced D} {e : Event}
    (hs : TStep pool elemSize pbufAllocedCustom refuses x (some e) y) (haccept : e ≠ .accept)
    (hreject : e ≠ .reject) :
    Step pool pbufAllocedCustom refuses x.state e y.state ∧ y.bytes = x.bytes ∧
      y.inputs = x.inputs := by
  cases hs with
  | dmaComplete i length last attached empty bound =>
      exact ⟨.dmaComplete i length last attached empty, rfl, rfl⟩
  | link i filled step detached => exact ⟨step, rfl, rfl⟩
  | input he input step => exact (he.elim haccept hreject).elim
  | other he step => exact ⟨step, rfl, rfl⟩

/-- A call of `s_netif.input`. -/
theorem TStep.exists_input {x y : Traced D} {e : Event}
    (hs : TStep pool elemSize pbufAllocedCustom refuses x (some e) y)
    (he : e = .accept ∨ e = .reject) :
    ∃ p, x.state.rx = .input p ∧ Step pool pbufAllocedCustom refuses x.state e y.state ∧
      y.bytes = x.bytes ∧ y.inputs = x.inputs ++ [observe x.state.shared.mem x.bytes p] := by
  cases hs with
  | dmaComplete i length last attached empty bound => exact absurd he (by simp)
  | link i filled step detached => exact absurd he (by simp)
  | input _ input step => exact ⟨_, input, step, rfl, rfl⟩
  | other hne step => exact (he.elim hne.2.2.1 hne.2.2.2).elim

/-- What an accepted frame does to the receive machine. -/
theorem Step.exists_accept {s t : State D}
    (hs : Step pool pbufAllocedCustom refuses s .accept t) :
    ∃ p l, s.rx = .input p ∧ MemChain s.shared.mem p l ∧
      t = { s with frames := l ::ₘ s.frames, rx := .idle } := by
  cases hs with
  | accept input chain => exact ⟨_, _, input, chain, rfl⟩

/-- What the release of a frame does to it. -/
theorem Step.exists_release {s t : State D}
    (hs : Step pool pbufAllocedCustom refuses s .release t) :
    ∃ l frames, s.frames = l ::ₘ frames ∧ t = { s with frames := frames, tcpip := .freeing l } := by
  cases hs with
  | release accepted idle => exact ⟨_, _, accepted, rfl⟩

/-- The frame `s_netif.input` is about to be called on. -/
theorem Holds.exists_frame {x : Traced D} (h : Holds pool x) {p : Addr}
    (hrx : x.state.rx = .input p) :
    ∃ f pEnd, Holding pool x.state.shared.mem x.bytes p pEnd f := by
  obtain ⟨done, pending, rest, -, -, hstage⟩ := h.stage
  cases hstage with
  | assembling stage holding => exact absurd stage (by simp [hrx, RxPc.stage])
  | ready stage ne holding => exact absurd stage (by simp [hrx, RxPc.stage])
  | @input f q pEnd stage pRxStart_eq holding =>
      obtain rfl : p = q := RxPc.input.inj (hrx.symm.trans (RxPc.eq_input stage))
      exact ⟨f, pEnd, holding⟩

/-! ## The invariant -/

/-- One more message. -/
theorem packets_concat (msgs : List TcpipMsg) (msg : TcpipMsg) :
    packets (msgs ++ [msg]) = packets msgs ++ msg.packet.toList := by
  rw [packets, List.filterMap_append]
  cases msg with
  | inpkt p => rfl
  | other id => rfl

/-- The frames that were posted. -/
def posted (fs : List Frame) (vs : List Verdict) : List Frame :=
  ((fs.zip vs).filter fun fv => fv.2 = .posted).map Prod.fst

/-- One more frame is given to `s_netif.input`. -/
theorem posted_concat {fs : List Frame} {vs : List Verdict} (hlength : vs.length = fs.length)
    (f : Frame) (v : Verdict) :
    posted (fs ++ [f]) (vs ++ [v]) = posted fs vs ++ if v = .posted then [f] else [] := by
  rw [posted, List.zip_append hlength.symm, List.filter_append, List.map_append, ← posted]
  congr 1
  by_cases hv : v = .posted
  · simp [hv]
  · simp [hv]

/-- The pbufs of the frame of some received buffers. -/
def pbufs (gs : List Received) : List Addr := (segments gs).map Segment.pbuf

theorem mem_pbufs {gs : List Received} {g : Received} (hg : g ∈ gs) : g.pbuf ∈ pbufs gs := by
  rw [pbufs, segments, List.map_map]
  exact List.mem_map_of_mem (f := Segment.pbuf ∘ Received.toSegment) hg

/-- What holds in every reachable state, with the frames that wait in the mailbox: each is a frame
of the stack that is not in the thread's hands, and it still has what the DMA put there. The frames
that were posted are those the thread has fetched, and then these. -/
structure Delivers (pool : RxPool) (s : Delivery D queue) (waiting : List (Addr × List Received)) :
    Prop where
  packets : packets (queue.contents s.tcpipMbox) = waiting.map Prod.fst
  frames : s.rx.state.frames = s.processing + (waiting.map fun w => pbufs w.2 : List (List Addr))
  holding : ∀ w ∈ waiting, ∃ pEnd, Holding pool s.rx.state.shared.mem s.rx.bytes w.1 pEnd w.2
  length : s.verdicts.length = s.rx.inputs.length
  posted : posted s.rx.inputs s.verdicts = s.fetched ++ waiting.map fun w => frameOf w.2
  full : ∀ n, .full n ∈ s.verdicts → queue.length ≤ n
  room : (queue.contents s.tcpipMbox).length ≤ queue.length

namespace Delivers

variable {s : Delivery D queue} {waiting : List (Addr × List Received)} {w : Addr × List Received}
  {g : Received}

/-- What the stack holds: what the thread works on, and the frames that wait. -/
theorem heldByStack_eq (h : Delivers pool s waiting) :
    s.rx.state.heldByStack = ((s.processing.map fun l : List Addr => (l : Multiset Addr)).sum
        + (s.rx.state.tcpip.todo : Multiset Addr))
      + (waiting.map fun w => (pbufs w.2 : Multiset Addr)).sum := by
  rw [State.heldByStack, h.frames, Multiset.map_add, Multiset.sum_add, Multiset.map_coe,
    Multiset.sum_coe, List.map_map, add_right_comm]
  rfl

/-- The pbufs of a frame that waits. -/
theorem mem_waiting (hw : w ∈ waiting) (hg : g ∈ w.2) :
    g.pbuf ∈ (waiting.map fun w => (pbufs w.2 : Multiset Addr)).sum := by
  rw [← Multiset.sum_coe]
  refine Multiset.mem_join.mpr ⟨pbufs w.2, Multiset.mem_coe.mpr ?_, ?_⟩
  · exact List.mem_map_of_mem (f := fun w => (pbufs w.2 : Multiset Addr)) hw
  · exact Multiset.mem_coe.mpr (mem_pbufs hg)

/-- They belong to the stack. -/
theorem mem_stack (h : Delivers pool s waiting) (hw : w ∈ waiting) (hg : g ∈ w.2) :
    g.pbuf ∈ s.rx.state.heldByStack := by
  rw [h.heldByStack_eq]
  exact Multiset.mem_add.mpr (.inr (mem_waiting hw hg))

/-- They are not in the thread's hands. -/
theorem not_inHand (h : Delivers pool s waiting) (hinv : Inv pool s.rx.state) (hw : w ∈ waiting)
    (hg : g ∈ w.2) : ¬ s.InHand g.pbuf := by
  have hnodup : s.rx.state.heldByStack.Nodup := nodup_owner hinv.nodup .stack
  rw [h.heldByStack_eq, Multiset.nodup_add] at hnodup
  intro hhand
  refine Multiset.disjoint_left.mp hnodup.2.2 ?_ (mem_waiting hw hg)
  rcases hhand with ⟨l, hl, hmem⟩ | htodo
  · refine Multiset.mem_add.mpr (.inl (Multiset.mem_join.mpr ?_))
    exact ⟨l, Multiset.mem_map_of_mem _ hl, Multiset.mem_coe.mpr hmem⟩
  · exact Multiset.mem_add.mpr (.inr (Multiset.mem_coe.mpr htodo))

/-- The frames that wait survive every change outside their elements. -/
theorem holding_keep (h : Delivers pool s waiting) (hinv : Inv pool s.rx.state)
    (hlaid : pool.Laid elemSize) {x : Traced D}
    (hmem : ∀ p ∈ s.rx.state.heldByStack, ¬ s.InHand p →
      x.state.shared.mem p = s.rx.state.shared.mem p)
    (hbytes : ∀ p ∈ s.rx.state.heldByStack, ¬ s.InHand p → ∀ a ∈ extent p elemSize,
      x.bytes a = s.rx.bytes a) (hw : w ∈ waiting) :
    ∃ pEnd, Holding pool x.state.shared.mem x.bytes w.1 pEnd w.2 := by
  obtain ⟨pEnd, hholding⟩ := h.holding w hw
  refine ⟨pEnd, hholding.keep hlaid (fun g hg => ?_) fun g hg => ?_⟩
  · exact hmem _ (h.mem_stack hw hg) (h.not_inHand hinv hw hg)
  · exact hbytes _ (h.mem_stack hw hg) (h.not_inHand hinv hw hg)

/-- A step that leaves the mailbox, the frames and the history alone, and the elements of the stack
that the thread does not work on. -/
theorem quiet (h : Delivers pool s waiting) (hinv : Inv pool s.rx.state)
    (hlaid : pool.Laid elemSize) {x : Traced D} (hframes : x.state.frames = s.rx.state.frames)
    (hinputs : x.inputs = s.rx.inputs)
    (hmem : ∀ p ∈ s.rx.state.heldByStack, ¬ s.InHand p →
      x.state.shared.mem p = s.rx.state.shared.mem p)
    (hbytes : ∀ p ∈ s.rx.state.heldByStack, ¬ s.InHand p → ∀ a ∈ extent p elemSize,
      x.bytes a = s.rx.bytes a) : Delivers pool { s with rx := x } waiting where
  packets := h.packets
  frames := hframes.trans h.frames
  holding w hw := h.holding_keep hinv hlaid hmem hbytes hw
  length := by
    rw [hinputs]
    exact h.length
  posted := by
    rw [hinputs]
    exact h.posted
  full := h.full
  room := h.room

/-! ## One step -/

/-- `s_netif.input` drops a frame. -/
theorem dropped (h : Delivers pool s waiting) (hinv : Inv pool s.rx.state)
    (hlaid : pool.Laid elemSize) {x : Traced D}
    (hs : TStep pool elemSize pbufAllocedCustom refuses s.rx (some .reject) x) {v : Verdict}
    (hv : v ≠ .posted) (hfull : ∀ n, v = .full n → queue.length ≤ n) :
    Delivers pool { s with rx := x, verdicts := s.verdicts ++ [v] } waiting := by
  obtain ⟨p, -, hstep, hbytes, hinputs⟩ := hs.exists_input (.inr rfl)
  refine ⟨h.packets, ?_, fun w hw => ?_, ?_, ?_, fun n hn => ?_, h.room⟩
  · rw [← h.frames]
    exact hstep.frames_eq (by simp) (by simp)
  · exact h.holding_keep hinv hlaid (fun p hp _ => hinv.mem_stack hstep (by simp) hp)
      (fun p _ _ a _ => congrFun hbytes a) hw
  · simp [hinputs, h.length]
  · show Rx.posted x.inputs (s.verdicts ++ [v]) = _
    rw [hinputs, posted_concat h.length, if_neg hv, List.append_nil]
    exact h.posted
  · rcases List.mem_append.mp hn with hn | hn
    · exact h.full n hn
    · exact hfull n (List.mem_singleton.mp hn).symm

/-- `tcpip_input` posts a frame. -/
theorem input (h : Delivers pool s waiting) (hinv : Inv pool s.rx.state)
    (hholds : Holds pool s.rx) (hlaid : pool.Laid elemSize) {x : Traced D} {mbox : queue.Carrier}
    {p : Addr} (hrx : s.rx.state.rx = .input p)
    (hsend : queue.send (.inpkt p) s.tcpipMbox = some mbox)
    (hs : TStep pool elemSize pbufAllocedCustom refuses s.rx (some .accept) x) :
    ∃ f, Delivers pool
      { s with rx := x, tcpipMbox := mbox, verdicts := s.verdicts ++ [.posted] }
      (waiting ++ [(p, f)]) := by
  obtain ⟨q, hq, hstep, hbytes, hinputs⟩ := hs.exists_input (.inl rfl)
  obtain rfl : p = q := RxPc.input.inj (hrx.symm.trans hq)
  obtain ⟨f, pEnd, hholding⟩ := hholds.exists_frame hrx
  obtain ⟨r, l, hr, hchain, hx⟩ := hstep.exists_accept
  obtain rfl : p = r := RxPc.input.inj (hrx.symm.trans hr)
  obtain rfl : l = pbufs f := hchain.unique hholding.built.chain
  obtain ⟨hcontents, hroom⟩ := queue.contents_of_send hsend
  refine ⟨f, ?_, ?_, fun w hw => ?_, ?_, ?_, fun n hn => ?_, ?_⟩
  · show Rx.packets (queue.contents mbox) = _
    rw [hcontents, packets_concat, h.packets, List.map_append]
    rfl
  · show x.state.frames = _
    rw [hx, List.map_append, ← Multiset.coe_add, ← add_assoc, ← h.frames]
    exact (Multiset.singleton_add _ _).symm.trans (add_comm _ _)
  · rcases List.mem_append.mp hw with hw | hw
    · exact h.holding_keep hinv hlaid (fun p hp _ => hinv.mem_stack hstep (by simp) hp)
        (fun p _ _ a _ => congrFun hbytes a) hw
    · obtain rfl := List.mem_singleton.mp hw
      refine ⟨pEnd, ?_⟩
      rw [hx, hbytes]
      exact hholding
  · simp [hinputs, h.length]
  · show Rx.posted x.inputs (s.verdicts ++ [.posted]) = _
    rw [hinputs, posted_concat h.length, if_pos rfl, h.posted, hholding.observe_eq,
      List.map_append, List.append_assoc]
    rfl
  · rcases List.mem_append.mp hn with hn | hn
    · exact h.full n hn
    · exact absurd (List.mem_singleton.mp hn) (by simp)
  · show (queue.contents mbox).length ≤ _
    rw [hcontents, List.length_append]
    exact hroom

/-- The thread fetches the frame that has waited longest. -/
theorem fetch (h : Delivers pool s waiting) {mbox : queue.Carrier} {p : Addr}
    (hreceive : queue.receive s.tcpipMbox = some (.inpkt p, mbox)) :
    ∃ waiting', Delivers pool
      { s with
        tcpipMbox := mbox
        processing := nodes NULL s.rx.state.shared.mem.next p ::ₘ s.processing
        fetched := s.fetched ++ [observe s.rx.state.shared.mem s.rx.bytes p] } waiting' := by
  have hcontents := queue.contents_of_receive hreceive
  have hpackets := h.packets
  have hroom := h.room
  rw [hcontents] at hpackets hroom
  cases waiting with
  | nil => exact absurd hpackets (List.cons_ne_nil _ _)
  | cons w waiting =>
      obtain ⟨rfl, hrest⟩ := List.cons.inj hpackets
      obtain ⟨pEnd, hholding⟩ := h.holding w List.mem_cons_self
      refine ⟨waiting, hrest, ?_, fun v hv => ?_, h.length, ?_, h.full, ?_⟩
      · show s.rx.state.frames = (_ ::ₘ s.processing) + _
        rw [hholding.built.chain.nodes_eq, h.frames, Multiset.cons_add, List.map_cons,
          ← Multiset.cons_coe, Multiset.add_cons]
        rfl
      · exact h.holding v (List.mem_cons_of_mem _ hv)
      · show Rx.posted _ _ = (s.fetched ++ [_]) ++ _
        rw [h.posted, hholding.observe_eq, List.map_cons, List.append_assoc]
        rfl
      · exact (Nat.le_succ _).trans hroom

/-- Another message gets in. -/
theorem postOther (h : Delivers pool s waiting) {mbox : queue.Carrier} {id : Addr}
    (hsend : queue.send (.other id) s.tcpipMbox = some mbox) :
    Delivers pool { s with tcpipMbox := mbox } waiting := by
  obtain ⟨hcontents, hroom⟩ := queue.contents_of_send hsend
  refine ⟨?_, h.frames, h.holding, h.length, h.posted, h.full, ?_⟩
  · show Rx.packets (queue.contents mbox) = _
    rw [hcontents, packets_concat, ← h.packets]
    exact List.append_nil _
  · show (queue.contents mbox).length ≤ _
    rw [hcontents, List.length_append]
    exact hroom

/-- The thread fetches another message. -/
theorem fetchOther (h : Delivers pool s waiting) {mbox : queue.Carrier} {id : Addr}
    (hreceive : queue.receive s.tcpipMbox = some (.other id, mbox)) :
    Delivers pool { s with tcpipMbox := mbox } waiting := by
  have hcontents := queue.contents_of_receive hreceive
  have hpackets := h.packets
  have hroom := h.room
  rw [hcontents] at hpackets hroom
  exact ⟨hpackets, h.frames, h.holding, h.length, h.posted, h.full, (Nat.le_succ _).trans hroom⟩

/-- The thread begins to release a frame. -/
theorem release (h : Delivers pool s waiting) (hinv : Inv pool s.rx.state)
    (hlaid : pool.Laid elemSize) {x : Traced D} {l : List Addr} {processing : Multiset (List Addr)}
    (hfetched : s.processing = l ::ₘ processing)
    (hs : TStep pool elemSize pbufAllocedCustom refuses s.rx (some .release) x)
    (hfreeing : x.state.tcpip = .freeing l) :
    Delivers pool { s with rx := x, processing := processing } waiting := by
  obtain ⟨hstep, hbytes, hinputs⟩ := hs.exists_step (by simp) (by simp)
  obtain ⟨l', frames, hframes, hx⟩ := hstep.exists_release
  obtain rfl : l' = l := by
    rw [hx] at hfreeing
    exact TcpipPc.freeing.inj hfreeing
  refine ⟨h.packets, ?_, fun w hw => ?_, ?_, ?_, h.full, h.room⟩
  · have hsplit := h.frames
    rw [hframes, hfetched, Multiset.cons_add] at hsplit
    show x.state.frames = processing + _
    rw [hx]
    exact (Multiset.cons_inj_right _).mp hsplit
  · exact h.holding_keep hinv hlaid (fun p hp _ => hinv.mem_stack hstep (by simp) hp)
      (fun p _ _ a _ => congrFun hbytes a) hw
  · show s.verdicts.length = x.inputs.length
    rw [hinputs]
    exact h.length
  · show Rx.posted x.inputs s.verdicts = _
    rw [hinputs]
    exact h.posted

/-- **Step.** Every step of the receive path preserves the invariant. -/
theorem step {t : Delivery D queue} {e : DeliveryEvent} (h : Delivers pool s waiting)
    (hinv : Inv pool s.rx.state) (hholds : Holds pool s.rx) (hlaid : pool.Laid elemSize)
    (hs : DStep pool elemSize pbufAllocedCustom refuses s e t) :
    ∃ waiting', Delivers pool t waiting' := by
  cases hs with
  | posted input send step =>
      obtain ⟨f, hf⟩ := h.input hinv hholds hlaid input send step
      exact ⟨_, hf⟩
  | full input send step =>
      refine ⟨waiting, h.dropped hinv hlaid step (by simp) fun n hn => ?_⟩
      rw [← Verdict.full.inj hn]
      exact queue.full_of_send send
  | noMessage step => exact ⟨waiting, h.dropped hinv hlaid step (by simp) (by simp)⟩
  | postOther id send => exact ⟨waiting, h.postOther send⟩
  | fetch receive => exact h.fetch receive
  | fetchOther receive => exact ⟨waiting, h.fetchOther receive⟩
  | release fetched step freeing => exact ⟨waiting, h.release hinv hlaid fetched step freeing⟩
  | lwipWrite step rule =>
      obtain ⟨hstep, hbytes, hinputs⟩ := step.exists_step (by simp) (by simp)
      exact ⟨waiting, h.quiet hinv hlaid (hstep.frames_eq (by simp) (by simp)) hinputs rule
        fun p _ _ a _ => congrFun hbytes a⟩
  | write step rule =>
      cases step with
      | write bytes frame =>
          exact ⟨waiting, h.quiet hinv hlaid rfl rfl (fun _ _ _ => rfl) rule⟩
  | driver he step =>
      obtain ⟨haccept, hreject, hrelease, hwrite⟩ := he
      obtain ⟨hstep, hbytes, hinputs⟩ := step.exists_step haccept hreject
      exact ⟨waiting, h.quiet hinv hlaid (hstep.frames_eq haccept hrelease) hinputs
        (fun p hp _ => hinv.mem_stack hstep hwrite hp) fun p _ _ a _ => congrFun hbytes a⟩

end Delivers

/-! ## Every run -/

/-- What the receive path reaches, the traced machine reaches. -/
theorem reachable_of_delivery {s : Delivery D queue}
    (h : (deliverySystem pool elemSize pbufAllocedCustom refuses queue).Reachable s) :
    (traced pool elemSize pbufAllocedCustom refuses).Reachable s.rx :=
  delivery_simulation.reachable (fun _ _ => trivial) h

/-- **Run.** The invariant holds in every reachable state. -/
theorem delivers_of_reachable (hlaid : pool.Laid elemSize)
    (hpayload : ∀ l a n p, (pbufAllocedCustom l a n p).payload = a) {s : Delivery D queue}
    (h : (deliverySystem pool elemSize pbufAllocedCustom refuses queue).Reachable s) :
    ∃ waiting, Delivers pool s waiting := by
  refine h.invariant (P := fun s => ∃ waiting, Delivers pool s waiting) ?_ ?_
  · rintro s ⟨⟨⟨-, -, -, -, -, hframes, -⟩, -, hinputs⟩, hmbox, hprocessing, hverdicts, hfetched⟩
    refine ⟨[], ?_, ?_, by simp, ?_, ?_, ?_, ?_⟩
    · rw [hmbox]
      rfl
    · rw [hframes, hprocessing]
      rfl
    · rw [hverdicts, hinputs]
      rfl
    · rw [hverdicts, hinputs, hfetched]
      rfl
    · simp [hverdicts]
    · rw [hmbox]
      exact Nat.zero_le _
  · rintro s e t hr ⟨waiting, hwaiting⟩ hs
    have htraced := reachable_of_delivery hr
    exact hwaiting.step (inv_of_reachable (reachable_of_traced htraced))
      (holds_of_reachable hlaid hpayload htraced) hlaid hs

/-- **From the DMA to the thread.** In every run of the receive path, whatever else uses the
mailbox: the complete frames of the stream of linked buffers are given to `s_netif.input` in order,
with at most one still to come. Those it has posted are, in order and once each, the frames the
`TCP/IP` thread has found in the mailbox and then the frames that wait there, each with one pbuf for
each buffer, its `len` and `tot_len`, and the bytes the DMA had put into the buffers. Never more
frames wait than the mailbox has places, and a frame is dropped for a full mailbox only when all
places are taken. -/
theorem delivered_frames (pool : RxPool) (elemSize : ℕ) (hlaid : pool.Laid elemSize)
    (pbufAllocedCustom : BitVec 16 → Addr → BitVec 16 → Pbuf → Pbuf)
    (hpayload : ∀ l a n p, (pbufAllocedCustom l a n p).payload = a)
    (refuses : Multiset Addr → Prop) (queue : BoundedQueue TcpipMsg) (s : Delivery D queue)
    (h : (deliverySystem pool elemSize pbufAllocedCustom refuses queue).Reachable s) :
    ∃ (done pending : List (List Received)) (rest : List Received),
      s.rx.linked = (done ++ pending).flatten ++ rest ∧
      (∀ f ∈ done ++ pending, ∃ init g, f = init ++ [g] ∧ g.last = true ∧
        ∀ g' ∈ init, g'.last = false) ∧
      (∀ g ∈ rest, g.last = false) ∧ pending.length ≤ 1 ∧
      s.verdicts.length = done.length ∧
      posted (done.map frameOf) s.verdicts = s.fetched ++
        (packets (queue.contents s.tcpipMbox)).map (observe s.rx.state.shared.mem s.rx.bytes) ∧
      (packets (queue.contents s.tcpipMbox)).length ≤ queue.length ∧
      ∀ n, .full n ∈ s.verdicts → queue.length ≤ n := by
  have hholds := holds_of_reachable hlaid hpayload (reachable_of_delivery h)
  obtain ⟨done, pending, rest, hlinked, hends, hrest, hpending, hinputs⟩ := hholds.exists_frames
  obtain ⟨waiting, hwaiting⟩ := delivers_of_reachable hlaid hpayload h
  refine ⟨done, pending, rest, hlinked, hends, hrest, hpending, ?_, ?_, ?_, hwaiting.full⟩
  · rw [hwaiting.length, hinputs, List.length_map]
  · -- each frame that waits still has what the DMA put there
    rw [← hinputs, hwaiting.posted, hwaiting.packets, List.map_map]
    congr 1
    refine List.map_congr_left fun w hw => ?_
    obtain ⟨pEnd, hholding⟩ := hwaiting.holding w hw
    exact hholding.observe_eq.symm
  · exact (List.length_filterMap_le _ _).trans hwaiting.room

/-- The receive path on `ramPool` before its first step, with a mailbox of `TCPIP_MBOX_SIZE`
places. -/
def deliveryStart : Delivery 4 (.list TcpipMsg 20) where
  rx := tracedStart
  tcpipMbox := []
  processing := 0
  verdicts := []
  fetched := []

/-- The first frame of `ramPool` waits in the mailbox. -/
theorem exists_waiting : ∃ s : Delivery 4 (.list TcpipMsg 20),
    (deliverySystem ramPool 1568 lwipAllocedCustom (· = 0) (.list TcpipMsg 20)).Reachable s ∧
      s.tcpipMbox = [.inpkt 0x20000000] ∧ s.verdicts = [.posted] ∧ s.fetched = [] ∧
      s.rx.linked.length = 1 ∧ s.rx.state.rx = .idle ∧
      s.rx.state.shared.rxAllocStatus = .rxAllocOk := by
  have hstart : (deliverySystem ramPool 1568 lwipAllocedCustom (· = 0)
      (.list TcpipMsg 20)).Reachable deliveryStart :=
    .init ⟨⟨State.start_init _ _ _ _, rfl, rfl⟩, rfl, rfl, rfl, rfl⟩
  -- a first call of `HAL_ETH_ReadData` gives a descriptor a buffer, and the DMA fills it
  have hpoll := hstart.step (.driver (by decide) (.other (by decide) (.pollRead rfl rfl)))
  have hrefill := hpoll.step (.driver (by decide) (.other (by decide)
    (.refill (p := 0x20000000) 0 rfl rfl (.inl (by decide)) rfl (by decide))))
  have hnone := hrefill.step (.driver (by decide) (.other (by decide) (.readError rfl)))
  have hdma := hnone.step (.driver (by decide)
    (.dmaComplete 0 60 true (by decide) rfl (by decide)))
  -- a second one returns the frame
  have hpoll' := hdma.step (.driver (by decide) (.other (by decide) (.pollRead rfl rfl)))
  have hlink := hpoll'.step (.driver (by decide)
    (.link 0 rfl (.link 0 3 rfl (by decide) rfl rfl) rfl))
  have hread := hlink.step (.driver (by decide) (.other (by decide) (.readOk rfl)))
  have hchain := (inv_of_reachable (reachable_of_traced (reachable_of_delivery hread))).input _ rfl
  exact ⟨_, hread.step (.posted (q := [.inpkt 0x20000000]) rfl rfl
    (.input (.inl rfl) rfl (.accept rfl hchain))), rfl, rfl, rfl, rfl, rfl, rfl⟩

/-- The first frame of `ramPool` gets to the `TCP/IP` thread. -/
theorem delivered_frames_ramPool :
    ∃ (s : Delivery 4 (.list TcpipMsg 20)) (done : List (List Received)),
      s.verdicts = [.posted] ∧ s.fetched.length = 1 ∧ s.verdicts.length = done.length ∧
      posted (done.map frameOf) s.verdicts = s.fetched ++
        (packets s.tcpipMbox).map (observe s.rx.state.shared.mem s.rx.bytes) := by
  obtain ⟨s, hs, hmbox, hverdicts, hfetched, -⟩ := exists_waiting
  obtain ⟨t, ht, hverdicts, hfetched⟩ : ∃ t, (deliverySystem ramPool 1568 lwipAllocedCustom (· = 0)
      (.list TcpipMsg 20)).Reachable t ∧ t.verdicts = [.posted] ∧ t.fetched.length = 1 :=
    ⟨_, hs.step (.fetch (q := []) (p := 0x20000000) (by rw [hmbox]; rfl)), hverdicts,
      by simp [hfetched]⟩
  obtain ⟨done, -, -, -, -, -, -, hlength, hframes, -⟩ := delivered_frames ramPool 1568 ramPool_laid
    lwipAllocedCustom (fun _ _ _ _ => rfl) _ _ _ ht
  exact ⟨t, done, hverdicts, hfetched, hlength, hframes⟩

end Stm32Eth.Rx
