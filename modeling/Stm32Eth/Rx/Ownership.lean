import Stm32Eth.Lib.Ledger
import Stm32Eth.Rx.LinkChain
import Stm32Eth.Rx.Machine
import Mathlib.Data.Fintype.Sum
import Mathlib.Tactic.DeriveFintype

/-!
# Ownership of the receive buffers

Abstractly, a receive buffer has one of these owners: the pool, a descriptor, the frame under
construction, the task `ethif_in` or the stack. `ledger` reads off a state what each owner holds,
and `Edge` is the graph along which buffers move. Every step of the receive machine leaves the
ledger unchanged or moves buffers along one edge (`Step.moves`), so the machine refines the moves of
the graph and no run loses or duplicates a buffer.

The invariant `Inv` carries what a single step needs: the chains of the frame under construction and
of a finished frame are well formed, and a pbuf outside the pool has its free function.
-/

namespace Stm32Eth.Rx

open Linked Ledger

variable {D : ℕ} {pool : RxPool}
  {pbufAllocedCustom : BitVec 16 → Addr → BitVec 16 → Pbuf → Pbuf} {refuses : Multiset Addr → Prop}

/-! ## Owners -/

/-- The owners of receive buffers. -/
inductive Owner (D : ℕ)
  /-- free in `RX_POOL` -/
  | rxPool
  /-- attached to a receive descriptor -/
  | descriptor (i : Fin D)
  /-- in the chain of the frame under construction -/
  | building
  /-- in a finished frame that `ethernetif_input` hands over or frees -/
  | driver
  /-- in a frame the stack accepted and has not returned -/
  | stack
  deriving DecidableEq, Fintype

/-- The pool element whose buffer a descriptor holds. -/
def RxDesc.attached (pool : RxPool) (d : RxDesc) : Multiset Addr :=
  if d.buff = NULL then 0 else {d.buff - pool.offsetofBuff}

/-- The pbufs of the frame under construction. -/
noncomputable def State.building (s : State D) : List Addr :=
  nodes NULL s.shared.mem.next s.pRxStart

/-- The pbufs the task `ethif_in` holds between `low_level_input` and the end of its loop body. -/
noncomputable def RxPc.held (m : Mem) : RxPc → List Addr
  | .idle => []
  | .reading _ _ => []
  | .input p => nodes NULL m.next p
  | .freeing todo => todo

@[simp] theorem RxPc.held_idle (m : Mem) : RxPc.idle.held m = [] := rfl

@[simp] theorem RxPc.held_reading (m : Mem) (refill ready : Bool) :
    (RxPc.reading refill ready).held m = [] := rfl

@[simp] theorem RxPc.held_input (m : Mem) (p : Addr) :
    (RxPc.input p).held m = nodes NULL m.next p := rfl

@[simp] theorem RxPc.held_freeing (m : Mem) (todo : List Addr) :
    (RxPc.freeing todo).held m = todo := rfl

/-- What each owner holds. -/
noncomputable def ledger (pool : RxPool) (s : State D) : Owner D → Multiset Addr
  | .rxPool => s.shared.rxPool
  | .descriptor i => (s.desc i).attached pool
  | .building => s.building
  | .driver => s.rx.held s.shared.mem
  | .stack => s.heldByStack

/-- The moves of buffers between owners. -/
inductive Edge : Owner D → Owner D → Prop
  | allocate (i : Fin D) : Edge .rxPool (.descriptor i)
  | link (i : Fin D) : Edge (.descriptor i) .building
  | readData : Edge .building .driver
  | accept : Edge .driver .stack
  | reject : Edge .driver .rxPool
  | release : Edge .stack .rxPool

@[simp] theorem RxDesc.attached_of_null (d : RxDesc) (h : d.buff = NULL) :
    d.attached pool = 0 := by
  rw [RxDesc.attached, if_pos h]

theorem RxDesc.attached_of_ne (d : RxDesc) (h : d.buff ≠ NULL) :
    d.attached pool = {d.buff - pool.offsetofBuff} := by
  rw [RxDesc.attached, if_neg h]

/-- A descriptor holds at most one buffer. -/
theorem RxDesc.card_attached_le (d : RxDesc) : Multiset.card (d.attached pool) ≤ 1 := by
  by_cases h : d.buff = NULL
  · simp [h]
  · simp [d.attached_of_ne h]

/-- `ethif_in` holds the chain of the frame it is about to hand over, if it is not null. -/
theorem held_afterInput (m : Mem) (p : Addr) : (afterInput p).held m = nodes NULL m.next p := by
  by_cases hp : p = NULL
  · rw [afterInput, if_pos hp, hp, nodes_null]
    rfl
  · rw [afterInput, if_neg hp]
    rfl

theorem cons_eq_add (p : Addr) (l : Multiset Addr) : p ::ₘ l = l + {p} := by
  rw [← Multiset.singleton_add, add_comm]

/-! ## The invariant -/

/-- The invariant of the receive machine. -/
structure Inv (pool : RxPool) (s : State D) : Prop where
  total_eq : total (ledger pool s) = pool.elems.val
  chain : MemChain s.shared.mem s.pRxStart s.building
  last : s.building = [] ∨ ∃ init, s.building = init ++ [s.pRxEnd]
  input : ∀ p, s.rx = .input p → MemChain s.shared.mem p (s.rx.held s.shared.mem)
  customFree : ∀ p ∈ pool.elems, p ∉ s.shared.rxPool →
    (s.shared.mem p).customFreeFunction = some .pbufFreeCustom

namespace Inv

variable {s : State D}

/-- No buffer is in the ledger twice. -/
theorem nodup (h : Inv pool s) : (total (ledger pool s)).Nodup :=
  h.total_eq ▸ pool.elems.nodup

/-- What an owner holds are elements of the pool. -/
theorem mem_elems (h : Inv pool s) {p : Addr} {o : Owner D} (hp : p ∈ ledger pool s o) :
    p ∈ pool.elems := by
  have hmem := mem_total.mpr ⟨o, hp⟩
  rwa [h.total_eq] at hmem

/-- A buffer with one owner has no other one. -/
theorem not_mem (h : Inv pool s) {p : Addr} {o : Owner D} (hp : p ∈ ledger pool s o)
    (o' : Owner D) (hne : o ≠ o') : p ∉ ledger pool s o' :=
  fun hp' => hne (owner_unique h.nodup hp hp')

/-- A pbuf outside the pool has its free function. -/
theorem customFree_of_mem (h : Inv pool s) {p : Addr} {o : Owner D} (hp : p ∈ ledger pool s o)
    (hne : o ≠ .rxPool) : (s.shared.mem p).customFreeFunction = some .pbufFreeCustom :=
  h.customFree p (h.mem_elems hp) (h.not_mem hp .rxPool hne)

end Inv

/-- The initial full pool meets the invariant. -/
theorem inv_of_init {s : State D} (h : (system pool pbufAllocedCustom refuses).init s) :
    Inv pool s := by
  obtain ⟨hpool, -, hdesc, hstart, hrx, hframes, htcpip⟩ := h
  have hbuilding : s.building = [] := by
    rw [State.building, hstart, nodes_null]
  refine ⟨?_, ?_, .inl hbuilding, ?_, ?_⟩
  · have hledger : ∀ o, ledger pool s o = if o = .rxPool then pool.elems.val else 0 := by
      intro o
      cases o with
      | rxPool => simpa [ledger] using hpool
      | descriptor i => simp [ledger, hdesc i]
      | building => simp [ledger, hbuilding]
      | driver => simp [ledger, hrx]
      | stack => simp [ledger, State.heldByStack, hframes, htcpip, TcpipPc.todo]
    rw [total, Finset.sum_congr rfl fun o _ => hledger o, Finset.sum_ite_eq',
      if_pos (Finset.mem_univ _)]
  · rw [hbuilding, hstart]
    exact .nil
  · intro p hp
    rw [hrx] at hp
    exact absurd hp (by simp)
  · intro p hp hfree
    rw [hpool] at hfree
    exact absurd hp hfree

/-! ## The steps -/

/-- The frame under construction survives every change outside its pbufs. -/
theorem Inv.building_frame {s t : State D} (h : Inv pool s) (hstart : t.pRxStart = s.pRxStart)
    (hmem : ∀ a ∈ s.building, t.shared.mem.next a = s.shared.mem.next a) :
    t.building = s.building ∧ MemChain t.shared.mem t.pRxStart t.building := by
  have hchain : MemChain t.shared.mem t.pRxStart s.building := by
    rw [hstart]
    exact h.chain.frame hmem
  have hbuilding : t.building = s.building := hchain.nodes_eq
  exact ⟨hbuilding, hbuilding ▸ hchain⟩

/-- A step that leaves the pbufs and the frame under construction alone and takes no buffer out of
the pool preserves the invariant if it preserves the total. -/
theorem Inv.keep {s t : State D} (h : Inv pool s)
    (htotal : total (ledger pool t) = total (ledger pool s))
    (hpool : ∀ p ∈ s.shared.rxPool, p ∈ t.shared.rxPool) (hmem : t.shared.mem = s.shared.mem)
    (hstart : t.pRxStart = s.pRxStart) (hend : t.pRxEnd = s.pRxEnd)
    (hinput : ∀ p, t.rx = .input p → s.rx = .input p) : Inv pool t := by
  obtain ⟨hbuilding, hchain⟩ := h.building_frame hstart fun a _ => by rw [hmem]
  refine ⟨?_, hchain, ?_, ?_, ?_⟩
  · rw [htotal, h.total_eq]
  · rw [hbuilding, hend]
    exact h.last
  · intro p hp
    rw [hp, hmem, ← hinput p hp]
    exact h.input p (hinput p hp)
  · intro p hp hfree
    rw [hmem]
    exact h.customFree p hp fun hmem' => hfree (hpool p hmem')

/-- The ledger depends on the free elements, the buffers of the descriptors and the three kinds of
chains. -/
theorem ledger_congr {s t : State D} (hpool : t.shared.rxPool = s.shared.rxPool)
    (hdesc : ∀ i, (t.desc i).buff = (s.desc i).buff) (hbuilding : t.building = s.building)
    (hheld : t.rx.held t.shared.mem = s.rx.held s.shared.mem)
    (hstack : t.heldByStack = s.heldByStack) : ledger pool t = ledger pool s := by
  funext o
  cases o with
  | rxPool => exact hpool
  | descriptor i => simp only [ledger, RxDesc.attached, hdesc i]
  | building => simp only [ledger, hbuilding]
  | driver => simp only [ledger, hheld]
  | stack => exact hstack

/-- What a step does to the ledger: nothing, or a move of buffers along an edge. -/
def Moved (L L' : Owner D → Multiset Addr) : Prop :=
  L' = L ∨ ∃ o o' m, Edge o o' ∧ Transfer o o' m L L'

/-- A step that leaves the free elements, the buffers of the descriptors, the pbufs and the chains
alone. -/
theorem Inv.same {s t : State D} (h : Inv pool s) (hpool : t.shared.rxPool = s.shared.rxPool)
    (hmem : t.shared.mem = s.shared.mem) (hdesc : ∀ i, (t.desc i).buff = (s.desc i).buff)
    (hstart : t.pRxStart = s.pRxStart) (hend : t.pRxEnd = s.pRxEnd)
    (hheld : t.rx.held t.shared.mem = s.rx.held s.shared.mem)
    (hinput : ∀ p, t.rx = .input p → s.rx = .input p) (hstack : t.heldByStack = s.heldByStack) :
    Moved (ledger pool s) (ledger pool t) ∧ Inv pool t := by
  have hbuilding := (h.building_frame hstart fun a _ => by rw [hmem]).1
  have hledger : ledger pool t = ledger pool s := ledger_congr hpool hdesc hbuilding hheld hstack
  exact ⟨.inl hledger, h.keep (congrArg total hledger) (fun p hp => hpool ▸ hp) hmem hstart hend
    hinput⟩

/-- A step of `ethif_in` that moves no buffer, and may store to `RxAllocStatus`. -/
theorem Inv.setRx {s : State D} (h : Inv pool s) (status : RxAllocStatus) {rx : RxPc}
    (hheld : rx.held s.shared.mem = s.rx.held s.shared.mem) (hinput : ∀ p, rx ≠ .input p) :
    Moved (ledger pool s) (ledger pool
        { s with shared := { s.shared with rxAllocStatus := status }, rx := rx }) ∧
      Inv pool { s with shared := { s.shared with rxAllocStatus := status }, rx := rx } :=
  h.same rfl rfl (fun _ => rfl) rfl rfl hheld (fun p hp => absurd hp (hinput p)) rfl

/-- A step of the `TCP/IP` thread that leaves every pbuf with the stack, and may store to
`RxAllocStatus`. -/
theorem Inv.setTcpip {s : State D} (h : Inv pool s) (status : RxAllocStatus)
    {frames : Multiset (List Addr)} {tcpip : TcpipPc}
    (hstack : (frames.map fun l : List Addr => (l : Multiset Addr)).sum
      + (tcpip.todo : Multiset Addr) = s.heldByStack) :
    Moved (ledger pool s) (ledger pool { s with
        shared := { s.shared with rxAllocStatus := status }, frames := frames, tcpip := tcpip }) ∧
      Inv pool { s with
        shared := { s.shared with rxAllocStatus := status }, frames := frames, tcpip := tcpip } :=
  h.same rfl rfl (fun _ => rfl) rfl rfl rfl (fun _ hp => hp) hstack

/-- What `ethif_in` or the stack holds moves: to the stack, or back into the pool. -/
theorem Inv.handOver {s t : State D} (h : Inv pool s) {o o' : Owner D} {m : Multiset Addr}
    (hedge : Edge o o') (htransfer : Transfer o o' m (ledger pool s) (ledger pool t))
    (hpool : ∀ p ∈ s.shared.rxPool, p ∈ t.shared.rxPool) (hmem : t.shared.mem = s.shared.mem)
    (hstart : t.pRxStart = s.pRxStart) (hend : t.pRxEnd = s.pRxEnd)
    (hinput : ∀ p, t.rx = .input p → s.rx = .input p) :
    Moved (ledger pool s) (ledger pool t) ∧ Inv pool t :=
  ⟨.inr ⟨o, o', m, hedge, htransfer⟩, h.keep htransfer.total_eq hpool hmem hstart hend hinput⟩

/-- The link callback moves the buffer of its descriptor into the frame under construction. -/
theorem Inv.link {s t : State D} (h : Inv pool s) {length : BitVec 16} {f : FrameState} {fuel : ℕ}
    {i : Fin D} (hattached : (s.desc i).buff ≠ NULL)
    (hcall : halEthRxLinkCallback pool fuel (s.desc i).buff length
      ⟨s.shared.mem, s.pRxStart, s.pRxEnd⟩ = some f)
    (hshared : t.shared = { s.shared with mem := f.mem }) (hstart : t.pRxStart = f.pStart)
    (hend : t.pRxEnd = f.pEnd)
    (hdesc : t.desc = Function.update s.desc i { buff := NULL, filled := none })
    (hreading : ∃ refill ready, s.rx = .reading refill ready)
    (hreading' : ∃ refill ready, t.rx = .reading refill ready)
    (hstack : t.heldByStack = s.heldByStack) :
    Moved (ledger pool s) (ledger pool t) ∧ Inv pool t := by
  obtain ⟨_, _, hrx⟩ := hreading
  obtain ⟨_, _, hrx'⟩ := hreading'
  have hown : (s.desc i).buff - pool.offsetofBuff ∈ ledger pool s (.descriptor i) := by
    simp [ledger, (s.desc i).attached_of_ne hattached]
  generalize hp : (s.desc i).buff - pool.offsetofBuff = p at hown
  have hne : p ≠ NULL := pool.ne_null p (h.mem_elems hown)
  have hfresh : p ∉ s.building := fun hmem =>
    h.not_mem hown .building (by simp) (Multiset.mem_coe.mpr hmem)
  have happ := halEthRxLinkCallback_appended hcall h.chain h.last (hp ▸ hne) (hp ▸ hfresh)
  rw [hp] at happ
  have hbuilding : t.building = s.building ++ [p] := by
    rw [State.building, hshared, hstart]
    exact happ.chain.nodes_eq
  have htransfer : Transfer (.descriptor i) .building {p} (ledger pool s) (ledger pool t) := by
    intro o
    cases o with
    | rxPool => simp [ledger, hshared]
    | descriptor j =>
        by_cases hj : j = i
        · subst hj
          simp [ledger, hdesc, (s.desc j).attached_of_ne hattached, hp]
        · simp [ledger, hdesc, hj]
    | building => simp [ledger, hbuilding, ← Multiset.coe_add]
    | driver => simp [ledger, hrx, hrx']
    | stack => simp [ledger, hstack]
  refine ⟨.inr ⟨_, _, _, .link i, htransfer⟩, ?_, ?_, ?_, ?_, ?_⟩
  · rw [htransfer.total_eq, h.total_eq]
  · rw [hbuilding, hshared, hstart]
    exact happ.chain
  · refine .inr ⟨s.building, ?_⟩
    rw [hbuilding, hend, happ.pEnd_eq]
  · intro q hq
    rw [hrx'] at hq
    exact absurd hq (by simp)
  · intro q hq hfree
    rw [hshared] at hfree ⊢
    -- linking changes only the `struct pbuf` of the chain's elements
    refine Eq.trans ?_ (h.customFree q hq hfree)
    by_cases hqp : q = p
    · rw [hqp]
      simp only [happ.new]
    · by_cases hmem : q ∈ s.building
      · exact (happ.old q hmem).2.2
      · simp only [happ.frame q (by simp [hmem, hqp])]

/-- The allocate callback moves a free element to a descriptor without a buffer. -/
theorem Inv.allocate {s t : State D} (h : Inv pool s) {p : Addr} (hp : p ∈ s.shared.rxPool)
    {i : Fin D} (hdetached : (s.desc i).buff = NULL)
    (hshared : t.shared = (halEthRxAllocateCallback pool pbufAllocedCustom p s.shared).2)
    (hdesc : t.desc = Function.update s.desc i
      { buff := (halEthRxAllocateCallback pool pbufAllocedCustom p s.shared).1, filled := none })
    (hstart : t.pRxStart = s.pRxStart) (hend : t.pRxEnd = s.pRxEnd)
    (hreading : ∃ refill ready, s.rx = .reading refill ready) (hrx : t.rx = s.rx)
    (hstack : t.heldByStack = s.heldByStack) :
    Moved (ledger pool s) (ledger pool t) ∧ Inv pool t := by
  obtain ⟨_, _, hreading⟩ := hreading
  have hown : p ∈ ledger pool s .rxPool := hp
  have helem : p ∈ pool.elems := h.mem_elems hown
  rw [halEthRxAllocateCallback_of_ne s.shared (pool.ne_null p helem)] at hshared hdesc
  dsimp only at hshared hdesc
  have hattached : RxDesc.attached pool ⟨p + pool.offsetofBuff, none⟩ = {p} := by
    rw [RxDesc.attached_of_ne _ (pool.buff_ne_null p helem), BitVec.add_sub_cancel]
  have hmem : ∀ a, a ≠ p → t.shared.mem a = s.shared.mem a := by
    intro a ha
    rw [hshared]
    exact Function.update_of_ne ha _ _
  obtain ⟨hbuilding, hchain⟩ := h.building_frame hstart fun a ha => by
    have hap : a ≠ p := by
      rintro rfl
      exact h.not_mem hown .building (by simp) (Multiset.mem_coe.mpr ha)
    simp only [Mem.next, hmem a hap]
  have htransfer : Transfer .rxPool (.descriptor i) {p} (ledger pool s) (ledger pool t) := by
    intro o
    cases o with
    | rxPool =>
        simp only [ledger, hshared, if_true, reduceCtorEq, if_false, add_zero]
        rw [add_comm, Multiset.singleton_add, Multiset.cons_erase hp]
    | descriptor j =>
        by_cases hj : j = i
        · subst hj
          simp [ledger, hdesc, hdetached, hattached]
        · simp [ledger, hdesc, hj]
    | building => simp [ledger, hbuilding]
    | driver => simp [ledger, hrx, hreading]
    | stack => simp [ledger, hstack]
  refine ⟨.inr ⟨_, _, _, .allocate i, htransfer⟩, ?_, hchain, ?_, ?_, ?_⟩
  · rw [htransfer.total_eq, h.total_eq]
  · rw [hbuilding, hend]
    exact h.last
  · intro q hq
    rw [hrx, hreading] at hq
    exact absurd hq (by simp)
  · intro q hq hfree
    by_cases hqp : q = p
    · rw [hqp, hshared]
      simp only [Function.update_self]
    · rw [hmem q hqp]
      refine h.customFree q hq fun hmem' => hfree ?_
      rw [hshared]
      exact (Multiset.mem_erase_of_ne hqp).mpr hmem'

/-- `HAL_ETH_ReadData` returns the frame under construction to `ethernetif_input`. -/
theorem Inv.readData {s t : State D} (h : Inv pool s) (hshared : t.shared = s.shared)
    (hdesc : t.desc = s.desc) (hstart : t.pRxStart = NULL)
    (hreading : ∃ refill ready, s.rx = .reading refill ready) (hrx : t.rx = afterInput s.pRxStart)
    (hstack : t.heldByStack = s.heldByStack) :
    Moved (ledger pool s) (ledger pool t) ∧ Inv pool t := by
  obtain ⟨_, _, hreading⟩ := hreading
  have hbuilding : t.building = [] := by
    rw [State.building, hstart, nodes_null]
  have hheld : t.rx.held t.shared.mem = s.building := by
    rw [hrx, hshared, held_afterInput, State.building]
  have htransfer : Transfer .building .driver s.building (ledger pool s) (ledger pool t) := by
    intro o
    cases o with
    | rxPool => simp [ledger, hshared]
    | descriptor j => simp [ledger, hdesc]
    | building => simp [ledger, hbuilding]
    | driver => simp [ledger, hheld, hreading]
    | stack => simp [ledger, hstack]
  refine ⟨.inr ⟨_, _, _, .readData, htransfer⟩, ?_, ?_, .inl hbuilding, ?_, ?_⟩
  · rw [htransfer.total_eq, h.total_eq]
  · rw [hbuilding, hstart]
    exact .nil
  · intro p hp
    obtain rfl : p = s.pRxStart := by
      rw [hrx, afterInput] at hp
      split at hp
      · exact absurd hp (by simp)
      · exact (RxPc.input.inj hp).symm
    rw [hheld, hshared]
    exact h.chain
  · rw [hshared]
    exact h.customFree

/-- The pbufs of a rejected frame have their free function. -/
theorem Inv.callCustomFree_eq {s : State D} (h : Inv pool s) {p : Addr} {todo : List Addr}
    (hrx : s.rx = .freeing (p :: todo)) :
    callCustomFree p s.shared = pbufFreeCustom p s.shared := by
  have hown : p ∈ ledger pool s .driver := by simp [ledger, hrx]
  rw [callCustomFree, h.customFree_of_mem hown (by simp)]

/-- So do the pbufs the `TCP/IP` thread frees. -/
theorem Inv.customFree_of_freeing {s : State D} (h : Inv pool s) {p : Addr} {todo : List Addr}
    (htcpip : s.tcpip = .freeing (p :: todo)) :
    (s.shared.mem p).customFreeFunction = some .pbufFreeCustom := by
  have hown : p ∈ ledger pool s .stack := by
    simp [ledger, State.heldByStack, htcpip, TcpipPc.todo]
  exact h.customFree_of_mem hown (by simp)

/-- lwIP writes only into free elements and into pbufs it holds. -/
theorem Inv.lwipWrite {s : State D} (h : Inv pool s) (mem : Mem)
    (hframe : ∀ a, a ∉ s.shared.rxPool → a ∉ s.heldByStack → mem a = s.shared.mem a)
    (hkeep : ∀ a ∈ s.heldByStack,
      (mem a).customFreeFunction = (s.shared.mem a).customFreeFunction) :
    ledger pool { s with shared := { s.shared with mem := mem } } = ledger pool s ∧
      Inv pool { s with shared := { s.shared with mem := mem } } := by
  set t : State D := { s with shared := { s.shared with mem := mem } } with ht
  -- what another owner holds is left alone
  have hother : ∀ o : Owner D, o ≠ .rxPool → o ≠ .stack → ∀ a ∈ ledger pool s o,
      mem a = s.shared.mem a := fun o hpool hstack a ha =>
    hframe a (h.not_mem ha .rxPool hpool) (h.not_mem ha .stack hstack)
  obtain ⟨hbuilding, hchain⟩ := h.building_frame (t := t) rfl fun a ha => by
    simp only [ht, Mem.next, hother .building (by simp) (by simp) a (Multiset.mem_coe.mpr ha)]
  have hinput : ∀ p, s.rx = .input p → MemChain mem p (s.rx.held s.shared.mem) := fun p hp =>
    (h.input p hp).frame fun a ha => by
      simp only [Mem.next, hother .driver (by simp) (by simp) a (Multiset.mem_coe.mpr ha)]
  have hheld : t.rx.held t.shared.mem = s.rx.held s.shared.mem := by
    cases hrx : s.rx with
    | idle => simp [ht, hrx]
    | reading refill ready => simp [ht, hrx]
    | input p =>
        have hnodes := (hinput p hrx).nodes_eq
        rw [hrx] at hnodes
        simpa [ht, hrx] using hnodes
    | freeing todo => simp [ht, hrx]
  have hledger : ledger pool t = ledger pool s :=
    ledger_congr rfl (fun _ => rfl) hbuilding hheld rfl
  refine ⟨hledger, ?_, hchain, ?_, ?_, ?_⟩
  · rw [hledger, h.total_eq]
  · rw [hbuilding]
    exact h.last
  · intro p hp
    rw [hheld]
    exact hinput p hp
  · intro p hp hfree
    refine Eq.trans ?_ (h.customFree p hp hfree)
    by_cases hstack : p ∈ s.heldByStack
    · exact hkeep p hstack
    · exact congrArg _ (hframe p hfree hstack)

/-- A buffer the allocate callback hands out comes from a free element, and the flag is left
alone. -/
theorem got_of_ne {s shared : Shared} {p buff : Addr} (hanswer : Answers refuses s.rxPool p)
    (hcall : halEthRxAllocateCallback pool pbufAllocedCustom p s = (buff, shared))
    (hgot : buff ≠ NULL) : p ∈ s.rxPool ∧ shared.rxAllocStatus = s.rxAllocStatus := by
  have hp : p ≠ NULL := by
    rintro rfl
    rw [halEthRxAllocateCallback_null] at hcall
    exact hgot (Prod.mk.inj hcall).1.symm
  rw [halEthRxAllocateCallback_of_ne s hp] at hcall
  obtain ⟨-, rfl⟩ := Prod.mk.inj hcall
  exact ⟨hanswer.resolve_right fun hnull => hp hnull.1, rfl⟩

/-- The allocate callback hands out no buffer only if the pool refused an element. -/
theorem Inv.refused {s : State D} (h : Inv pool s) {shared : Shared} {p buff : Addr}
    (hanswer : Answers refuses s.shared.rxPool p)
    (hcall : halEthRxAllocateCallback pool pbufAllocedCustom p s.shared = (buff, shared))
    (hnone : buff = NULL) :
    refuses s.shared.rxPool ∧ shared = { s.shared with rxAllocStatus := .rxAllocError } := by
  rcases hanswer with hmem | ⟨rfl, hrefuses⟩
  · have helem : p ∈ pool.elems := h.mem_elems (o := .rxPool) hmem
    rw [halEthRxAllocateCallback_of_ne s.shared (pool.ne_null p helem)] at hcall
    exact absurd ((Prod.mk.inj hcall).1.trans hnone) (pool.buff_ne_null p helem)
  · rw [halEthRxAllocateCallback_null] at hcall
    exact ⟨hrefuses, (Prod.mk.inj hcall).2.symm⟩

/-! ## One step -/

/-- **Step.** Every step of the receive machine leaves every buffer where it is or moves buffers
along one edge of the ownership graph, and it preserves the invariant. -/
theorem Inv.step {s t : State D} {e : Event} (h : Inv pool s)
    (hs : Step pool pbufAllocedCustom refuses s e t) :
    Moved (ledger pool s) (ledger pool t) ∧ Inv pool t := by
  cases hs with
  | dmaComplete i length last attached empty =>
      refine h.same rfl rfl (fun j => ?_) rfl rfl rfl (fun _ hp => hp) rfl
      by_cases hj : j = i
      · subst hj
        simp
      · simp [hj]
  | pollRead idle ok =>
      exact h.setRx _ (by simp [idle]) (by simp)
  | pollSkip idle error =>
      exact h.setRx _ (by simp [idle, held_afterInput, nodes_null]) (by simp [afterInput])
  | link i fuel reading attached filled call =>
      exact h.link attached call rfl rfl rfl rfl ⟨_, _, reading⟩ ⟨_, _, rfl⟩ rfl
  | refill i reading detached answer call got =>
      exact h.allocate (got_of_ne answer call got).1 detached (by rw [call]) (by rw [call])
        rfl rfl ⟨_, _, reading⟩ rfl rfl
  | refillNull i reading detached answer call none =>
      obtain ⟨-, rfl⟩ := h.refused answer call none
      exact h.setRx _ (by simp [reading]) (by simp)
  | readOk reading =>
      exact h.readData rfl rfl rfl ⟨_, _, reading⟩ rfl rfl
  | readError reading =>
      exact h.setRx _ (by simp [reading, held_afterInput, nodes_null]) (by simp [afterInput])
  | @accept p l input chain =>
      refine h.handOver (m := l) .accept ?_ (fun _ hp => hp) rfl rfl rfl (by simp)
      intro o
      cases o with
      | rxPool => simp [ledger]
      | descriptor i => simp [ledger]
      | building => simp [ledger, State.building]
      | driver => simp only [ledger, input, RxPc.held_input, chain.nodes_eq]; simp
      | stack =>
          simp only [ledger, State.heldByStack, Multiset.map_cons, Multiset.sum_cons, if_true,
            reduceCtorEq, if_false, add_zero]
          rw [add_assoc, add_comm]
  | reject input chain =>
      refine h.setRx _ ?_ (by simp)
      rw [input, RxPc.held_freeing]
      exact chain.nodes_eq.symm
  | @rxFree p todo freeing =>
      rw [h.callCustomFree_eq freeing]
      refine h.handOver (m := {p}) .reject ?_ ?_ ?_ rfl rfl (by simp)
      · intro o
        cases o with
        | rxPool => simp [ledger, cons_eq_add]
        | descriptor i => simp [ledger]
        | building => simp [ledger, State.building]
        | driver => simp [ledger, freeing, ← Multiset.cons_coe, cons_eq_add]
        | stack => simp [ledger, State.heldByStack]
      · exact fun q hq => by simp [hq]
      · exact pbufFreeCustom_mem p s.shared
  | rxFreed freeing =>
      exact h.setRx _ (by simp [freeing, held_afterInput, nodes_null]) (by simp [afterInput])
  | lwipWrite mem frame keep =>
      obtain ⟨hledger, hinv⟩ := h.lwipWrite mem frame keep
      exact ⟨.inl hledger, hinv⟩
  | release accepted idle =>
      refine h.setTcpip _ ?_
      simp [State.heldByStack, accepted, idle, TcpipPc.todo, add_comm]
  | @mempoolFree p todo freeing custom =>
      refine h.handOver (m := {p}) .release ?_ ?_ rfl rfl rfl (fun _ hp => hp)
      · intro o
        cases o with
        | rxPool => simp [ledger, Shared.mempoolFree, cons_eq_add]
        | descriptor i => simp [ledger]
        | building => simp [ledger, State.building, Shared.mempoolFree]
        | driver => simp [ledger, Shared.mempoolFree]
        | stack =>
            simp [ledger, State.heldByStack, freeing, TcpipPc.todo, ← Multiset.cons_coe,
              cons_eq_add, add_assoc]
      · exact fun q hq => Multiset.mem_cons_of_mem hq
  | @noCustomFree p todo freeing custom =>
      rw [h.customFree_of_freeing freeing] at custom
      exact absurd custom (by simp)
  | testError returned error =>
      refine h.setTcpip _ ?_
      simp [State.heldByStack, returned, TcpipPc.todo]
  | testOk returned ok =>
      refine h.setTcpip _ ?_
      simp [State.heldByStack, returned, TcpipPc.todo]
  | storeOk tested =>
      refine h.setTcpip _ ?_
      simp [State.heldByStack, tested, TcpipPc.todo]
  | released freeing =>
      refine h.setTcpip _ ?_
      simp [State.heldByStack, freeing, TcpipPc.todo]

/-! ## Every run -/

/-- **Run.** The invariant holds of every reachable state. -/
theorem inv_of_reachable {s : State D}
    (h : (system pool pbufAllocedCustom refuses).Reachable s) : Inv pool s :=
  h.invariant (fun _ => inv_of_init) fun _ _ _ _ hinv hs => (hinv.step hs).2

/-- The receive machine refines the moves of the ownership graph. -/
theorem ledger_simulation : Transition.System.Simulation
    (system (D := D) pool pbufAllocedCustom refuses) (moves pool.elems.val Edge) (ledger pool)
    (Inv pool) where
  init s h := (inv_of_init h).total_eq
  step s e t hinv hs := by
    rcases (hinv.step hs).1 with heq | ⟨o, o', m, hedge, htransfer⟩
    · exact .inl heq
    · exact .inr ⟨(o, o', m), hedge, htransfer⟩

/-- The link callback terminates on the buffer of every descriptor that has one. -/
theorem Inv.exists_linkCallback {s : State D} (h : Inv pool s) {i : Fin D} (length : BitVec 16)
    (hattached : (s.desc i).buff ≠ NULL) :
    ∃ f, halEthRxLinkCallback pool (s.building.length + 2) (s.desc i).buff length
      ⟨s.shared.mem, s.pRxStart, s.pRxEnd⟩ = some f := by
  have hown : (s.desc i).buff - pool.offsetofBuff ∈ ledger pool s (.descriptor i) := by
    simp [ledger, (s.desc i).attached_of_ne hattached]
  obtain ⟨f, hcall, -⟩ := halEthRxLinkCallback_spec
    (s := ⟨s.shared.mem, s.pRxStart, s.pRxEnd⟩) length h.chain h.last
    (pool.ne_null _ (h.mem_elems hown))
    (fun hmem => h.not_mem hown .building (by simp) (Multiset.mem_coe.mpr hmem))
    (s.building.length + 2) (by omega)
  exact ⟨f, hcall⟩

/-- The link callback never gets stuck: in every reachable state it terminates on the buffer of
every filled descriptor. -/
theorem link_terminates {s : State D} (h : (system pool pbufAllocedCustom refuses).Reachable s)
    {refill : Bool} (hreading : s.rx = .reading refill false) (i : Fin D) {length : BitVec 16}
    {last : Bool} (hattached : (s.desc i).buff ≠ NULL)
    (hfilled : (s.desc i).filled = some (length, last)) :
    ∃ t, Step pool pbufAllocedCustom refuses s .link t := by
  obtain ⟨f, hcall⟩ := (inv_of_reachable h).exists_linkCallback length hattached
  exact ⟨_, .link i _ hreading hattached hfilled hcall⟩

/-- **Ownership of the receive buffers.** In every reachable state every buffer of the pool has
exactly one owner and that owner holds it once; the owner is the pool, a descriptor, the frame
under construction or the stack, unless `ethif_in` is between `low_level_input` and the end of its
loop body. No owner holds anything else, and the chains of the frame under construction and of a
finished frame are well formed. -/
theorem rxPool_exactly_one_owner (pool : RxPool)
    (pbufAllocedCustom : BitVec 16 → Addr → BitVec 16 → Pbuf → Pbuf)
    (refuses : Multiset Addr → Prop) (s : State D)
    (h : (system pool pbufAllocedCustom refuses).Reachable s) :
    (∀ b ∈ pool.elems, ∃! o, b ∈ ledger pool s o) ∧
      (∀ o, (ledger pool s o).Nodup ∧ ∀ b ∈ ledger pool s o, b ∈ pool.elems) ∧
      (s.rx = .idle ∨ (∃ refill ready, s.rx = .reading refill ready) →
        ledger pool s .driver = 0) ∧
      MemChain s.shared.mem s.pRxStart s.building ∧
      ∀ p, s.rx = .input p → MemChain s.shared.mem p (s.rx.held s.shared.mem) := by
  have hinv := inv_of_reachable h
  have htotal : total (ledger pool s) = pool.elems.val :=
    total_of_reachable (ledger_simulation.reachable (fun _ => inv_of_reachable) h)
  have hnodup : (total (ledger pool s)).Nodup := htotal ▸ pool.elems.nodup
  refine ⟨fun b hb => ?_, fun o => ⟨nodup_owner hnodup o, fun b hb => hinv.mem_elems hb⟩, ?_,
    hinv.chain, hinv.input⟩
  · exact existsUnique_owner hnodup (htotal ▸ hb)
  · rintro (hidle | ⟨refill, ready, hreading⟩)
    · simp [ledger, hidle]
    · simp [ledger, hreading]

/-- The stack has accepted a frame in the first buffer of `ramPool`, and the second one waits at a
descriptor. -/
theorem rxPool_exactly_one_owner_accepted : ∃ s : State 4,
    (system ramPool lwipAllocedCustom (· = 0)).Reachable s ∧
      0x20000000 ∈ ledger ramPool s .stack ∧ 0x20000620 ∈ ledger ramPool s (.descriptor 1) ∧
      (∃! o, 0x20000000 ∈ ledger ramPool s o) ∧ (∃! o, 0x20000620 ∈ ledger ramPool s o) ∧
      ledger ramPool s .driver = 0 := by
  have hstart : (system ramPool lwipAllocedCustom (· = 0)).Reachable
      (State.start ramPool fun _ => ⟨⟨NULL, 0, 0, 0⟩, none⟩ : State 4) :=
    .init (State.start_init _ _ _ _)
  -- a first call of `HAL_ETH_ReadData` gives two descriptors a buffer, and the DMA fills one
  have hpoll := hstart.step (.pollRead rfl rfl)
  have hfirst := hpoll.step (.refill (p := 0x20000000) 0 rfl rfl (.inl (by decide)) rfl (by decide))
  have hsecond := hfirst.step
    (.refill (p := 0x20000620) 1 rfl rfl (.inl (by decide)) rfl (by decide))
  have hdma := (hsecond.step (.readError rfl)).step (.dmaComplete 0 60 true (by decide) rfl)
  -- a second one returns the frame
  have hlink := (hdma.step (.pollRead rfl rfl)).step (.link 0 3 rfl (by decide) rfl rfl)
  have hread := hlink.step (.readOk rfl)
  have haccept := hread.step (.accept (p := 0x20000000) (l := [0x20000000]) rfl
    (.cons (by decide) .nil))
  have howner := rxPool_exactly_one_owner ramPool lwipAllocedCustom (· = 0) _ haccept
  exact ⟨_, haccept, by simp [ledger, State.heldByStack], by decide, howner.1 _ (by decide),
    howner.1 _ (by decide), howner.2.2.1 (.inl rfl)⟩

end Stm32Eth.Rx
