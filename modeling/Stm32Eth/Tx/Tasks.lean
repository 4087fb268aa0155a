import Stm32Eth.Lib.Transition
import Stm32Eth.Tx.Output

/-!
# Calls of `low_level_output` in several tasks

`low_level_output` runs in the `TCP/IP` thread, in `init_task` and in `link_state`, and every call
fills the same static `TxConfig` before `HAL_ETH_Transmit` reads it. The machine below interleaves
calls one statement at a time: a call can be preempted before any of its statements by a call of a
task of higher priority, which runs to its return before the preempted call goes on.

A call that starts while another one is between its first store to `TxConfig` and its
`HAL_ETH_Transmit` overwrites what the other has stored. `DisturbedBy` is the condition under which
this spoils the request. Without such starts every request is its caller's own
(`sent_own_of_undisturbed`), and after any such start the run can go on to a mixed request
(`exists_mixed_of_disturbed`).
-/

namespace Stm32Eth.Tx

open Linked Transition

variable {C : ℕ}

/-! ## Data -/

/-- The tasks that call `low_level_output`. -/
inductive Task
  | tcpipThread
  | initTask
  | linkState
  deriving DecidableEq, Repr

/-- `TCPIP_THREAD_PRIO`, and the priorities given to `xTaskCreate`. -/
def Task.priority : Task → ℕ
  | .tcpipThread => 1
  | .initTask => 3
  | .linkState => 3

/-- A packet: its pbufs, which nothing writes during the call, and the first of them. -/
structure Packet where
  mem : Addr → Pbuf
  p : Addr

/-- `p->tot_len`, as it is stored in `TxConfig.Length`. -/
def Packet.length (k : Packet) : BitVec 32 := (k.mem k.p).totLen.setWidth 32

/-- A chain of 1 to `ETH_TX_DESC_CNT = C` pbufs. -/
def Packet.Fits (C : ℕ) (k : Packet) : Prop :=
  k.p ≠ NULL ∧ ∃ l, PbufChain k.mem k.p l ∧ l.length ≤ C

/-- The next statement of a call. -/
inductive Pc
  | walk
  | setLength
  | setTxBuffer
  | setPData
  | transmit
  | ret (errval : ErrT)
  deriving DecidableEq, Repr

/-- A call of `low_level_output` that has not returned, with its local array. -/
structure Call (C : ℕ) where
  id : ℕ
  task : Task
  packet : Packet
  txbuffer : Vector EthBuffer C
  pc : Pc

/-- A call of `HAL_ETH_Transmit`: the caller, the configuration read on entry, and the array the
configuration points to, if its call has not returned. -/
structure Sent (C : ℕ) where
  call : Call C
  config : EthTxPacketConfig
  txbuffer : Option (Vector EthBuffer C)

/-- `TxConfig`, the calls that have not returned, the running one first, and what was sent. -/
structure State (C : ℕ) where
  txConfig : EthTxPacketConfig
  stack : List (Call C)
  nextId : ℕ
  sent : List (Sent C)

/-- The array a `TxBuffer` pointer points to, unless its call has returned. -/
def State.txbufferAt (s : State C) (ptr : Option ℕ) : Option (Vector EthBuffer C) :=
  ptr.bind fun id => (s.stack.find? fun c => c.id = id).map Call.txbuffer

/-- The request describes the caller's own packet: its length, its first pbuf, and the caller's own
array, which still lives and is the packet's scatter list. -/
def Sent.Own (x : Sent C) : Prop :=
  x.config.length = x.call.packet.length ∧ x.config.txBuffer = some x.call.id ∧
    x.config.pData = x.call.packet.p ∧
    ∃ t, x.txbuffer = some t ∧
      ∀ l, PbufChain x.call.packet.mem x.call.packet.p l → IsScatterList x.call.packet.mem t l

/-! ## The machine -/

/-- The steps, by the statement that runs. -/
inductive Event
  | start (task : Task) (packet : Packet)
  | walk
  | setLength
  | setTxBuffer
  | setPData
  | transmit (status : HalStatus)
  | ret

/-- The steps of the machine. -/
inductive Step : State C → Event → State C → Prop
  /-- A task calls `low_level_output`. It is idle or has preempted a task of lower priority. -/
  | start {s : State C} (task : Task) (packet : Packet)
      (preempts : ∀ c rest, s.stack = c :: rest → c.task.priority < task.priority)
      (fits : packet.Fits C) :
      Step s (.start task packet)
        { s with
          stack := ⟨s.nextId, task, packet, zeroTxbuffer C, .walk⟩ :: s.stack
          nextId := s.nextId + 1 }
  /-- The loop over the pbuf chain ends. -/
  | walk {s : State C} {c : Call C} {rest : List (Call C)} {t : Vector EthBuffer C}
      (top : s.stack = c :: rest) (pc : c.pc = .walk)
      (fill : fillTxbuffer c.packet.mem (C + 1) c.packet.p 0 c.txbuffer = .ok (some t)) :
      Step s .walk { s with stack := { c with txbuffer := t, pc := .setLength } :: rest }
  /-- The loop over the pbuf chain returns `ERR_IF`. -/
  | walkFull {s : State C} {c : Call C} {rest : List (Call C)}
      (top : s.stack = c :: rest) (pc : c.pc = .walk)
      (fill : fillTxbuffer c.packet.mem (C + 1) c.packet.p 0 c.txbuffer = .ok none) :
      Step s .walk { s with stack := { c with pc := .ret .errIf } :: rest }
  /-- `TxConfig.Length = p->tot_len`. -/
  | setLength {s : State C} {c : Call C} {rest : List (Call C)}
      (top : s.stack = c :: rest) (pc : c.pc = .setLength) :
      Step s .setLength
        { s with
          txConfig := { s.txConfig with length := c.packet.length }
          stack := { c with pc := .setTxBuffer } :: rest }
  /-- `TxConfig.TxBuffer = Txbuffer`. -/
  | setTxBuffer {s : State C} {c : Call C} {rest : List (Call C)}
      (top : s.stack = c :: rest) (pc : c.pc = .setTxBuffer) :
      Step s .setTxBuffer
        { s with
          txConfig := { s.txConfig with txBuffer := some c.id }
          stack := { c with pc := .setPData } :: rest }
  /-- `TxConfig.pData = p`. -/
  | setPData {s : State C} {c : Call C} {rest : List (Call C)}
      (top : s.stack = c :: rest) (pc : c.pc = .setPData) :
      Step s .setPData
        { s with
          txConfig := { s.txConfig with pData := c.packet.p }
          stack := { c with pc := .transmit } :: rest }
  /-- `HAL_ETH_Transmit` reads `TxConfig` on entry. -/
  | transmit {s : State C} {c : Call C} {rest : List (Call C)} (status : HalStatus)
      (top : s.stack = c :: rest) (pc : c.pc = .transmit) :
      Step s (.transmit status)
        { s with
          stack := { c with pc := .ret (if status ≠ .halOk then .errIf else .errOk) } :: rest
          sent := s.sent ++ [⟨c, s.txConfig, s.txbufferAt s.txConfig.txBuffer⟩] }
  /-- The call returns, and its array is gone. -/
  | ret {s : State C} {c : Call C} {rest : List (Call C)} {errval : ErrT}
      (top : s.stack = c :: rest) (pc : c.pc = .ret errval) :
      Step s .ret { s with stack := rest }

/-- The machine, from a state without calls; the static `TxConfig.TxBuffer` is null. -/
def system (C : ℕ) : System (State C) Event where
  init s := s.txConfig.txBuffer = none ∧ s.stack = [] ∧ s.sent = []
  step := Step

/-! ## Every run -/

/-- A packet that fits is described completely by its scatter list. -/
theorem Packet.Fits.fill_eq {k : Packet} (h : k.Fits C) {l : List Addr}
    (hchain : PbufChain k.mem k.p l) :
    fillTxbuffer k.mem (C + 1) k.p 0 (zeroTxbuffer C) = .ok (some (scatter C k.mem l)) := by
  obtain ⟨-, l', hchain', hl⟩ := h
  obtain rfl := hchain'.unique hchain
  rw [fillTxbuffer_chain k.mem hchain, if_pos hl]

/-- What a call's array holds before its next statement. -/
def Call.Filled (c : Call C) : Prop :=
  match c.pc with
  | .walk => c.txbuffer = zeroTxbuffer C
  | .ret _ => True
  | _ => ∀ l, PbufChain c.packet.mem c.packet.p l → c.txbuffer = scatter C c.packet.mem l

/-- What holds in every reachable state: packets fit, arrays are filled, identities are fresh, and
a call runs at a higher priority than the calls it has preempted. -/
structure Inv (s : State C) : Prop where
  fits : ∀ c ∈ s.stack, c.packet.Fits C
  filled : ∀ c ∈ s.stack, c.Filled
  fresh : ∀ c ∈ s.stack, c.id < s.nextId
  priorities : s.stack.Pairwise fun c c' => c'.task.priority < c.task.priority

/-- The running call executes a statement that leaves its identity, task and packet alone. -/
theorem Inv.update {s t : State C} (h : Inv s) {c c' : Call C} {rest : List (Call C)}
    (htop : s.stack = c :: rest) (hstack : t.stack = c' :: rest) (hid : c'.id = c.id)
    (htask : c'.task = c.task) (hpacket : c'.packet = c.packet) (hfilled : c'.Filled)
    (hnext : t.nextId = s.nextId) : Inv t := by
  have hmem : ∀ d ∈ rest, d ∈ s.stack := fun d hd => htop ▸ List.mem_cons_of_mem _ hd
  have hc : c ∈ s.stack := htop ▸ List.mem_cons_self
  have hpri := htop ▸ h.priorities
  rw [List.pairwise_cons] at hpri
  refine ⟨?_, ?_, ?_, ?_⟩
  · rw [hstack, List.forall_mem_cons, hpacket]
    exact ⟨h.fits c hc, fun d hd => h.fits d (hmem d hd)⟩
  · rw [hstack, List.forall_mem_cons]
    exact ⟨hfilled, fun d hd => h.filled d (hmem d hd)⟩
  · rw [hstack, List.forall_mem_cons, hid, hnext]
    exact ⟨h.fresh c hc, fun d hd => h.fresh d (hmem d hd)⟩
  · rw [hstack, List.pairwise_cons, htask]
    exact hpri

/-- **Step.** Every step preserves the invariant. -/
theorem Inv.step {s t : State C} {e : Event} (h : Inv s) (hs : Step s e t) : Inv t := by
  cases hs with
  | start task packet preempts fits =>
      refine ⟨?_, ?_, ?_, ?_⟩
      · rw [List.forall_mem_cons]
        exact ⟨fits, h.fits⟩
      · rw [List.forall_mem_cons]
        exact ⟨rfl, h.filled⟩
      · rw [List.forall_mem_cons]
        exact ⟨Nat.lt_succ_self _, fun c hc => Nat.lt_succ_of_lt (h.fresh c hc)⟩
      · rw [List.pairwise_cons]
        refine ⟨fun c hc => ?_, h.priorities⟩
        -- the running call has the highest priority of all
        cases hstack : s.stack with
        | nil => simp [hstack] at hc
        | cons d rest =>
            have hd := preempts d rest hstack
            have hpri := hstack ▸ h.priorities
            rw [List.pairwise_cons] at hpri
            rcases List.mem_cons.mp (hstack ▸ hc) with rfl | hc
            · exact hd
            · exact (hpri.1 c hc).trans hd
  | @walk c rest t top pc fill =>
      have hc : c ∈ s.stack := top ▸ List.mem_cons_self
      have hzero : c.txbuffer = zeroTxbuffer C := by simpa [Call.Filled, pc] using h.filled c hc
      refine h.update top rfl rfl rfl rfl (fun l hchain => ?_) rfl
      rw [hzero, (h.fits c hc).fill_eq hchain] at fill
      exact (Option.some.inj (Except.ok.inj fill)).symm
  | walkFull top pc fill => exact h.update top rfl rfl rfl rfl trivial rfl
  | @setLength c rest top pc =>
      have hfilled := h.filled c (top ▸ List.mem_cons_self)
      rw [Call.Filled, pc] at hfilled
      exact h.update top rfl rfl rfl rfl hfilled rfl
  | @setTxBuffer c rest top pc =>
      have hfilled := h.filled c (top ▸ List.mem_cons_self)
      rw [Call.Filled, pc] at hfilled
      exact h.update top rfl rfl rfl rfl hfilled rfl
  | @setPData c rest top pc =>
      have hfilled := h.filled c (top ▸ List.mem_cons_self)
      rw [Call.Filled, pc] at hfilled
      exact h.update top rfl rfl rfl rfl hfilled rfl
  | transmit status top pc => exact h.update top rfl rfl rfl rfl trivial rfl
  | @ret c rest errval top pc =>
      have hmem : ∀ d ∈ rest, d ∈ s.stack := fun d hd => top ▸ List.mem_cons_of_mem _ hd
      have hpri := top ▸ h.priorities
      exact ⟨fun d hd => h.fits d (hmem d hd), fun d hd => h.filled d (hmem d hd),
        fun d hd => h.fresh d (hmem d hd), (List.pairwise_cons.mp hpri).2⟩

/-- **Run.** The invariant holds in every reachable state. -/
theorem inv_of_reachable {s : State C} (h : (system C).Reachable s) : Inv s := by
  refine h.invariant (fun s hinit => ?_) fun s e t _ hinv hs => hinv.step hs
  obtain ⟨-, hstack, -⟩ := hinit
  exact ⟨by simp [hstack], by simp [hstack], by simp [hstack], by simp [hstack]⟩

/-! ## Starts that do not disturb -/

/-- A call with the packet `k` that starts now spoils the request of `c`: it overwrites the
`TxBuffer` or `pData` that `c` has stored, or a different `Length`. -/
def Call.DisturbedBy (c : Call C) (k : Packet) : Prop :=
  match c.pc with
  | .setTxBuffer => k.length ≠ c.packet.length
  | .setPData | .transmit => True
  | _ => False

/-- The step starts no call that disturbs another one. -/
def Undisturbed (s : State C) : Event → Prop
  | .start _ k => ∀ c ∈ s.stack, ¬ c.DisturbedBy k
  | _ => True

/-- What `TxConfig` holds of the request of a call before the call's next statement. -/
def Call.Stored (c : Call C) (config : EthTxPacketConfig) : Prop :=
  match c.pc with
  | .setTxBuffer => config.length = c.packet.length
  | .setPData => config.length = c.packet.length ∧ config.txBuffer = some c.id
  | .transmit => config.length = c.packet.length ∧ config.txBuffer = some c.id ∧
      config.pData = c.packet.p
  | _ => True

/-- What holds in every state reached without a disturbing start: `TxConfig` holds what the calls
have stored, no preempted call is disturbed by a call above it, and every request sent is its
caller's own. -/
structure OwnInv (s : State C) : Prop where
  stored : ∀ c ∈ s.stack, c.Stored s.txConfig
  above : s.stack.Pairwise fun c c' => ¬ c'.DisturbedBy c.packet
  sent : ∀ x ∈ s.sent, x.Own

/-- A preempted call keeps what it has stored while `Length` keeps its value or gets that of a call
that does not disturb it. -/
theorem Call.Stored.keep {c : Call C} {k : Packet} {config config' : EthTxPacketConfig}
    (h : c.Stored config) (hk : ¬ c.DisturbedBy k)
    (hlength : config'.length = config.length ∨ config'.length = k.length) :
    c.Stored config' := by
  rw [Call.Stored] at h ⊢
  rw [Call.DisturbedBy] at hk
  cases hpc : c.pc with
  | setTxBuffer =>
      simp only [hpc, ne_eq, not_not] at h hk ⊢
      rcases hlength with hlength | hlength
      · exact hlength.trans h
      · exact hlength.trans hk
  | setPData => simp [hpc] at hk
  | transmit => simp [hpc] at hk
  | _ => trivial

/-- The running call executes a statement that stores nothing of another call. -/
theorem OwnInv.update {s t : State C} (h : OwnInv s) {c c' : Call C} {rest : List (Call C)}
    (htop : s.stack = c :: rest) (hstack : t.stack = c' :: rest) (hpacket : c'.packet = c.packet)
    (hlength : t.txConfig.length = s.txConfig.length ∨ t.txConfig.length = c.packet.length)
    (hstored : c'.Stored t.txConfig) (hsent : ∀ x ∈ t.sent, x.Own) : OwnInv t := by
  have habove := htop ▸ h.above
  rw [List.pairwise_cons] at habove
  refine ⟨?_, ?_, hsent⟩
  · rw [hstack, List.forall_mem_cons]
    refine ⟨hstored, fun d hd => ?_⟩
    exact (h.stored d (htop ▸ List.mem_cons_of_mem _ hd)).keep (habove.1 d hd) hlength
  · rw [hstack, List.pairwise_cons, hpacket]
    exact habove

/-- The array of the running call is the one its own pointer points to. -/
theorem State.txbufferAt_top {s : State C} {c : Call C} {rest : List (Call C)}
    (htop : s.stack = c :: rest) : s.txbufferAt (some c.id) = some c.txbuffer := by
  simp [State.txbufferAt, htop]

/-- **Step.** A step that starts no disturbing call preserves `OwnInv`. -/
theorem OwnInv.step {s t : State C} {e : Event} (hinv : Inv s) (h : OwnInv s) (hs : Step s e t)
    (hundisturbed : Undisturbed s e) : OwnInv t := by
  cases hs with
  | start task packet preempts fits =>
      refine ⟨?_, ?_, h.sent⟩
      · rw [List.forall_mem_cons]
        exact ⟨trivial, h.stored⟩
      · rw [List.pairwise_cons]
        exact ⟨hundisturbed, h.above⟩
  | walk top pc fill => exact h.update top rfl rfl (.inl rfl) trivial h.sent
  | walkFull top pc fill => exact h.update top rfl rfl (.inl rfl) trivial h.sent
  | setLength top pc => exact h.update top rfl rfl (.inr rfl) rfl h.sent
  | @setTxBuffer c rest top pc =>
      have hstored := h.stored c (top ▸ List.mem_cons_self)
      rw [Call.Stored, pc] at hstored
      exact h.update top rfl rfl (.inl rfl) ⟨hstored, rfl⟩ h.sent
  | @setPData c rest top pc =>
      have hstored := h.stored c (top ▸ List.mem_cons_self)
      rw [Call.Stored, pc] at hstored
      exact h.update top rfl rfl (.inl rfl) ⟨hstored.1, hstored.2, rfl⟩ h.sent
  | @transmit c rest status top pc =>
      have hc : c ∈ s.stack := top ▸ List.mem_cons_self
      have hstored := h.stored c hc
      rw [Call.Stored, pc] at hstored
      refine h.update top rfl rfl (.inl rfl) trivial fun x hx => ?_
      rcases List.mem_append.mp hx with hx | hx
      · exact h.sent x hx
      · obtain rfl := List.mem_singleton.mp hx
        refine ⟨hstored.1, hstored.2.1, hstored.2.2, c.txbuffer, ?_, fun l hchain => ?_⟩
        · rw [hstored.2.1]
          exact State.txbufferAt_top top
        · obtain ⟨hp, l', hchain', hl⟩ := hinv.fits c hc
          obtain rfl := hchain'.unique hchain
          have hfilled := hinv.filled c hc
          rw [Call.Filled, pc] at hfilled
          rw [hfilled l' hchain]
          exact scatter_isScatterList _ hl fun hnil => hp (hchain.eq_nil_iff.mp hnil)
  | @ret c rest errval top pc =>
      have habove := top ▸ h.above
      exact ⟨fun d hd => h.stored d (top ▸ List.mem_cons_of_mem _ hd),
        (List.pairwise_cons.mp habove).2, h.sent⟩

/-- **Run.** Without disturbing starts every request sent is its caller's own. -/
theorem sent_own_of_undisturbed {s : State C} (h : ((system C).restrict Undisturbed).Reachable s) :
    ∀ x ∈ s.sent, x.Own := by
  have hown : OwnInv s := by
    refine h.invariant (fun s hinit => ?_) fun s e t hr hown hs => ?_
    · obtain ⟨-, hstack, hsent⟩ := hinit
      exact ⟨by simp [hstack], by simp [hstack], by simp [hsent]⟩
    · exact hown.step (inv_of_reachable hr.of_restrict) hs.1 hs.2
  exact hown.sent

/-! ## A call without interruption -/

/-- `TxConfig` after the stores of a call. -/
def Call.describe (c : Call C) (config : EthTxPacketConfig) : EthTxPacketConfig :=
  { config with length := c.packet.length, txBuffer := some c.id, pData := c.packet.p }

/-- A call run to its return without interruption. -/
theorem run_call {s : State C} {c : Call C} {rest : List (Call C)} {l : List Addr}
    (htop : s.stack = c :: rest) (hpc : c.pc = .walk) (hfits : c.packet.Fits C)
    (harray : c.txbuffer = zeroTxbuffer C) (hchain : PbufChain c.packet.mem c.packet.p l)
    (status : HalStatus) :
    (system C).Run s [.walk, .setLength, .setTxBuffer, .setPData, .transmit status, .ret]
      { s with
        txConfig := c.describe s.txConfig
        stack := rest
        sent := s.sent ++ [⟨{ c with txbuffer := scatter C c.packet.mem l, pc := .transmit },
          c.describe s.txConfig, some (scatter C c.packet.mem l)⟩] } := by
  have hfill : fillTxbuffer c.packet.mem (C + 1) c.packet.p 0 c.txbuffer
      = .ok (some (scatter C c.packet.mem l)) := by
    rw [harray, hfits.fill_eq hchain]
  have hrun : (system C).Run s [.walk, .setLength, .setTxBuffer, .setPData, .transmit status, .ret]
      _ := .cons (.walk htop hpc hfill) (.cons (.setLength rfl rfl) (.cons (.setTxBuffer rfl rfl)
        (.cons (.setPData rfl rfl) (.cons (.transmit status rfl rfl) (.single (.ret rfl rfl))))))
  simpa [State.txbufferAt, Call.describe] using hrun

/-- Run without interruption, a call is `lowLevelOutput`: the same `TxConfig` and the same call of
`HAL_ETH_Transmit`. -/
theorem run_lowLevelOutput {s : State C} {c : Call C} {rest : List (Call C)}
    (htop : s.stack = c :: rest) (hpc : c.pc = .walk) (hfits : c.packet.Fits C)
    (harray : c.txbuffer = zeroTxbuffer C) (halEthTransmit : Transmit C → HalStatus) :
    ∃ errval r transmit x es t,
      lowLevelOutput halEthTransmit c.id c.packet.p ⟨c.packet.mem, s.txConfig, []⟩
        = .ok (errval, r) ∧ r.transmits = [transmit] ∧
      (system C).Run s es t ∧ t.stack = rest ∧ t.txConfig = r.txConfig ∧
      t.sent = s.sent ++ [x] ∧ x.config = transmit.config ∧
      x.txbuffer = some transmit.txbuffer := by
  obtain ⟨hp, l, hchain, hl⟩ := hfits
  refine ⟨_, _, _, _, _, _, lowLevelOutput_of_le halEthTransmit c.id hchain hp hl, rfl,
    run_call htop hpc ⟨hp, l, hchain, hl⟩ harray hchain .halOk, rfl, rfl, rfl, rfl, rfl⟩

/-! ## Starts that disturb -/

/-- A preempted call that goes on with the `TxConfig` of another call sends a mixed request. -/
theorem resume_mixed {s : State C} {c : Call C} {k : Packet} {id : ℕ} (htop : s.stack = [c])
    (hdisturbed : c.DisturbedBy k) (hlength : s.txConfig.length = k.length)
    (hbuffer : s.txConfig.txBuffer = some id) (hid : id ≠ c.id) :
    ∃ es u, (system C).Run s es u ∧ ∃ x ∈ u.sent, ¬ x.Own := by
  cases hpc : c.pc with
  | setTxBuffer =>
      -- another packet's length
      refine ⟨_, _, .cons (.setTxBuffer htop hpc) (.cons (.setPData rfl rfl)
        (.single (.transmit .halOk rfl rfl))), _, List.mem_append_right _ List.mem_cons_self, ?_⟩
      rw [Call.DisturbedBy, hpc] at hdisturbed
      exact fun hown => hdisturbed (hlength.symm.trans hown.1)
  | setPData =>
      -- the array of a call that has returned
      refine ⟨_, _, .cons (.setPData htop hpc) (.single (.transmit .halOk rfl rfl)), _,
        List.mem_append_right _ List.mem_cons_self, ?_⟩
      exact fun hown => hid (Option.some.inj (hbuffer.symm.trans hown.2.1))
  | transmit =>
      refine ⟨_, _, .single (.transmit .halOk htop hpc), _,
        List.mem_append_right _ List.mem_cons_self, ?_⟩
      exact fun hown => hid (Option.some.inj (hbuffer.symm.trans hown.2.1))
  | _ => simp [Call.DisturbedBy, hpc] at hdisturbed

theorem Task.priority_pos (task : Task) : 0 < task.priority := by
  cases task <;> decide

/-- Only the `TCP/IP` thread can be preempted. -/
theorem Task.priority_eq_one {a b : Task} (h : a.priority < b.priority) : a.priority = 1 := by
  cases a with
  | tcpipThread => rfl
  | initTask => cases b <;> exact absurd h (by decide)
  | linkState => cases b <;> exact absurd h (by decide)

/-- When a call is preempted, it is the only one. -/
theorem Inv.stack_eq_of_preempts {s : State C} (h : Inv s) {c : Call C} (hc : c ∈ s.stack)
    {task : Task}
    (hpreempts : ∀ c rest, s.stack = c :: rest → c.task.priority < task.priority) :
    s.stack = [c] := by
  cases hstack : s.stack with
  | nil => simp [hstack] at hc
  | cons d rest =>
      have hd := Task.priority_eq_one (hpreempts d rest hstack)
      have hpri := hstack ▸ h.priorities
      rw [List.pairwise_cons] at hpri
      have hrest : rest = [] := by
        refine List.eq_nil_iff_forall_not_mem.mpr fun d' hd' => ?_
        have hlow := hpri.1 d' hd'
        have hpos := d'.task.priority_pos
        omega
      rw [hstack, hrest, List.mem_singleton] at hc
      rw [hrest, hc]

/-- **Starts that disturb.** After any disturbing start the run can go on to a mixed request. -/
theorem exists_mixed_of_disturbed {s t : State C} {e : Event} (h : (system C).Reachable s)
    (hs : Step s e t) (hdisturbed : ¬ Undisturbed s e) :
    ∃ es u, (system C).Run t es u ∧ ∃ x ∈ u.sent, ¬ x.Own := by
  cases hs with
  | start task packet preempts fits =>
      rw [Undisturbed] at hdisturbed
      push Not at hdisturbed
      obtain ⟨c, hc, hdisturbed⟩ := hdisturbed
      have hinv := inv_of_reachable h
      have hstack := hinv.stack_eq_of_preempts hc preempts
      have hfresh := hinv.fresh c hc
      obtain ⟨-, l, hchain, -⟩ := id fits
      -- the new call runs to its return, then the disturbed one goes on
      obtain ⟨es, v, hrun, hv, hlength, hbuffer⟩ : ∃ es v, (system C).Run { s with
          stack := ⟨s.nextId, task, packet, zeroTxbuffer C, .walk⟩ :: s.stack
          nextId := s.nextId + 1 } es v ∧ v.stack = s.stack ∧
          v.txConfig.length = packet.length ∧ v.txConfig.txBuffer = some s.nextId :=
        ⟨_, _, run_call rfl rfl fits rfl hchain .halOk, rfl, rfl, rfl⟩
      obtain ⟨fs, u, hmixed, hx⟩ :=
        resume_mixed (hv.trans hstack) hdisturbed hlength hbuffer hfresh.ne'
      exact ⟨_, u, hrun.append hmixed, hx⟩
  | _ => exact absurd trivial hdisturbed

/-! ## The result -/

/-- **Requests and preemption.** In every run without disturbing starts, every call of
`HAL_ETH_Transmit` sees the `Length`, `TxBuffer` and `pData` of its caller's own packet, with the
caller's own array still alive. A disturbing start from any reachable state can be followed by a
call that sees another packet's length or the array of a call that has returned. -/
theorem transmit_own_unless_disturbed (C : ℕ) :
    (∀ s : State C, ((system C).restrict Undisturbed).Reachable s → ∀ x ∈ s.sent, x.Own) ∧
      ∀ (s t : State C) (e : Event), (system C).Reachable s → Step s e t → ¬ Undisturbed s e →
        ∃ es u, (system C).Run t es u ∧ ∃ x ∈ u.sent, ¬ x.Own :=
  ⟨fun _ h => sent_own_of_undisturbed h, fun _ _ _ h hs hd => exists_mixed_of_disturbed h hs hd⟩

/-- A packet of a single pbuf. -/
def onePbuf (p payload : Addr) (len : BitVec 16) : Packet :=
  ⟨fun _ => ⟨NULL, payload, len, len⟩, p⟩

theorem onePbuf_fits {p : Addr} (hp : p ≠ NULL) (payload : Addr) (len : BitVec 16) :
    (onePbuf p payload len).Fits (C + 1) :=
  ⟨hp, [p], .cons hp .nil, by simp⟩

/-- The `TCP/IP` thread sends 60 bytes and has just stored `TxConfig.TxBuffer`. -/
def afterTxBuffer : State 4 where
  txConfig := ⟨0, 60, some 0, 0, 0, NULL⟩
  stack := [⟨0, .tcpipThread, onePbuf 0x20000000 0x20001000 60,
    scatter 4 (onePbuf 0x20000000 0x20001000 60).mem [0x20000000], .setPData⟩]
  nextId := 1
  sent := []

theorem afterTxBuffer_reachable : (system 4).Reachable afterTxBuffer := by
  have hfits : (onePbuf 0x20000000 0x20001000 60).Fits 4 := onePbuf_fits (by decide) _ _
  have hstart : (system 4).Reachable ⟨⟨0, 0, none, 0, 0, NULL⟩, [], 0, []⟩ :=
    .init ⟨rfl, rfl, rfl⟩
  have hwalk := (hstart.step (.start .tcpipThread _ (by simp) hfits)).step
    (.walk rfl rfl (hfits.fill_eq (.cons (by decide) .nil)))
  have hstored := (hwalk.step (.setLength rfl rfl)).step (.setTxBuffer rfl rfl)
  exact hstored

/-- There `link_state` preempts it and sends 42 bytes. The request of the `TCP/IP` thread then has
the thread's own pbuf, but the length 42 and the array of the call of `link_state`, which has
returned. -/
theorem exists_mixed : ∃ s : State 4, (system 4).Reachable s ∧ ∃ x ∈ s.sent, ∃ y ∈ s.sent,
    x.call.task = .tcpipThread ∧ x.call.packet = onePbuf 0x20000000 0x20001000 60 ∧
      y.call.task = .linkState ∧ x.config.length = 42 ∧ x.config.txBuffer = some y.call.id ∧
      x.txbuffer = none ∧ x.config.pData = 0x20000000 ∧ ¬ x.Own := by
  have hq : (0x20000100 : Addr) ≠ NULL := by decide
  have hfits : (onePbuf 0x20000100 0x20001100 42).Fits 4 := onePbuf_fits hq _ _
  have hpreempts : ∀ c rest, afterTxBuffer.stack = c :: rest →
      c.task.priority < Task.linkState.priority := by
    intro c rest hstack
    obtain ⟨rfl, -⟩ := List.cons.inj hstack
    decide
  have hstart := afterTxBuffer_reachable.step (.start .linkState _ hpreempts hfits)
  have hother := hstart.run (run_call rfl rfl hfits rfl (.cons hq .nil) .halOk)
  -- the `TCP/IP` thread goes on
  have hsent := (hother.step (.setPData rfl rfl)).step (.transmit .halOk rfl rfl)
  refine ⟨_, hsent, _, List.mem_append_right _ List.mem_cons_self, _,
    List.mem_append_left _ List.mem_cons_self, rfl, rfl, rfl, rfl, rfl, rfl, rfl, fun hown => ?_⟩
  have hlength : (42 : BitVec 32) = 60 := hown.1
  exact absurd hlength (by decide)

end Stm32Eth.Tx
