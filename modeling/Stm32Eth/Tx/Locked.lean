import Stm32Eth.Sys.Kernel
import Stm32Eth.Tx.Tasks
import Mathlib.Logic.Function.Basic

/-!
# Calls of `low_level_output` under the core lock

lwIP's rule for the functions of a netif is that their caller holds the core lock, which the
`TCP/IP` thread does. Here the three tasks lock and unlock it (`sys_mutex_lock`, `sys_mutex_unlock`
of `sys_arch.c`) and call `low_level_output` in any interleaving of their statements, those of tasks
of equal priority included: the task that runs next is arbitrary.

When every call is made by a task that holds the lock, the machine is simulated by that of
`Stm32Eth.Tx.Tasks` with never more than one call, so every request is its caller's own
(`sent_own_of_underLock`).
-/

namespace Stm32Eth.Tx

open Sys Transition

variable {C : ℕ} {mutex : RecursiveMutex Task}

/-! ## The machine -/

/-- The core lock and how often each task holds it, `TxConfig`, the call each task is in, and what
was sent. -/
structure Locked (C : ℕ) (mutex : RecursiveMutex Task) where
  lockTcpipCore : mutex.Carrier
  held : Task → ℕ
  txConfig : EthTxPacketConfig
  calls : Task → Option (Call C)
  nextId : ℕ
  sent : List (Sent C)

/-- The tasks. -/
def tasks : List Task := [.tcpipThread, .initTask, .linkState]

/-- The driver while `t` runs: its call is the running one. -/
def Locked.driver (s : Locked C mutex) (t : Task) : State C where
  txConfig := s.txConfig
  stack := (s.calls t).toList ++ (tasks.filter (· ≠ t)).filterMap s.calls
  nextId := s.nextId
  sent := s.sent

/-- The driver after a statement of `t`. -/
def Locked.withDriver (s : Locked C mutex) (t : Task) (d : State C) : Locked C mutex :=
  { s with
    txConfig := d.txConfig
    calls := Function.update s.calls t (d.stack.find? fun c => c.task = t)
    nextId := d.nextId
    sent := d.sent }

/-- The steps, by what a task does. -/
inductive LockedEvent
  | lock (t : Task)
  | unlock (t : Task)
  | call (t : Task) (packet : Packet)
  | statement (t : Task)

/-- The steps of the tasks. -/
inductive LockedStep : Locked C mutex → LockedEvent → Locked C mutex → Prop
  | lock {s : Locked C mutex} {m : mutex.Carrier} (t : Task) (idle : s.calls t = none)
      (take : mutex.take t s.lockTcpipCore = some m) :
      LockedStep s (.lock t)
        { s with lockTcpipCore := m, held := Function.update s.held t (s.held t + 1) }
  | unlock {s : Locked C mutex} (t : Task) (idle : s.calls t = none) (held : 0 < s.held t) :
      LockedStep s (.unlock t)
        { s with
          lockTcpipCore := (mutex.give t s.lockTcpipCore).2
          held := Function.update s.held t (s.held t - 1) }
  | call {s : Locked C mutex} (t : Task) (packet : Packet) (idle : s.calls t = none)
      (fits : packet.Fits C) :
      LockedStep s (.call t packet)
        { s with
          calls := Function.update s.calls t (some ⟨s.nextId, t, packet, zeroTxbuffer C, .walk⟩)
          nextId := s.nextId + 1 }
  | statement {s : Locked C mutex} {d : State C} (t : Task) (e : Event)
      (running : s.calls t ≠ none) (notStart : ∀ task packet, e ≠ .start task packet)
      (step : Step (s.driver t) e d) : LockedStep s (.statement t) (s.withDriver t d)

/-- The tasks, from the free lock and a state without calls. -/
def lockedSystem (C : ℕ) (mutex : RecursiveMutex Task) :
    System (Locked C mutex) LockedEvent where
  init s := mutex.owner s.lockTcpipCore = none ∧ (∀ t, s.held t = 0) ∧
    s.txConfig.txBuffer = none ∧ (∀ t, s.calls t = none) ∧ s.sent = []
  step := LockedStep

/-- Every call is made by a task that holds the lock. -/
def UnderLock (s : Locked C mutex) : LockedEvent → Prop
  | .call t _ => 0 < s.held t
  | _ => True

/-! ## The lock excludes -/

/-- What holds in every state reached under the rule. -/
structure LockedInv (s : Locked C mutex) : Prop where
  held : mutex.Held s.lockTcpipCore s.held
  calls : ∀ t, s.calls t ≠ none → 0 < s.held t
  task : ∀ t c, s.calls t = some c → c.task = t

/-- While a task holds the lock, no other one is in a call. -/
theorem LockedInv.calls_eq_none {s : Locked C mutex} (h : LockedInv s) {t u : Task}
    (ht : 0 < s.held t) (hne : u ≠ t) : s.calls u = none := by
  by_contra hu
  exact hne (h.held.eq_of_pos (h.calls u hu) ht)

/-- A task in a call holds the lock as often as before when another one takes it or gives it
back. -/
theorem LockedInv.calls_of_update {s : Locked C mutex} (h : LockedInv s) {t : Task}
    (idle : s.calls t = none) (n : ℕ) :
    ∀ u, s.calls u ≠ none → 0 < Function.update s.held t n u := by
  intro u hu
  have hne : u ≠ t := by
    rintro rfl
    exact hu idle
  rw [Function.update_of_ne hne]
  exact h.calls u hu

/-- **Step.** Every step under the rule preserves the invariant. -/
theorem LockedInv.step {s s' : Locked C mutex} {e : LockedEvent} (h : LockedInv s)
    (hs : LockedStep s e s') (hlocked : UnderLock s e) : LockedInv s' := by
  cases hs with
  | lock t idle take =>
      refine ⟨h.held.take take ?_ ?_, h.calls_of_update idle _, h.task⟩
      · exact Function.update_self t _ s.held
      · exact fun u hu => Function.update_of_ne hu _ s.held
  | unlock t idle held =>
      refine ⟨(h.held.give held ?_ ?_).2, h.calls_of_update idle _, h.task⟩
      · show Function.update s.held t _ t + 1 = s.held t
        rw [Function.update_self, Nat.sub_add_cancel held]
      · exact fun u hu => Function.update_of_ne hu _ s.held
  | call t packet idle fits =>
      refine ⟨h.held, fun u hu => ?_, fun u c hc => ?_⟩
      · by_cases hut : u = t
        · rw [hut]
          exact hlocked
        · refine h.calls u ?_
          rwa [← Function.update_of_ne hut _ s.calls]
      · by_cases hut : u = t
        · subst hut
          have hnew : Function.update s.calls u _ u = some c := hc
          rw [Function.update_self] at hnew
          rw [← Option.some.inj hnew]
        · exact h.task u c ((Function.update_of_ne hut _ _).symm.trans hc)
  | @statement d t e running notStart step =>
      refine ⟨h.held, fun u hu => ?_, fun u c hc => ?_⟩
      · by_cases hut : u = t
        · rw [hut]
          exact h.calls t running
        · refine h.calls u ?_
          rwa [← Function.update_of_ne hut _ s.calls]
      · by_cases hut : u = t
        · subst hut
          have hfind : Function.update s.calls u _ u = some c := hc
          rw [Function.update_self] at hfind
          simpa using List.find?_some hfind
        · exact h.task u c ((Function.update_of_ne hut _ _).symm.trans hc)

/-- **Run.** -/
theorem lockedInv_of_reachable {s : Locked C mutex}
    (h : ((lockedSystem C mutex).restrict UnderLock).Reachable s) : LockedInv s := by
  refine h.invariant (fun s hinit => ?_) fun s e s' _ hinv hs => hinv.step hs.1 hs.2
  obtain ⟨howner, hheld, -, hcalls, -⟩ := hinit
  exact ⟨RecursiveMutex.held_of_free howner hheld, fun t ht => absurd (hcalls t) ht,
    fun t c hc => absurd ((hcalls t).symm.trans hc) (Option.some_ne_none c).symm⟩

/-! ## The simulation -/

/-- The driver, without the lock. -/
def Locked.toState (s : Locked C mutex) : State C where
  txConfig := s.txConfig
  stack := tasks.filterMap s.calls
  nextId := s.nextId
  sent := s.sent

/-- With the other tasks outside, the call of `t` is the only one. -/
theorem filterMap_tasks {calls : Task → Option (Call C)} {t : Task}
    (hother : ∀ u, u ≠ t → calls u = none) : tasks.filterMap calls = (calls t).toList := by
  cases t with
  | tcpipThread =>
      have hinit := hother .initTask (by decide)
      have hlink := hother .linkState (by decide)
      cases hcall : calls .tcpipThread <;> simp [tasks, hcall, hinit, hlink]
  | initTask =>
      have htcpip := hother .tcpipThread (by decide)
      have hlink := hother .linkState (by decide)
      cases hcall : calls .initTask <;> simp [tasks, hcall, htcpip, hlink]
  | linkState =>
      have htcpip := hother .tcpipThread (by decide)
      have hinit := hother .initTask (by decide)
      cases hcall : calls .linkState <;> simp [tasks, hcall, htcpip, hinit]

/-- The driver of the only task in a call is the driver without the lock. -/
theorem Locked.driver_eq {s : Locked C mutex} {t : Task} (hother : ∀ u, u ≠ t → s.calls u = none) :
    s.driver t = s.toState := by
  have hrest : (tasks.filter (· ≠ t)).filterMap s.calls = [] := by
    rw [List.filterMap_eq_nil_iff]
    intro u hu
    exact hother u (by simpa using (List.mem_filter.mp hu).2)
  rw [Locked.driver, Locked.toState, filterMap_tasks hother, hrest, List.append_nil]

/-- A statement of the only call leaves that call or none. -/
theorem Step.stack_eq {d d' : State C} {e : Event} (hs : Step d e d') {c : Call C}
    (hstack : d.stack = [c]) (notStart : ∀ task packet, e ≠ .start task packet) :
    d'.stack = [] ∨ ∃ c', d'.stack = [c'] ∧ c'.task = c.task := by
  cases hs with
  | start task packet => exact absurd rfl (notStart task packet)
  | walk top =>
      obtain ⟨rfl, rfl⟩ := List.cons.inj (top.symm.trans hstack)
      exact .inr ⟨_, rfl, rfl⟩
  | walkFull top =>
      obtain ⟨rfl, rfl⟩ := List.cons.inj (top.symm.trans hstack)
      exact .inr ⟨_, rfl, rfl⟩
  | setLength top =>
      obtain ⟨rfl, rfl⟩ := List.cons.inj (top.symm.trans hstack)
      exact .inr ⟨_, rfl, rfl⟩
  | setTxBuffer top =>
      obtain ⟨rfl, rfl⟩ := List.cons.inj (top.symm.trans hstack)
      exact .inr ⟨_, rfl, rfl⟩
  | setPData top =>
      obtain ⟨rfl, rfl⟩ := List.cons.inj (top.symm.trans hstack)
      exact .inr ⟨_, rfl, rfl⟩
  | transmit status top =>
      obtain ⟨rfl, rfl⟩ := List.cons.inj (top.symm.trans hstack)
      exact .inr ⟨_, rfl, rfl⟩
  | ret top =>
      obtain ⟨rfl, rfl⟩ := List.cons.inj (top.symm.trans hstack)
      exact .inl rfl

/-- The driver after a statement of the only task in a call. -/
theorem Locked.toState_withDriver {s : Locked C mutex} {t : Task} {d : State C}
    (hother : ∀ u, u ≠ t → s.calls u = none)
    (hstack : d.stack = [] ∨ ∃ c, d.stack = [c] ∧ c.task = t) :
    (s.withDriver t d).toState = d := by
  have hcalls : tasks.filterMap (s.withDriver t d).calls = d.stack := by
    have hother' : ∀ u, u ≠ t → (s.withDriver t d).calls u = none := fun u hu =>
      (Function.update_of_ne hu _ _).trans (hother u hu)
    rw [filterMap_tasks hother']
    show (Function.update s.calls t _ t).toList = d.stack
    rw [Function.update_self]
    rcases hstack with hstack | ⟨c, hstack, htask⟩
    · simp [hstack]
    · simp [hstack, htask]
  obtain ⟨txConfig, stack, nextId, sent⟩ := d
  rw [Locked.toState, hcalls]
  rfl

/-- Under the rule, the tasks do what the tasks without a lock do when no call disturbs another. -/
theorem locked_simulation (mutex : RecursiveMutex Task) :
    System.Simulation ((lockedSystem C mutex).restrict UnderLock) ((system C).restrict Undisturbed)
      Locked.toState LockedInv where
  init s := by
    rintro ⟨-, -, htxBuffer, hcalls, hsent⟩
    refine ⟨htxBuffer, ?_, hsent⟩
    show tasks.filterMap s.calls = []
    rw [List.filterMap_eq_nil_iff]
    exact fun t _ => hcalls t
  step s e s' hinv := by
    rintro ⟨hs, hlocked⟩
    cases hs with
    | lock t idle take => exact .inl rfl
    | unlock t idle held => exact .inl rfl
    | call t packet idle fits =>
        have hother : ∀ u, u ≠ t → s.calls u = none := fun u hu => hinv.calls_eq_none hlocked hu
        have hnil : s.toState.stack = [] := by
          show tasks.filterMap s.calls = []
          rw [filterMap_tasks hother, idle]
          rfl
        have hnew : ({ s with
            calls := Function.update s.calls t (some ⟨s.nextId, t, packet, zeroTxbuffer C, .walk⟩)
            nextId := s.nextId + 1 } : Locked C mutex).toState =
            { s.toState with
              stack := ⟨s.nextId, t, packet, zeroTxbuffer C, .walk⟩ :: s.toState.stack
              nextId := s.nextId + 1 } := by
          rw [hnil, Locked.toState]
          show State.mk _ (tasks.filterMap (Function.update s.calls t _)) _ _ = _
          rw [filterMap_tasks (t := t) fun u hu =>
            (Function.update_of_ne hu _ _).trans (hother u hu), Function.update_self]
          rfl
        refine .inr ⟨.start t packet, ?_, ?_⟩
        · rw [hnew]
          exact .start t packet (by simp [hnil]) fits
        · intro c hc
          rw [hnil] at hc
          exact absurd hc List.not_mem_nil
    | @statement d t e running notStart step =>
        have hother : ∀ u, u ≠ t → s.calls u = none :=
          fun u hu => hinv.calls_eq_none (hinv.calls t running) hu
        obtain ⟨c, hc⟩ := Option.ne_none_iff_exists'.mp running
        have hstack : s.toState.stack = [c] := by
          show tasks.filterMap s.calls = [c]
          rw [filterMap_tasks hother, hc]
          rfl
        rw [Locked.driver_eq hother] at step
        have hleft := step.stack_eq hstack notStart
        rw [hinv.task t c hc] at hleft
        refine .inr ⟨e, ?_, ?_⟩
        · rw [Locked.toState_withDriver hother hleft]
          exact step
        · cases e with
          | start task packet => exact absurd rfl (notStart task packet)
          | _ => trivial

/-! ## Calls without the lock -/

/-- The other calls, while `t` runs. -/
def Locked.others (s : Locked C mutex) (t : Task) : List (Call C) :=
  (tasks.filter (· ≠ t)).filterMap s.calls

/-- A statement of a call that does not return. -/
theorem LockedStep.of_step {s : Locked C mutex} {t : Task} {e : Event} {c c' : Call C}
    {txConfig : EthTxPacketConfig} {sent : List (Sent C)} (hc : s.calls t = some c)
    (notStart : ∀ task packet, e ≠ .start task packet) (htask : c'.task = t)
    (hs : Step ⟨s.txConfig, c :: s.others t, s.nextId, s.sent⟩ e
      ⟨txConfig, c' :: s.others t, s.nextId, sent⟩) :
    LockedStep s (.statement t)
      { s with
        txConfig := txConfig
        calls := Function.update s.calls t (some c')
        sent := sent } := by
  have hdriver : s.driver t = ⟨s.txConfig, c :: s.others t, s.nextId, s.sent⟩ := by
    rw [Locked.driver, hc]
    rfl
  rw [← hdriver] at hs
  have hstep := LockedStep.statement t e (by rw [hc]; exact Option.some_ne_none c) notStart hs
  rw [Locked.withDriver, List.find?_cons_of_pos (by simp [htask])] at hstep
  exact hstep

/-- A call returns while no other one is there. -/
theorem LockedStep.of_ret {s : Locked C mutex} {t : Task} {c : Call C} {errval : ErrT}
    (hc : s.calls t = some c) (hpc : c.pc = .ret errval)
    (hother : ∀ u, u ≠ t → s.calls u = none) :
    LockedStep s (.statement t) { s with calls := Function.update s.calls t none } := by
  have hdriver : s.driver t = ⟨s.txConfig, [c], s.nextId, s.sent⟩ := by
    rw [Locked.driver_eq hother, Locked.toState, filterMap_tasks hother, hc]
    rfl
  have hret : Step (s.driver t) .ret ⟨s.txConfig, [], s.nextId, s.sent⟩ := by
    rw [hdriver]
    exact .ret rfl hpc
  exact .statement t .ret (by rw [hc]; exact Option.some_ne_none c) (by simp) hret

/-- The chain of a packet of one pbuf. -/
theorem onePbuf_chain {p : Addr} (hp : p ≠ NULL) (payload : Addr) (len : BitVec 16) :
    PbufChain (onePbuf p payload len).mem (onePbuf p payload len).p [p] :=
  .cons hp .nil

section

variable {ok : Locked (C + 1) mutex → LockedEvent → Prop} {s : Locked (C + 1) mutex} {t : Task}
  {k : Packet} {l : List Addr}

/-- A call in the middle of its stores: it has walked its chain. -/
theorem reachable_walked (hok : ∀ s, ok s (.statement t)) (hcall : ok s (.call t k))
    (hfits : k.Fits (C + 1)) (hchain : PbufChain k.mem k.p l)
    (h : ((lockedSystem (C + 1) mutex).restrict ok).Reachable s) (idle : s.calls t = none) :
    ((lockedSystem (C + 1) mutex).restrict ok).Reachable
      { s with
        txConfig := { s.txConfig with length := k.length }
        calls := Function.update s.calls t
          (some ⟨s.nextId, t, k, scatter (C + 1) k.mem l, .setTxBuffer⟩)
        nextId := s.nextId + 1 } := by
  have hcalled := h.step ⟨.call t k idle hfits, hcall⟩
  have hwalk := hcalled.step ⟨LockedStep.of_step (Function.update_self ..) (by simp) rfl
    (.walk rfl rfl (hfits.fill_eq hchain)), hok _⟩
  have hlength := hwalk.step ⟨LockedStep.of_step (Function.update_self ..) (by simp) rfl
    (.setLength rfl rfl), hok _⟩
  simpa using hlength

/-- A call after its stores. -/
theorem reachable_stored (hok : ∀ s, ok s (.statement t)) (hcall : ok s (.call t k))
    (hfits : k.Fits (C + 1)) (hchain : PbufChain k.mem k.p l)
    (h : ((lockedSystem (C + 1) mutex).restrict ok).Reachable s) (idle : s.calls t = none) :
    ((lockedSystem (C + 1) mutex).restrict ok).Reachable
      { s with
        txConfig := { s.txConfig with length := k.length, txBuffer := some s.nextId, pData := k.p }
        calls := Function.update s.calls t
          (some ⟨s.nextId, t, k, scatter (C + 1) k.mem l, .transmit⟩)
        nextId := s.nextId + 1 } := by
  have hwalked := reachable_walked hok hcall hfits hchain h idle
  have htxBuffer := hwalked.step ⟨LockedStep.of_step (Function.update_self ..) (by simp) rfl
    (.setTxBuffer rfl rfl), hok _⟩
  have hpData := htxBuffer.step ⟨LockedStep.of_step (Function.update_self ..) (by simp) rfl
    (.setPData rfl rfl), hok _⟩
  simpa using hpData

end

/-- The free lock, before any call. -/
def Locked.start (C : ℕ) (mutex : RecursiveMutex Task) : Locked C mutex :=
  ⟨mutex.free, fun _ => 0, ⟨0, 0, none, 0, 0, NULL⟩, fun _ => none, 0, []⟩

theorem Locked.start_init : (lockedSystem C mutex).init (Locked.start C mutex) :=
  ⟨mutex.owner_free, fun _ => rfl, rfl, fun _ => rfl, rfl⟩

/-- `HAL_ETH_Transmit` was called by `t` with the length of the packet that `u` is sending, which is
not that of the packet of `t`. -/
def Locked.Mixed (s : Locked C mutex) (t u : Task) : Prop :=
  ∃ x ∈ s.sent, x.call.task = t ∧ ¬ x.Own ∧ ∃ d, s.calls u = some d ∧
    x.config.length = d.packet.length ∧ x.config.length ≠ x.call.packet.length

/-- Without the lock, a call of any task can send the length of a call of any other one. -/
theorem exists_mixed_of_ne (C : ℕ) (mutex : RecursiveMutex Task) {t u : Task} (hne : t ≠ u) :
    ∃ s : Locked (C + 1) mutex, (lockedSystem (C + 1) mutex).Reachable s ∧ s.Mixed t u := by
  have hp : (0x20000000 : Addr) ≠ NULL := by decide
  have hq : (0x20000100 : Addr) ≠ NULL := by decide
  have hstart : ((lockedSystem (C + 1) mutex).restrict fun _ _ => True).Reachable
      (Locked.start (C + 1) mutex) := .init Locked.start_init
  have hstored := reachable_stored (t := t) (fun _ => trivial) trivial
    (onePbuf_fits hp 0x20001000 60) (onePbuf_chain hp _ _) hstart rfl
  -- while `t` is about to transmit, `u` stores another length
  have hother := reachable_walked (t := u) (fun _ => trivial) trivial
    (onePbuf_fits hq 0x20001100 42) (onePbuf_chain hq _ _) hstored
    (Function.update_of_ne hne.symm _ _)
  have hsent := hother.step ⟨LockedStep.of_step (t := t) (e := .transmit .halOk)
    ((Function.update_of_ne hne _ _).trans (Function.update_self ..)) (by simp) rfl
    (.transmit .halOk rfl rfl), trivial⟩
  have hlength : (onePbuf 0x20000100 0x20001100 42).length
      ≠ (onePbuf 0x20000000 0x20001000 60).length := by decide
  exact ⟨_, hsent.of_restrict, _, List.mem_append_right _ List.mem_cons_self, rfl,
    fun hown => hlength hown.1, _,
    (Function.update_of_ne hne.symm _ _).trans (Function.update_self ..), rfl, hlength⟩

/-! ## The result -/

/-- **The core lock.** In every interleaving of the tasks' statements in which every call of
`low_level_output` is made by a task that holds the core lock, every call of `HAL_ETH_Transmit` sees
the `Length`, `TxBuffer` and `pData` of its caller's own packet, and the caller's own array. Without
the lock, any task can send the length of the packet of any other one, whatever their
priorities. -/
theorem sent_own_of_underLock (C : ℕ) (mutex : RecursiveMutex Task) :
    (∀ s : Locked C mutex, ((lockedSystem C mutex).restrict UnderLock).Reachable s →
      ∀ x ∈ s.sent, x.Own) ∧
      ∀ t u : Task, t ≠ u → ∃ s : Locked (C + 1) mutex,
        (lockedSystem (C + 1) mutex).Reachable s ∧ s.Mixed t u :=
  ⟨fun _ h => sent_own_of_undisturbed
      ((locked_simulation mutex).reachable (fun _ hr => lockedInv_of_reachable hr) h),
    fun _ _ hne => exists_mixed_of_ne C mutex hne⟩

/-- A task that finds the lock free takes it, sends a packet and gives the lock back. -/
theorem exists_sent_of_free {s : Locked (C + 1) mutex} (t : Task) {k : Packet} {l : List Addr}
    (h : ((lockedSystem (C + 1) mutex).restrict UnderLock).Reachable s)
    (hfits : k.Fits (C + 1)) (hchain : PbufChain k.mem k.p l)
    (hfree : mutex.owner s.lockTcpipCore = none) (hidle : ∀ u, s.calls u = none) :
    ∃ s' : Locked (C + 1) mutex, ((lockedSystem (C + 1) mutex).restrict UnderLock).Reachable s' ∧
      mutex.owner s'.lockTcpipCore = none ∧ (∀ u, s'.calls u = none) ∧
      ∃ x, s'.sent = s.sent ++ [x] ∧ x.call.task = t ∧ x.call.packet = k := by
  obtain ⟨m, htake, howner⟩ := mutex.take_free t _ hfree
  have hlock := h.step ⟨.lock t (hidle t) htake, trivial⟩
  have hheld : 0 < Function.update s.held t (s.held t + 1) t := by
    rw [Function.update_self]
    exact Nat.succ_pos _
  have hstored := reachable_stored (fun _ => trivial) hheld hfits hchain hlock (hidle t)
  have hsent := hstored.step ⟨LockedStep.of_step (e := .transmit .halOk) (Function.update_self ..)
    (by simp) rfl (.transmit .halOk rfl rfl), trivial⟩
  have hother : ∀ c u, u ≠ t → Function.update s.calls t c u = none := fun c u hu =>
    (Function.update_of_ne hu _ _).trans (hidle u)
  rw [Function.update_idem] at hsent
  have hret := hsent.step ⟨.of_ret (Function.update_self ..) rfl (hother _), trivial⟩
  rw [Function.update_idem] at hret
  have hunlock := hret.step ⟨.unlock t (Function.update_self ..) hheld, trivial⟩
  refine ⟨_, hunlock, (mutex.give_last t m howner).2, fun u => ?_, _, rfl, rfl, rfl⟩
  by_cases hu : u = t
  · rw [hu]
    exact Function.update_self ..
  · exact hother _ u hu

/-- `link_state` takes the lock and sends a packet, and then the `TCP/IP` thread does. -/
theorem sent_own_of_underLock_twoTasks :
    ∃ s : Locked 4 (.counting Task),
      ((lockedSystem 4 (.counting Task)).restrict UnderLock).Reachable s ∧
      s.sent.map (fun x => x.call.task) = [.linkState, .tcpipThread] ∧ ∀ x ∈ s.sent, x.Own := by
  have hp : (0x20000000 : Addr) ≠ NULL := by decide
  have hq : (0x20000100 : Addr) ≠ NULL := by decide
  obtain ⟨s, hs, hfree, hidle, x, hx, hlink, -⟩ := exists_sent_of_free .linkState
    (.init Locked.start_init) (onePbuf_fits hq 0x20001100 42) (onePbuf_chain hq _ _)
    (RecursiveMutex.counting Task).owner_free fun _ => rfl
  obtain ⟨s', hs', -, -, y, hy, htcpip, -⟩ := exists_sent_of_free .tcpipThread hs
    (onePbuf_fits hp 0x20001000 60) (onePbuf_chain hp _ _) hfree hidle
  refine ⟨s', hs', ?_, (sent_own_of_underLock 4 (.counting Task)).1 _ hs'⟩
  rw [hy, hx]
  simp [Locked.start, hlink, htcpip]

end Stm32Eth.Tx
