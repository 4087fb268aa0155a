import Stm32Eth.Rx.Statements

/-!
# The receive path without the priorities

`statements_refine` rests on the priorities of the two tasks. Here the `TCP/IP` thread may run
between any two statements of `ethif_in`. The machine still does all that the receive machine does
(`reachable_preemptive`), and it does more. Between the `LWIP_MEMPOOL_ALLOC` that returns `NULL` and
the store of `RX_ALLOC_ERROR` the thread can release every frame. Then nobody is left to store
`RX_ALLOC_OK`, and `ethif_in` never reads a frame again (`wakeup_lost`).
-/

namespace Stm32Eth.Rx

open Transition

variable {D : ℕ} {pool : RxPool}
  {pbufAllocedCustom : BitVec 16 → Addr → BitVec 16 → Pbuf → Pbuf} {refuses : Multiset Addr → Prop}

/-- The statements of `ethif_in` with the `TCP/IP` thread at any time. -/
def preemptive (D : ℕ) (pool : RxPool)
    (pbufAllocedCustom : BitVec 16 → Addr → BitVec 16 → Pbuf → Pbuf)
    (refuses : Multiset Addr → Prop) : System (Fine D) FineEvent :=
  fineSystem pool pbufAllocedCustom refuses fun _ => True

/-! ## It does all that the receive machine does -/

section

variable {s t : State D} {code : Option (Code D)} {d : Bool} {i : Fin D}

/-- `vTaskDelay` returns. -/
theorem awake_of_reachable
    (h : (preemptive D pool pbufAllocedCustom refuses).Reachable ⟨s, code, d⟩) :
    (preemptive D pool pbufAllocedCustom refuses).Reachable ⟨s, code, false⟩ := by
  cases d with
  | false => exact h
  | true => exact h.step (.wake rfl)

/-- The thread runs, wherever `ethif_in` is. -/
theorem reachable_thread {es : List Event}
    (hrun : (system pool pbufAllocedCustom refuses).Run s es t) (hes : ∀ e ∈ es, e.ofThread)
    (h : (preemptive D pool pbufAllocedCustom refuses).Reachable ⟨s, code, d⟩) :
    (preemptive D pool pbufAllocedCustom refuses).Reachable ⟨t, code, d⟩ := by
  induction hrun with
  | nil => exact h
  | @cons s u t e es hs _ ih =>
      obtain ⟨he, hes⟩ := List.forall_mem_cons.mp hes
      exact ih hes (h.step (.thread he trivial hs))

/-- `pbuf_free_custom` runs to its return. -/
theorem reachable_freed {p : Addr} {todo : List Addr} (hfreeing : s.rx = .freeing (p :: todo))
    (h : (preemptive D pool pbufAllocedCustom refuses).Reachable
      ⟨s, some (.free .mempoolFree), d⟩) :
    (preemptive D pool pbufAllocedCustom refuses).Reachable
      ⟨{ s with shared := pbufFreeCustom p s.shared, rx := .freeing todo }, none, d⟩ := by
  have htest := (h.step (.mempoolFree rfl hfreeing)).step (.testStatus rfl)
  by_cases herror : (s.shared.mempoolFree p).rxAllocStatus = .rxAllocError
  · rw [if_pos herror] at htest
    rw [pbufFreeCustom, Shared.signal, if_pos herror]
    exact (htest.step (.storeOk rfl)).step (.freed rfl hfreeing)
  · rw [if_neg herror] at htest
    rw [pbufFreeCustom, Shared.signal, if_neg herror]
    exact htest.step (.freed rfl hfreeing)

end

/-- **The receive machine is preemptive.** The machine with preemption reaches every state of the
receive machine, with `ethif_in` outside the functions of `ethif.c`. -/
theorem reachable_preemptive {c : State D}
    (hc : (system pool pbufAllocedCustom refuses).Reachable c) :
    (preemptive D pool pbufAllocedCustom refuses).Reachable ⟨c, none, false⟩ := by
  induction hc with
  | init hinit => exact awake_of_reachable (d := true) (.init ⟨hinit, rfl, rfl⟩)
  | @step s t e hr hs ih =>
      by_cases hthread : e.ofThread
      · exact reachable_thread (.single hs) (by simpa using hthread) ih
      by_cases hdriver : e.ofDriver
      · exact awake_of_reachable (ih.step (.driver hdriver rfl rfl hs))
      cases hs with
      | dmaComplete i length last attached empty =>
          exact ih.step (.dma (.dmaComplete i length last attached empty))
      | link i fuel reading attached filled call =>
          have hcall := ih.step (.callLink i rfl rfl reading attached filled)
          have hnil := System.Run.nil (M := preemptive D pool pbufAllocedCustom refuses)
          obtain ⟨es, hlinked⟩ := run_linked (hnil _) (fun _ hs => hs) filled
            (linkStatements_iff.mpr call)
          exact (hcall.run hlinked).step (.linked rfl reading filled)
      | @refill ready p buff shared i reading detached answer call got =>
          obtain ⟨hp, -⟩ := got_of_ne answer call got
          have hne := pool.ne_null p ((inv_of_reachable hr).mem_elems (o := .rxPool) hp)
          obtain ⟨rfl, rfl⟩ : p + pool.offsetofBuff = buff ∧
              (halEthRxAllocateCallback pool pbufAllocedCustom p s.shared).2 = shared := by
            rw [halEthRxAllocateCallback_of_ne _ hne] at call ⊢
            exact Prod.mk.inj call
          exact reachable_allocated i ih rfl rfl reading detached answer hne got
      | @refillNull ready p buff shared i reading detached answer call none =>
          obtain ⟨hrefuses, rfl⟩ := (inv_of_reachable hr).refused answer call none
          have halloc := (ih.step (.callAlloc i rfl rfl reading detached)).step
            (.mempoolAllocNull rfl (.inr ⟨rfl, hrefuses⟩))
          exact (halloc.step (.storeError rfl)).step (.allocatedNull rfl reading)
      | @rxFree p todo freeing =>
          have hinv := inv_of_reachable hr
          have hown : p ∈ ledger pool s .driver := by simp [ledger, freeing]
          rw [hinv.callCustomFree_eq freeing]
          exact reachable_freed freeing
            (ih.step (.callFree rfl rfl freeing (hinv.customFree_of_mem hown (by simp))))
      | rxFreed freeing => exact awake_of_reachable (ih.step (.allFreed rfl rfl freeing))
      | _ => first | exact absurd rfl hthread | exact absurd rfl hdriver

/-! ## The thread releases every frame -/

theorem Event.ofThread_of_inFreeCustom {e : Event} (h : e.inFreeCustom) : e.ofThread := by
  cases e with
  | mempoolFree => rfl
  | testStatus => rfl
  | storeOk => rfl
  | _ => exact absurd h (by decide)

/-- A run of the thread that releases the pbufs `l`. -/
structure Releases (pool : RxPool) (pbufAllocedCustom : BitVec 16 → Addr → BitVec 16 → Pbuf → Pbuf)
    (refuses : Multiset Addr → Prop) (s t : State D) (l : Multiset Addr) : Prop where
  run : ∃ es, (∀ e ∈ es, e.ofThread) ∧ (system pool pbufAllocedCustom refuses).Run s es t
  rx : t.rx = s.rx
  rxPool : t.shared.rxPool = l + s.shared.rxPool

namespace Releases

variable {s t u : State D} {l l' : Multiset Addr}

theorem refl (s : State D) : Releases pool pbufAllocedCustom refuses s s 0 where
  run := ⟨[], by simp, .nil s⟩
  rx := rfl
  rxPool := (zero_add _).symm

theorem trans (h : Releases pool pbufAllocedCustom refuses s t l)
    (h' : Releases pool pbufAllocedCustom refuses t u l') :
    Releases pool pbufAllocedCustom refuses s u (l + l') where
  run := by
    obtain ⟨es, hes, hrun⟩ := h.run
    obtain ⟨fs, hfs, hrun'⟩ := h'.run
    refine ⟨es ++ fs, fun e he => ?_, hrun.append hrun'⟩
    rcases List.mem_append.mp he with he | he
    · exact hes e he
    · exact hfs e he
  rx := h'.rx.trans h.rx
  rxPool := by
    rw [h'.rxPool, h.rxPool, ← add_assoc, add_comm l']

theorem reachable (h : Releases pool pbufAllocedCustom refuses s t l)
    (hs : (system pool pbufAllocedCustom refuses).Reachable s) :
    (system pool pbufAllocedCustom refuses).Reachable t := by
  obtain ⟨es, -, hrun⟩ := h.run
  exact hs.run hrun

theorem step {e : Event} (he : e.ofThread) (hs : Step pool pbufAllocedCustom refuses s e t)
    (hrx : t.rx = s.rx) (hpool : t.shared.rxPool = s.shared.rxPool) :
    Releases pool pbufAllocedCustom refuses s t 0 where
  run := ⟨[e], by simpa using he, .single hs⟩
  rx := hrx
  rxPool := hpool.trans (zero_add _).symm

end Releases

/-- The thread finishes the release in progress. -/
theorem exists_finished (l : List Addr) : ∀ {s : State D},
    (system pool pbufAllocedCustom refuses).Reachable s → s.tcpip = .freeing l →
    ∃ t, Releases pool pbufAllocedCustom refuses s t l ∧ t.frames = s.frames ∧ t.tcpip = .idle := by
  induction l with
  | nil =>
      intro s h hfreeing
      exact ⟨_, .step rfl (.released hfreeing) rfl rfl, rfl, rfl⟩
  | cons p l ih =>
      intro s h hfreeing
      obtain ⟨es, hes, hrun⟩ := run_pbufFreeCustom pool pbufAllocedCustom refuses hfreeing
        ((inv_of_reachable h).customFree_of_freeing hfreeing)
      obtain ⟨t, ht, hframes, hidle⟩ := ih (h.run hrun) rfl
      have hfirst : Releases pool pbufAllocedCustom refuses s
          { s with shared := pbufFreeCustom p s.shared, tcpip := .freeing l } {p} :=
        ⟨⟨es, fun e he => Event.ofThread_of_inFreeCustom (hes e he), hrun⟩, rfl,
          (pbufFreeCustom_rxPool p s.shared).trans (Multiset.singleton_add p _).symm⟩
      exact ⟨t, hfirst.trans ht, hframes, hidle⟩

/-- The thread releases every frame. -/
theorem exists_released (n : ℕ) : ∀ {s : State D},
    (system pool pbufAllocedCustom refuses).Reachable s → s.tcpip = .idle →
    Multiset.card s.frames = n →
    ∃ t, Releases pool pbufAllocedCustom refuses s t s.heldByStack ∧ t.frames = 0 ∧
      t.tcpip = .idle := by
  induction n with
  | zero =>
      intro s h hidle hcard
      have hframes := Multiset.card_eq_zero.mp hcard
      have hheld : s.heldByStack = 0 := by simp [State.heldByStack, hframes, hidle, TcpipPc.todo]
      rw [hheld]
      exact ⟨s, .refl s, hframes, hidle⟩
  | succ n ih =>
      intro s h hidle hcard
      obtain ⟨l, hl⟩ := Multiset.card_pos_iff_exists_mem.mp (by omega : 0 < s.frames.card)
      obtain ⟨frames, hframes⟩ := Multiset.exists_cons_of_mem hl
      have hrelease : Step pool pbufAllocedCustom refuses s .release
          { s with frames := frames, tcpip := .freeing l } := .release hframes hidle
      obtain ⟨t, ht, htframes, htidle⟩ := exists_finished l (h.step hrelease) rfl
      have hfirst := (Releases.step rfl hrelease rfl rfl).trans ht
      obtain ⟨u, hu, huframes, huidle⟩ := ih (hfirst.reachable h) htidle (by
        rw [hframes, Multiset.card_cons] at hcard
        rw [htframes]
        exact Nat.succ.inj hcard)
      have hheld : s.heldByStack = 0 + l + t.heldByStack := by
        simp [State.heldByStack, hframes, htframes, hidle, htidle, TcpipPc.todo]
      rw [hheld]
      exact ⟨u, hfirst.trans hu, huframes, huidle⟩

/-! ## The lost wake-up -/

/-- `ethif_in` waits for a release to store `RX_ALLOC_OK`, and there is none to come. -/
structure Dead (s : Fine D) : Prop where
  rx : s.state.rx = .idle
  code : s.code = none
  status : s.state.shared.rxAllocStatus = .rxAllocError
  rxPool : s.state.shared.rxPool ≠ 0
  frames : s.state.frames = 0
  tcpip : s.state.tcpip = .idle

/-- A step of the receive machine keeps it so. -/
theorem Dead.coarse {s t : State D} {e : Event} {code : Option (Code D)} {d d' : Bool}
    (h : Dead ⟨s, code, d⟩) (hs : Step pool pbufAllocedCustom refuses s e t) :
    Dead ⟨t, code, d'⟩ := by
  obtain ⟨hrx, hcode, hstatus, hpool, hframes, htcpip⟩ := h
  cases hs with
  | dmaComplete i length last attached empty => exact ⟨hrx, hcode, hstatus, hpool, hframes, htcpip⟩
  | pollSkip idle error => exact ⟨rfl, hcode, hstatus, hpool, hframes, htcpip⟩
  | lwipWrite mem frame keep => exact ⟨hrx, hcode, hstatus, hpool, hframes, htcpip⟩
  | pollRead idle ok => exact absurd (ok.symm.trans hstatus) (by simp)
  | release accepted idle => exact absurd (accepted.symm.trans hframes) (by simp)
  | _ => simp_all

/-- **Step.** Every step keeps it so. -/
theorem Dead.step {s t : Fine D} {e : FineEvent} (h : Dead s)
    (hs : (preemptive D pool pbufAllocedCustom refuses).step s e t) : Dead t := by
  cases e with
  | dma =>
      cases hs with
      | dma step => exact h.coarse step
  | thread =>
      cases hs with
      | thread ofThread run step => exact h.coarse step
  | driver =>
      cases hs with
      | driver ofDriver outside awake step => exact h.coarse step
  | wake =>
      cases hs with
      | wake delayed => exact ⟨h.rx, h.code, h.status, h.rxPool, h.frames, h.tcpip⟩
  | statement => exact absurd h.code hs.code_ne_none
  | call =>
      have hrx := h.rx
      cases hs <;> simp_all

/-- **Run.** Every run keeps it so. -/
theorem Dead.run {s t : Fine D} {es : List FineEvent} (h : Dead s)
    (hrun : (preemptive D pool pbufAllocedCustom refuses).Run s es t) : Dead t := by
  induction hrun with
  | nil => exact h
  | cons hs _ ih => exact ih (h.step hs)

/-- The thread releases every frame after `LWIP_MEMPOOL_ALLOC` has returned `NULL` and before
`RX_ALLOC_ERROR` is stored. -/
theorem exists_dead (pool : RxPool)
    (pbufAllocedCustom : BitVec 16 → Addr → BitVec 16 → Pbuf → Pbuf)
    (hcard : 2 * (D + 1) < pool.elems.card) (mem : Mem) :
    ∃ s, (preemptive (D + 1) pool pbufAllocedCustom (· = 0)).Reachable s ∧ Dead s := by
  obtain ⟨c, hc, hrefilling, hempty⟩ := exists_empty (D := D) pool pbufAllocedCustom (· = 0) mem
  obtain ⟨t, ht, hframes, hidle⟩ := exists_released _ hc hrefilling.idle rfl
  -- the stack holds the whole pool but the buffers of the descriptors
  have hheld : c.heldByStack ≠ 0 := by
    have hbuilding : c.building = [] := by
      rw [State.building, hrefilling.start]
      exact Linked.nodes_null _
    have hle := (inv_of_reachable hc).card_held hempty (by simp [hbuilding])
    rw [hrefilling.reading, RxPc.held_reading, List.length_nil] at hle
    intro hnone
    rw [hnone, Multiset.card_zero] at hle
    omega
  obtain ⟨es, hes, hrun⟩ := ht.run
  have hnull := ((reachable_preemptive hc).step
    (.callAlloc 0 rfl rfl hrefilling.reading hrefilling.detached)).step
    (.mempoolAllocNull rfl (.inr ⟨rfl, hempty⟩))
  have hreleased := reachable_thread hrun hes hnull
  have hreading : t.rx = .reading true false := ht.rx.trans hrefilling.reading
  have hstored := (hreleased.step (.storeError rfl)).step (.allocatedNull rfl hreading)
  have hdead := hstored.step (.driver (e := .readDone) rfl rfl rfl (.readError rfl))
  refine ⟨_, hdead, rfl, rfl, rfl, ?_, hframes, hidle⟩
  show t.shared.rxPool ≠ 0
  rw [ht.rxPool, hempty, add_zero]
  exact hheld

/-- **The priorities are needed.** Let the pool have more than twice as many elements as there are
descriptors, and refuse an element only when it is empty. Were the `TCP/IP` thread able to run
between any two statements of `ethif_in`, some run would lead to a state from which, whatever
happens, `ethif_in` never calls `HAL_ETH_ReadData` again, although the pool has free elements:
`RX_ALLOC_ERROR` stays stored, and the stack has nothing left to release. -/
theorem wakeup_lost (pool : RxPool)
    (pbufAllocedCustom : BitVec 16 → Addr → BitVec 16 → Pbuf → Pbuf)
    (hcard : 2 * (D + 1) < pool.elems.card) (mem : Mem) :
    ∃ s, (preemptive (D + 1) pool pbufAllocedCustom (· = 0)).Reachable s ∧
      ∀ es t, (preemptive (D + 1) pool pbufAllocedCustom (· = 0)).Run s es t →
        t.state.rx = .idle ∧ t.code = none ∧ t.state.shared.rxAllocStatus = .rxAllocError ∧
        t.state.shared.rxPool ≠ 0 ∧ t.state.heldByStack = 0 := by
  obtain ⟨s, hs, hdead⟩ := exists_dead pool pbufAllocedCustom hcard mem
  refine ⟨s, hs, fun es t hrun => ?_⟩
  have h := hdead.run hrun
  refine ⟨h.rx, h.code, h.status, h.rxPool, ?_⟩
  simp [State.heldByStack, h.frames, h.tcpip, TcpipPc.todo]

/-- The twelve buffers of `ramPool`, with four descriptors. -/
theorem wakeup_lost_ramPool :
    ∃ s, (preemptive 4 ramPool lwipAllocedCustom (· = 0)).Reachable s ∧
      ∀ es t, (preemptive 4 ramPool lwipAllocedCustom (· = 0)).Run s es t →
        t.state.shared.rxAllocStatus = .rxAllocError ∧ t.state.shared.rxPool ≠ 0 := by
  obtain ⟨s, hs, hlost⟩ := wakeup_lost (D := 3) ramPool lwipAllocedCustom
    (by rw [ramPool_card]; decide) fun _ => ⟨⟨NULL, 0, 0, 0⟩, none⟩
  exact ⟨s, hs, fun es t hrun => ⟨(hlost es t hrun).2.2.1, (hlost es t hrun).2.2.2.1⟩⟩

end Stm32Eth.Rx
