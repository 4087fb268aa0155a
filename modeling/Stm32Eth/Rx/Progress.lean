import Stm32Eth.Rx.Statements
import Mathlib.Algebra.BigOperators.Ring.Finset

/-!
# Every wake-up of `ethif_in` ends

While `ethif_in` is awake the `TCP/IP` thread does not run, and the DMA may fill one buffer after
the other. Still `ethif_in` gets back to `vTaskDelay` after a bounded number of statements
(`wakeUp_bounded`): each buffer it links has left the pool and the descriptors, nobody returns one
until `ethif_in` frees a rejected frame, and that ends its `do` loop.

The bound is a potential, `State.work`. A free element and an attached buffer stand for the
statements that link it, pass its frame on and poll again, and a descriptor without a buffer for
those that refill it.
-/

namespace Stm32Eth.Rx

open Ledger
open Transition

variable {D : ℕ} {pool : RxPool}
  {pbufAllocedCustom : BitVec 16 → Addr → BitVec 16 → Pbuf → Pbuf} {refuses : Multiset Addr → Prop}

/-! ## The work ahead -/

/-- The statements a buffer can still cause, in a pool of `n` elements. -/
def bufferWork (n : ℕ) : ℕ := 6 * n + 24

/-- The work at a descriptor. -/
def RxDesc.work (n : ℕ) (d : RxDesc) : ℕ := if d.buff = NULL then 5 else bufferWork n

/-- The work of `ethif_in` that does not depend on the buffers. -/
def RxPc.work (n : ℕ) : RxPc → ℕ
  | .idle => 7
  | .reading refill ready => (if refill then 5 else 0) + if ready then 5 * n + 10 else 1
  | .input _ => 5 * n + 9
  | .freeing todo => 5 * todo.length + 5

/-- The work at the free elements of the pool. A rejected frame goes back to the pool, but then the
`do` loop ends. -/
def RxPc.poolWork (n free : ℕ) : RxPc → ℕ
  | .freeing _ => 0
  | _ => bufferWork n * free

/-- The work ahead of `ethif_in` before it sleeps. -/
def State.work (pool : RxPool) (s : State D) : ℕ :=
  s.rx.work pool.elems.card + s.rx.poolWork pool.elems.card s.shared.rxPool.card +
    ∑ i, (s.desc i).work pool.elems.card

/-- The statements a step of the receive machine stands for, at most. -/
def Event.cost (n : ℕ) : Event → ℕ
  | .poll | .readDone | .accept | .reject => 1
  | .refill | .rxFree => 5
  | .link => n + 10
  | _ => 0

/-- The work at the descriptors when one of them changes. -/
theorem sum_work_update (n : ℕ) (desc : Fin D → RxDesc) (i : Fin D) (d : RxDesc) :
    ∑ j, (Function.update desc i d j).work n + (desc i).work n
      = ∑ j, (desc j).work n + d.work n := by
  have hupdate : (fun j => (Function.update desc i d j).work n)
      = Function.update (fun j => (desc j).work n) i (d.work n) := by
    funext j
    exact Function.apply_update (fun _ d => RxDesc.work n d) desc i d j
  rw [hupdate, Finset.sum_update_of_mem (Finset.mem_univ i),
    Finset.sum_eq_add_sum_sdiff_singleton_of_mem (Finset.mem_univ i) fun j => (desc j).work n]
  omega

/-- A change of a descriptor that keeps its buffer. -/
theorem sum_work_filled (n : ℕ) (desc : Fin D → RxDesc) (i : Fin D)
    (f : Option (BitVec 16 × Bool)) :
    ∑ j, (Function.update desc i { desc i with filled := f } j).work n
      = ∑ j, (desc j).work n := by
  have hsum := sum_work_update n desc i { desc i with filled := f }
  exact Nat.add_right_cancel hsum

/-- What a step of `ethif_in` does with the work ahead: it takes its cost away, or the `do` loop
ends. -/
def Works (pool : RxPool) (s : State D) (e : Event) (t : State D) : Prop :=
  t.work pool + e.cost pool.elems.card ≤ s.work pool ∨
    (e = .poll ∨ e = .readDone ∨ e = .rxFree ∧ s.rx = .freeing []) ∧ t.rx = .idle

/-- There is always a statement ahead. -/
theorem State.work_pos (pool : RxPool) (s : State D) : 0 < s.work pool := by
  have hrx : 0 < s.rx.work pool.elems.card := by
    cases s.rx with
    | idle => simp [RxPc.work]
    | reading refill ready => cases ready <;> simp [RxPc.work]
    | input p => simp [RxPc.work]
    | freeing todo => simp [RxPc.work]
  rw [State.work]
  omega

/-- **Step.** The work of `ethif_in`. -/
theorem Inv.works {s t : State D} {e : Event} (h : Inv pool s)
    (hs : Step pool pbufAllocedCustom refuses s e t) (he : e.ofThread = false) :
    Works pool s e t := by
  cases hs with
  | dmaComplete i length last attached empty =>
      refine .inl (le_of_eq ?_)
      simp only [State.work, Event.cost, sum_work_filled, add_zero]
  | pollRead idle ok =>
      refine .inl ?_
      simp only [State.work, idle, RxPc.work, RxPc.poolWork, Event.cost, Bool.false_eq_true,
        if_true, if_false]
      omega
  | pollSkip idle error => exact .inr ⟨.inl rfl, rfl⟩
  | @link refill last length f i fuel reading attached filled call =>
      refine .inl ?_
      have hsum := sum_work_update pool.elems.card s.desc i { buff := NULL, filled := none }
      have hdesc : (s.desc i).work pool.elems.card = 6 * pool.elems.card + 24 := if_neg attached
      have hnew : RxDesc.work pool.elems.card { buff := NULL, filled := none } = 5 := if_pos rfl
      have hready : (if last then 5 * pool.elems.card + 10 else 1) ≤ 5 * pool.elems.card + 10 := by
        split <;> omega
      rw [hdesc, hnew] at hsum
      simp only [State.work, reading, RxPc.work, RxPc.poolWork, Event.cost, Bool.false_eq_true,
        if_false]
      omega
  | @refill ready p buff shared i reading detached answer call got =>
      refine .inl ?_
      obtain ⟨hp, -⟩ := got_of_ne answer call got
      rw [halEthRxAllocateCallback_of_ne _ (pool.ne_null p (h.mem_elems (o := .rxPool) hp))] at call
      obtain ⟨rfl, rfl⟩ := Prod.mk.inj call
      -- the element moves from the pool to the descriptor
      have hsum := sum_work_update pool.elems.card s.desc i
        { buff := p + pool.offsetofBuff, filled := none }
      have hpool := Nat.mul_succ (bufferWork pool.elems.card) (s.shared.rxPool.erase p).card
      rw [Nat.succ_eq_add_one, Multiset.card_erase_add_one hp] at hpool
      have hdesc : (s.desc i).work pool.elems.card = 5 := if_pos detached
      have hnew : RxDesc.work pool.elems.card { buff := p + pool.offsetofBuff, filled := none }
          = bufferWork pool.elems.card := if_neg got
      rw [hdesc, hnew] at hsum
      simp only [State.work, reading, RxPc.work, RxPc.poolWork, Event.cost, if_true]
      omega
  | @refillNull ready p buff shared i reading detached answer call none =>
      refine .inl ?_
      obtain ⟨-, rfl⟩ := h.refused answer call none
      simp only [State.work, reading, RxPc.work, RxPc.poolWork, Event.cost, Bool.false_eq_true,
        if_true, if_false]
      omega
  | readOk reading =>
      by_cases hstart : s.pRxStart = NULL
      · exact .inr ⟨.inr (.inl rfl), if_pos hstart⟩
      · refine .inl ?_
        simp only [State.work, reading, afterInput, if_neg hstart, RxPc.work, RxPc.poolWork,
          Event.cost, if_true]
        omega
  | readError reading => exact .inr ⟨.inr (.inl rfl), rfl⟩
  | accept input chain =>
      refine .inl ?_
      simp only [State.work, input, RxPc.work, RxPc.poolWork, Event.cost]
      omega
  | @reject p l input chain =>
      refine .inl ?_
      -- `pbuf_free` frees no more than the pool has
      have hl : l.length ≤ pool.elems.card := by
        have hle := Multiset.card_le_card (le_total (ledger pool s) .driver)
        rw [h.total_eq, Finset.card_val, ledger, input, RxPc.held_input, chain.nodes_eq] at hle
        exact hle
      simp only [State.work, input, RxPc.work, RxPc.poolWork, Event.cost]
      omega
  | rxFree freeing =>
      refine .inl ?_
      simp only [State.work, freeing, RxPc.work, RxPc.poolWork, Event.cost, List.length_cons]
      omega
  | rxFreed freeing => exact .inr ⟨.inr (.inr ⟨rfl, freeing⟩), rfl⟩
  | _ => exact absurd he (by simp [Event.ofThread])

/-- The DMA makes no work. -/
theorem Step.work_dma {s t : State D}
    (hs : Step pool pbufAllocedCustom refuses s .dmaComplete t) : t.work pool = s.work pool := by
  cases hs with
  | dmaComplete i length last attached empty => simp only [State.work, sum_work_filled]

/-! ## The statements of a call -/

/-- The statements of the allocate callback that are left, at most. -/
def AllocPc.left : AllocPc → ℕ
  | .mempoolAlloc => 4
  | .setCustomFree _ => 3
  | .allocedCustom _ => 2
  | .storeError => 2
  | .allocated _ => 1

/-- The statements of `pbuf_free_custom` that are left, at most. -/
def FreePc.left : FreePc → ℕ
  | .mempoolFree => 4
  | .testStatus => 3
  | .storeOk => 2
  | .freed => 1

/-- At most `n + 1` statements of a call are left. -/
def Code.Left (pool : RxPool) (s : State D) (n : ℕ) : Code D → Prop
  | .alloc _ pc => pc.left ≤ n + 1
  | .link i pc => ∃ length last t, (s.desc i).filled = some (length, last) ∧
      linkStatements pool (s.desc i).buff length n (pc, s.frame) = (.linked, t)
  | .free pc => pc.left ≤ n + 1

/-- At most `k` statements are left before `ethif_in` sleeps. -/
def AtMost (pool : RxPool) (c s : State D) (k : ℕ) : Option (Code D) → Prop
  | none => c.work pool ≤ k
  | some code => code.event.cost pool.elems.card ≤ c.work pool ∧
      ∃ n, code.Left pool s n ∧ c.work pool + n + 1 ≤ k + code.event.cost pool.elems.card

/-- The DMA fills a buffer while a callback runs. -/
theorem Code.Left.dma {s t : State D} {code : Code D} {n : ℕ} (h : code.Left pool s n)
    (hs : Step pool pbufAllocedCustom refuses s .dmaComplete t) : code.Left pool t n := by
  cases hs with
  | dmaComplete j length last attached empty =>
      cases code with
      | alloc i pc => exact h
      | free pc => exact h
      | link i pc =>
          obtain ⟨length', last', t, filled, hreturn⟩ := h
          have hij : i ≠ j := by
            rintro rfl
            exact absurd (filled.symm.trans empty) (by simp)
          have hdesc := Function.update_of_ne hij { s.desc j with filled := some (length, last) }
            s.desc
          rw [← hdesc] at filled hreturn
          exact ⟨length', last', t, filled, hreturn⟩

/-- Fewer than `n + 1` statements. -/
theorem exists_pred_of_lt {l l' n : ℕ} (h : l ≤ n + 1) (hlt : 0 < l' ∧ l' < l) :
    ∃ m, n = m + 1 ∧ l' ≤ m + 1 :=
  ⟨n - 1, by omega, by omega⟩

/-- A statement of a call that goes on leaves one less. -/
theorem Code.Left.step {s t : Fine D} {code code' : Code D} {n : ℕ} {runs : Fine D → Prop}
    (h : code.Left pool s.state n) (hcode : s.code = some code) (hcode' : t.code = some code')
    (hs : FineStep pool pbufAllocedCustom refuses runs s .statement t) :
    code'.event = code.event ∧ ∃ m, n = m + 1 ∧ code'.Left pool t.state m := by
  cases hs with
  | mempoolAlloc here answer got =>
      obtain rfl := Option.some.inj (hcode.symm.trans here)
      obtain rfl := Option.some.inj hcode'
      exact ⟨rfl, exists_pred_of_lt h (by simp [AllocPc.left])⟩
  | mempoolAllocNull here answer =>
      obtain rfl := Option.some.inj (hcode.symm.trans here)
      obtain rfl := Option.some.inj hcode'
      exact ⟨rfl, exists_pred_of_lt h (by simp [AllocPc.left])⟩
  | setCustomFree here =>
      obtain rfl := Option.some.inj (hcode.symm.trans here)
      obtain rfl := Option.some.inj hcode'
      exact ⟨rfl, exists_pred_of_lt h (by simp [AllocPc.left])⟩
  | allocedCustom here =>
      obtain rfl := Option.some.inj (hcode.symm.trans here)
      obtain rfl := Option.some.inj hcode'
      exact ⟨rfl, exists_pred_of_lt h (by simp [AllocPc.left])⟩
  | storeError here =>
      obtain rfl := Option.some.inj (hcode.symm.trans here)
      obtain rfl := Option.some.inj hcode'
      exact ⟨rfl, exists_pred_of_lt h (by simp [AllocPc.left])⟩
  | allocated here got => exact absurd hcode' (by simp)
  | allocatedNull here reading => exact absurd hcode' (by simp)
  | @link last length i pc here running filled =>
      obtain rfl := Option.some.inj (hcode.symm.trans here)
      obtain rfl := Option.some.inj hcode'
      obtain ⟨length', last', f, filled', hreturn⟩ := h
      obtain ⟨rfl, -⟩ := Prod.mk.inj (Option.some.inj (filled.symm.trans filled'))
      cases n with
      | zero => exact absurd (Prod.mk.inj hreturn).1 running
      | succ m =>
          rw [linkStatements_succ] at hreturn
          exact ⟨rfl, m, rfl, length, last, f, filled, hreturn⟩
  | linked here reading filled => exact absurd hcode' (by simp)
  | mempoolFree here freeing =>
      obtain rfl := Option.some.inj (hcode.symm.trans here)
      obtain rfl := Option.some.inj hcode'
      exact ⟨rfl, exists_pred_of_lt h (by simp [FreePc.left])⟩
  | testStatus here =>
      obtain rfl := Option.some.inj (hcode.symm.trans here)
      obtain rfl := Option.some.inj hcode'
      refine ⟨rfl, exists_pred_of_lt h ?_⟩
      split
      · simp [FreePc.left]
      · simp [FreePc.left]
  | storeOk here =>
      obtain rfl := Option.some.inj (hcode.symm.trans here)
      obtain rfl := Option.some.inj hcode'
      exact ⟨rfl, exists_pred_of_lt h (by simp [FreePc.left])⟩
  | freed here freeing => exact absurd hcode' (by simp)

/-- There is work for a call before it begins. -/
theorem FineStep.atMost_call {s t : Fine D} {code : Code D} {runs : Fine D → Prop}
    (h : Inv pool s.state) (hcode : t.code = some code)
    (hs : FineStep pool pbufAllocedCustom refuses runs s .call t) :
    code.event.cost pool.elems.card ≤ s.state.work pool ∧
      ∃ n, code.Left pool t.state n ∧ n + 2 ≤ code.event.cost pool.elems.card := by
  cases hs with
  | callAlloc i outside awake reading detached =>
      obtain rfl := Option.some.inj hcode
      refine ⟨?_, 3, le_rfl, le_rfl⟩
      simp only [State.work, reading, RxPc.work, Code.event, Event.cost, if_true]
      omega
  | @callLink refill last length i outside awake reading attached filled =>
      obtain rfl := Option.some.inj hcode
      obtain ⟨f, hreturn⟩ := h.exists_linkStatements length attached
      have hbuilding : s.state.building.length ≤ pool.elems.card := by
        have hle := Multiset.card_le_card (le_total (ledger pool s.state) .building)
        rw [h.total_eq, Finset.card_val] at hle
        exact hle
      refine ⟨?_, s.state.building.length + 7, ⟨length, last, f, filled, hreturn⟩, ?_⟩
      · have hsum := Finset.single_le_sum
          (f := fun j => (s.state.desc j).work pool.elems.card) (fun _ _ => Nat.zero_le _)
          (Finset.mem_univ i)
        have hdesc : (s.state.desc i).work pool.elems.card = 6 * pool.elems.card + 24 :=
          if_neg attached
        simp only [hdesc] at hsum
        simp only [State.work, Code.event, Event.cost]
        omega
      · simp only [Code.event, Event.cost]
        omega
  | callFree outside awake freeing custom =>
      obtain rfl := Option.some.inj hcode
      refine ⟨?_, 3, le_rfl, le_rfl⟩
      simp only [State.work, freeing, RxPc.work, Code.event, Event.cost, List.length_cons]
      omega
  | noCustomFree outside awake freeing custom => exact absurd (outside.symm.trans hcode) (by simp)
  | allFreed outside awake freeing => exact absurd (outside.symm.trans hcode) (by simp)

/-! ## Every wake-up -/

/-- While `ethif_in` is awake, at most `k` of its statements are left. -/
def AwakeFor (pool : RxPool) (pbufAllocedCustom : BitVec 16 → Addr → BitVec 16 → Pbuf → Pbuf)
    (refuses : Multiset Addr → Prop) (s : Fine D) (k : ℕ) : Prop :=
  s.delayed = false → ∃ c, Inv pool c ∧ Within pool pbufAllocedCustom refuses c s.code s.state ∧
    AtMost pool c s.state k s.code

/-- The DMA leaves as many. -/
theorem AtMost.dma {c c' s t : State D} {k : ℕ} {code : Option (Code D)}
    (h : AtMost pool c s k code) (hs : Step pool pbufAllocedCustom refuses s .dmaComplete t)
    (hc : Step pool pbufAllocedCustom refuses c .dmaComplete c') : AtMost pool c' t k code := by
  cases code with
  | none => exact hc.work_dma.trans_le h
  | some code =>
      obtain ⟨hcost, n, hleft, hk⟩ := h
      rw [← hc.work_dma] at hcost hk
      exact ⟨hcost, n, hleft.dma hs, hk⟩

/-- A call does not begin when all pbufs are freed. -/
theorem Within.ne_freed {c s : State D} {code : Code D}
    (h : Within pool pbufAllocedCustom refuses c (some code) s) : c.rx ≠ .freeing [] := by
  cases h with
  | alloc reading detached done => simp [reading]
  | link reading attached filled done => simp [reading]
  | free freeing custom done => simp [freeing]

namespace AwakeFor

variable {s t : Fine D} {k : ℕ}

/-- Between two calls one statement less is left. -/
theorem outside {c : State D} {e : Event} (hinv : Inv pool c) (hcode : t.code = none)
    (hstep : Step pool pbufAllocedCustom refuses c e t.state) {m : ℕ}
    (hwork : t.state.work pool ≤ m) : AwakeFor pool pbufAllocedCustom refuses t m := by
  refine fun _ => ⟨t.state, (hinv.step hstep).2, ?_, ?_⟩
  · rw [hcode]
    exact .outside
  · rw [hcode]
    exact hwork

/-- `ethif_in` polls, gets a result, or calls `s_netif.input`. -/
theorem driver (hinv : Inv pool s.state) (hmost : s.state.work pool ≤ k)
    (hs : FineStep pool pbufAllocedCustom refuses Fine.Delayed s .driver t) :
    AwakeFor pool pbufAllocedCustom refuses t (k - 1) := by
  cases hs with
  | @driver u e ofDriver outside awake step =>
      have hcost : e.ofThread = false ∧ e.cost pool.elems.card = 1 := by
        cases e <;> simp_all [Event.ofDriver, Event.ofThread, Event.cost]
      rcases hinv.works step hcost.1 with hwork | ⟨he, hidle⟩
      · rw [hcost.2] at hwork
        have hle : u.work pool ≤ k - 1 := by omega
        refine .outside hinv ?_ step hle
        exact outside
      · -- without a frame `ethif_in` sleeps
        have hne : e ≠ .accept := by
          rintro rfl
          simp at he
        exact fun hawake => absurd hawake (by simp [hne, hidle])

/-- `ethif_in` enters a function. -/
theorem call (hinv : Inv pool s.state) (hmost : s.state.work pool ≤ k)
    (hs : FineStep pool pbufAllocedCustom refuses Fine.Delayed s .call t) :
    AwakeFor pool pbufAllocedCustom refuses t (k - 1) := by
  have hpos := s.state.work_pos pool
  obtain ⟨-, ⟨code, hcode, hwithin⟩ | ⟨hcode, hstep⟩⟩ := hs.call_cases
  · obtain ⟨hcost, n, hleft, hn⟩ := hs.atMost_call hinv hcode
    refine fun _ => ⟨s.state, hinv, ?_, ?_⟩
    · rw [hcode]
      exact hwithin
    · rw [hcode]
      exact ⟨hcost, n, hleft, by omega⟩
  · rcases hinv.works hstep rfl with hwork | ⟨he, hidle⟩
    · simp only [Event.cost] at hwork
      exact .outside hinv hcode hstep (by omega)
    · -- the pbufs are freed, and `ethif_in` sleeps
      cases hs with
      | allFreed outside awake freeing => exact fun hawake => absurd hawake (by simp)
      | noCustomFree outside awake freeing custom =>
          rw [freeing] at he
          simp at he
      | _ => exact absurd hcode (by simp)

/-- A statement of a function. -/
theorem statement {c : State D} {code : Code D} (hinv : Inv pool c) (hcode : s.code = some code)
    (hwithin : Within pool pbufAllocedCustom refuses c (some code) s.state)
    (hmost : AtMost pool c s.state k (some code))
    (hs : FineStep pool pbufAllocedCustom refuses Fine.Delayed s .statement t) :
    AwakeFor pool pbufAllocedCustom refuses t (k - 1) ∧ 0 < k := by
  obtain ⟨hcost, n, hleft, hk⟩ := hmost
  refine ⟨?_, by omega⟩
  rcases hwithin.statement hcode hs with ⟨code', hcode', hwithin'⟩ | ⟨hcode', hstep⟩
  · obtain ⟨hevent, m, rfl, hleft'⟩ := hleft.step hcode hcode' hs
    refine fun _ => ⟨c, hinv, ?_, ?_⟩
    · rw [hcode']
      exact hwithin'
    · rw [hcode']
      refine ⟨hevent ▸ hcost, m, hleft', ?_⟩
      rw [hevent]
      omega
  · have hthread : code.event.ofThread = false := by cases code <;> rfl
    rcases hinv.works hstep hthread with hwork | ⟨he, -⟩
    · exact .outside hinv hcode' hstep (by omega)
    · have hne := hwithin.ne_freed
      cases code <;> simp_all [Code.event]

/-- **Step.** A statement of `ethif_in` leaves one less, and a step of the DMA leaves as many. -/
theorem step {e : FineEvent} (h : AwakeFor pool pbufAllocedCustom refuses s k)
    (awake : s.delayed = false)
    (hs : FineStep pool pbufAllocedCustom refuses Fine.Delayed s e t) :
    ∃ k', AwakeFor pool pbufAllocedCustom refuses t k' ∧
      k' + (if decide (e ≠ .dma) then 1 else 0) ≤ k := by
  obtain ⟨c, hinv, hwithin, hmost⟩ := h awake
  cases e with
  | dma =>
      cases hs with
      | dma step =>
          obtain ⟨c', hstep, hwithin'⟩ := hwithin.dma step
          exact ⟨k, fun _ => ⟨c', (hinv.step hstep).2, hwithin', hmost.dma step hstep⟩, le_rfl⟩
  | thread =>
      cases hs with
      | thread ofThread run step => exact absurd (awake.symm.trans run) (by simp)
  | wake =>
      cases hs with
      | wake delayed => exact absurd (awake.symm.trans delayed) (by simp)
  | driver =>
      have outside : s.code = none := by
        cases hs with
        | driver ofDriver outside awake step => exact outside
      rw [outside] at hwithin hmost
      obtain rfl := hwithin.of_none
      have hpos := s.state.work_pos pool
      exact ⟨k - 1, .driver hinv hmost hs, Nat.sub_add_cancel (hpos.trans_le hmost) |>.le⟩
  | call =>
      rw [hs.call_cases.1] at hwithin hmost
      obtain rfl := hwithin.of_none
      have hpos := s.state.work_pos pool
      exact ⟨k - 1, .call hinv hmost hs, Nat.sub_add_cancel (hpos.trans_le hmost) |>.le⟩
  | statement =>
      obtain ⟨code, hcode⟩ := Option.ne_none_iff_exists'.mp hs.code_ne_none
      rw [hcode] at hwithin hmost
      obtain ⟨hawake, hpos⟩ := AwakeFor.statement hinv hcode hwithin hmost hs
      exact ⟨k - 1, hawake, (Nat.sub_add_cancel hpos).le⟩

end AwakeFor

/-- The work ahead of `ethif_in` when it wakes up. -/
theorem Inv.work_le {s : State D} (h : Inv pool s) (hidle : s.rx = .idle) :
    s.work pool ≤ bufferWork pool.elems.card * pool.elems.card + 5 * D + 7 := by
  have hcard : Multiset.card (total (ledger pool s)) = pool.elems.card := by
    rw [h.total_eq, Finset.card_val]
  rw [card_total, sum_owner] at hcard
  -- a descriptor with a buffer holds an element
  have hdesc : ∑ i, (s.desc i).work pool.elems.card ≤ ∑ i,
      (bufferWork pool.elems.card * Multiset.card (ledger pool s (.descriptor i)) + 5) := by
    refine Finset.sum_le_sum fun i _ => ?_
    rw [RxDesc.work]
    split
    · exact Nat.le_add_left _ _
    · rename_i hattached
      rw [ledger, (s.desc i).attached_of_ne hattached, Multiset.card_singleton, mul_one]
      exact Nat.le_add_right _ _
  have hsum : ∑ i,
      (bufferWork pool.elems.card * Multiset.card (ledger pool s (.descriptor i)) + 5)
        = bufferWork pool.elems.card * ∑ i, Multiset.card (ledger pool s (.descriptor i))
          + 5 * D := by
    rw [Finset.sum_add_distrib, ← Finset.mul_sum]
    simp [mul_comm]
  have hbuffers : s.shared.rxPool.card + ∑ i, Multiset.card (ledger pool s (.descriptor i))
      ≤ pool.elems.card := by
    rw [← hcard]
    exact le_add_right (le_add_right (le_add_right le_rfl))
  have hmul := Nat.mul_le_mul_left (bufferWork pool.elems.card) hbuffers
  rw [mul_add] at hmul
  rw [State.work, hidle, RxPc.work, RxPc.poolWork]
  · omega
  · simp

/-- `ethif_in` is about to poll while it is in `vTaskDelay`. -/
theorem rx_of_delayed {s : Fine D}
    (h : (fineSystem pool pbufAllocedCustom refuses Fine.Delayed).Reachable s) :
    s.delayed = true → s.state.rx = .idle := by
  refine h.invariant (P := fun s => s.delayed = true → s.state.rx = .idle) ?_ ?_
  · rintro s ⟨⟨-, -, -, -, hrx, -⟩, -⟩ -
    exact hrx
  · intro s e t hr hidle hs hdelayed
    obtain ⟨c, -, hcode, -⟩ := fine_refinement.reachable hr
    cases e with
    | dma =>
        cases hs with
        | dma step =>
            cases step with
            | dmaComplete i length last attached empty => exact hidle hdelayed
    | thread =>
        cases hs with
        | thread ofThread run step =>
            have hrx := hidle hdelayed
            cases step <;> first | exact hrx | exact absurd ofThread (by simp [Event.ofThread])
    | driver =>
        cases hs with
        | driver ofDriver outside awake step => exact (of_decide_eq_true hdelayed).2
    | wake =>
        cases hs with
        | wake delayed => exact absurd hdelayed (by simp)
    | call =>
        cases hs with
        | allFreed outside awake freeing => rfl
        | _ => simp_all
    | statement =>
        rw [hs.delayed_statement] at hdelayed
        exact absurd (hcode hdelayed) hs.code_ne_none

/-! ## `ethif_in` never gets stuck -/

/-- A function has a next statement. -/
theorem Within.exists_statement {c : State D} {s : Fine D} {code : Code D} (hinv : Inv pool c)
    (hempty : refuses 0) (hcode : s.code = some code)
    (h : Within pool pbufAllocedCustom refuses c (some code) s.state) (runs : Fine D → Prop) :
    ∃ t, FineStep pool pbufAllocedCustom refuses runs s .statement t := by
  cases code with
  | alloc i pc =>
      obtain ⟨ready, shared, reading, detached, done, hstate⟩ := h.of_alloc
      have hreading : s.state.rx = .reading true ready := by
        rw [hstate]
        exact reading
      cases pc with
      | mempoolAlloc =>
          cases done with
          | mempoolAlloc =>
              by_cases hpool : s.state.shared.rxPool = 0
              · exact ⟨_, .mempoolAllocNull hcode (.inr ⟨rfl, hpool ▸ hempty⟩)⟩
              · obtain ⟨p, hp⟩ := Multiset.exists_mem_of_ne_zero hpool
                have helem : p ∈ pool.elems := hinv.mem_elems (o := .rxPool) (by
                  rw [hstate] at hp
                  exact hp)
                exact ⟨_, .mempoolAlloc hcode (.inl hp) (pool.ne_null p helem)⟩
      | setCustomFree p => exact ⟨_, .setCustomFree hcode⟩
      | allocedCustom p => exact ⟨_, .allocedCustom hcode⟩
      | storeError => exact ⟨_, .storeError hcode⟩
      | allocated buff =>
          by_cases hbuff : buff = NULL
          · exact ⟨_, .allocatedNull (hbuff ▸ hcode) hreading⟩
          · exact ⟨_, .allocated hcode hbuff⟩
  | link i pc =>
      obtain ⟨refill, length, last, n, f, reading, attached, filled, done, hstate⟩ := h.of_link
      have hreading : s.state.rx = .reading refill false := by
        rw [hstate]
        exact reading
      have hfilled : (s.state.desc i).filled = some (length, last) := by
        rw [hstate]
        exact filled
      by_cases hpc : pc = .linked
      · exact ⟨_, .linked (hpc ▸ hcode) hreading hfilled⟩
      · exact ⟨_, .link hcode hpc hfilled⟩
  | free pc =>
      obtain ⟨p, todo, shared, freeing, custom, done, hstate⟩ := h.of_free
      have hfreeing : s.state.rx = .freeing (p :: todo) := by
        rw [hstate]
        exact freeing
      cases pc with
      | mempoolFree => exact ⟨_, .mempoolFree hcode hfreeing⟩
      | testStatus => exact ⟨_, .testStatus hcode⟩
      | storeOk => exact ⟨_, .storeOk hcode⟩
      | freed => exact ⟨_, .freed hcode hfreeing⟩

/-- `ethif_in` has a next statement between two calls. -/
theorem Inv.exists_step {s : Fine D} (h : Inv pool s.state) (outside : s.code = none)
    (awake : s.delayed = false) (runs : Fine D → Prop) :
    ∃ e t, e ≠ .dma ∧ FineStep pool pbufAllocedCustom refuses runs s e t := by
  cases hrx : s.state.rx with
  | idle =>
      cases hstatus : s.state.shared.rxAllocStatus with
      | rxAllocOk =>
          exact ⟨.driver, _, by simp,
            .driver (e := .poll) rfl outside awake (.pollRead hrx hstatus)⟩
      | rxAllocError =>
          exact ⟨.driver, _, by simp,
            .driver (e := .poll) rfl outside awake (.pollSkip hrx hstatus)⟩
  | reading refill ready =>
      cases ready with
      | true =>
          exact ⟨.driver, _, by simp, .driver (e := .readDone) rfl outside awake (.readOk hrx)⟩
      | false =>
          exact ⟨.driver, _, by simp, .driver (e := .readDone) rfl outside awake (.readError hrx)⟩
  | input p =>
      exact ⟨.driver, _, by simp, .driver (e := .accept) rfl outside awake
        (.accept hrx (h.input p hrx))⟩
  | freeing todo =>
      cases todo with
      | nil => exact ⟨.call, _, by simp, .allFreed outside awake hrx⟩
      | cons p todo =>
          cases hcustom : (s.state.shared.mem p).customFreeFunction with
          | none => exact ⟨.call, _, by simp, .noCustomFree outside awake hrx hcustom⟩
          | some free =>
              cases free with
              | pbufFreeCustom => exact ⟨.call, _, by simp, .callFree outside awake hrx hcustom⟩

/-- **Every wake-up ends.** Let the `TCP/IP` thread run only while `ethif_in` is in `vTaskDelay`,
and let an empty pool refuse an element. Awake, `ethif_in` always has a next statement. And from one
return of `vTaskDelay` to the next call it executes a bounded number of statements, however many
buffers the DMA fills meanwhile. -/
theorem wakeUp_bounded (pool : RxPool)
    (pbufAllocedCustom : BitVec 16 → Addr → BitVec 16 → Pbuf → Pbuf)
    (refuses : Multiset Addr → Prop) (hempty : refuses 0) (s : Fine D)
    (h : (fineSystem pool pbufAllocedCustom refuses Fine.Delayed).Reachable s) :
    (s.delayed = false → ∃ e t, e ≠ .dma ∧
        FineStep pool pbufAllocedCustom refuses Fine.Delayed s e t) ∧
      ∀ t u es, FineStep pool pbufAllocedCustom refuses Fine.Delayed s .wake t →
        ((fineSystem pool pbufAllocedCustom refuses Fine.Delayed).restrict
          fun s _ => s.delayed = false).Run t es u →
        es.countP (fun e => e ≠ .dma)
          ≤ bufferWork pool.elems.card * pool.elems.card + 5 * D + 7 := by
  obtain ⟨c, hc, hcode, hwithin⟩ := fine_refinement.reachable h
  have hinv := inv_of_reachable hc
  constructor
  · intro awake
    cases code : s.code with
    | none =>
        rw [code] at hwithin
        rw [← hwithin.of_none] at hinv
        exact hinv.exists_step code awake _
    | some call =>
        rw [code] at hwithin
        obtain ⟨t, ht⟩ := hwithin.exists_statement hinv hempty code Fine.Delayed
        exact ⟨.statement, t, by simp, ht⟩
  · intro t u es hwake hrun
    cases hwake with
    | wake delayed =>
        rw [hcode delayed] at hwithin
        rw [← hwithin.of_none] at hinv
        refine hrun.countP_le (P := AwakeFor pool pbufAllocedCustom refuses) ?_ fun _ => ?_
        · rintro s e t k ⟨hs, awake⟩ hk
          exact hk.step awake hs
        · refine ⟨s.state, hinv, ?_, ?_⟩
          · rw [hcode delayed]
            exact .outside
          · rw [hcode delayed]
            exact hinv.work_le (rx_of_delayed h delayed)

/-- With twelve buffers and four descriptors it executes at most 1179. -/
example : bufferWork ethRxBufferCnt * ethRxBufferCnt + 5 * 4 + 7 = 1179 := rfl

/-- The first wake-up on `ramPool` has given two descriptors a buffer, and the DMA has filled one of
them. -/
def filled : Fine 4 where
  state :=
    let first := (halEthRxAllocateCallback ramPool lwipAllocedCustom 0x20000000
      fineStart.state.shared).2
    let second := (halEthRxAllocateCallback ramPool lwipAllocedCustom 0x20000620 first).2
    let attached := Function.update (Function.update fineStart.state.desc 0 ⟨0x20000020, none⟩) 1
      ⟨0x20000640, none⟩
    { fineStart.state with
      shared := second
      desc := Function.update attached 0 ⟨0x20000020, some (1536, false)⟩ }
  code := none
  delayed := true

theorem filled_reachable :
    (fineSystem ramPool lwipAllocedCustom (· = 0) Fine.Delayed).Reachable filled := by
  have hstart : (fineSystem ramPool lwipAllocedCustom (· = 0) Fine.Delayed).Reachable fineStart :=
    .init ⟨State.start_init _ _ _ _, rfl, rfl⟩
  have hpoll := (hstart.step (.wake rfl)).step (.driver (by decide) rfl rfl (.pollRead rfl rfl))
  have hfirst := reachable_allocated (p := 0x20000000) 0 hpoll rfl rfl rfl rfl (.inl (by decide))
    (by decide) (by decide)
  have hsecond := reachable_allocated (p := 0x20000620) 1 hfirst rfl rfl rfl rfl (.inl (by decide))
    (by decide) (by decide)
  have hnone := hsecond.step (.driver (by decide) rfl rfl (.readError rfl))
  exact hnone.step (.dma (.dmaComplete 0 1536 false (by decide) rfl))

/-- The next wake-up passes a frame of two buffers on. The DMA fills the second one meanwhile. -/
theorem wakeUp_bounded_ramPool : ∃ (u : Fine 4) (es : List FineEvent),
    ((fineSystem ramPool lwipAllocedCustom (· = 0) Fine.Delayed).restrict
      fun s _ => s.delayed = false).Run { filled with delayed := false } es u ∧
    es.countP (fun e => e ≠ .dma)
      ≤ bufferWork ramPool.elems.card * ramPool.elems.card + 5 * 4 + 7 ∧
    u.delayed = true ∧ u.state.frames = {[0x20000000, 0x20000620]} := by
  have hread : ((fineSystem ramPool lwipAllocedCustom (· = 0) Fine.Delayed).restrict
      fun s _ => s.delayed = false).Run { filled with delayed := false } [.driver] _ :=
    .single ⟨.driver (e := .poll) rfl rfl rfl (.pollRead rfl rfl), rfl⟩
  -- the link callback of the first buffer
  have hcall := hread.step ⟨.callLink 0 rfl rfl rfl (by decide) rfl, rfl⟩
  obtain ⟨es, hreturn⟩ := run_linked (n := 7) hcall (fun hd hs => ⟨hs, hd⟩) rfl rfl
  have hlinked := hreturn.step ⟨.linked rfl rfl rfl, rfl⟩
  -- the DMA fills the second buffer, which ends the frame
  have hdma := hlinked.step ⟨.dma (.dmaComplete 1 60 true (by decide) rfl), rfl⟩
  have hcall' := hdma.step ⟨.callLink 1 rfl rfl rfl (by decide) rfl, rfl⟩
  obtain ⟨es', hreturn'⟩ := run_linked (n := 8) hcall' (fun hd hs => ⟨hs, hd⟩) rfl rfl
  have hlinked' := hreturn'.step ⟨.linked rfl rfl rfl, rfl⟩
  -- the frame is passed on, and there is no other one
  have hframe := hlinked'.step ⟨.driver (e := .readDone) rfl rfl rfl (.readOk rfl), rfl⟩
  have haccept := hframe.step ⟨.driver (e := .accept) rfl rfl rfl (.accept (p := 0x20000000)
    (l := [0x20000000, 0x20000620]) rfl (.cons (by decide) (.cons (by decide) .nil))), rfl⟩
  have hrun := (haccept.step ⟨.driver (e := .poll) rfl rfl rfl (.pollRead rfl rfl), rfl⟩).step
    ⟨.driver (e := .readDone) rfl rfl rfl (.readError rfl), rfl⟩
  exact ⟨_, _, hrun, (wakeUp_bounded ramPool lwipAllocedCustom (· = 0) rfl filled
    filled_reachable).2 _ _ _ (.wake rfl) hrun, rfl, rfl⟩

end Stm32Eth.Rx
