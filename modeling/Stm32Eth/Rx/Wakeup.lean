import Stm32Eth.Rx.Ownership

/-!
# Reception resumes after pool exhaustion

While `RxAllocStatus` is `RX_ALLOC_ERROR`, `low_level_input` does not call `HAL_ETH_ReadData`, so
reception stands still until a release stores `RX_ALLOC_OK`. The invariant `NoLostWakeup` says that
the flag never hides a free buffer: with `RX_ALLOC_ERROR` stored, the pool is empty or a release is
between its `LWIP_MEMPOOL_FREE` and its store. An empty pool leaves buffers with the stack or with
`ethif_in`, so a release is still to come, and every release gets to its store.
-/

namespace Stm32Eth.Rx

open Ledger

variable {D : ℕ} {pool : RxPool}
  {pbufAllocedCustom : BitVec 16 → Addr → BitVec 16 → Pbuf → Pbuf} {refuses : Multiset Addr → Prop}

/-! ## The flag never hides a free buffer -/

/-- The release in progress has returned a buffer to the pool and has not finished with
`RxAllocStatus`. -/
def TcpipPc.Signalling : TcpipPc → Prop
  | .idle => False
  | .freeing _ => False
  | .returned _ => True
  | .tested _ => True

/-- With `RX_ALLOC_ERROR` stored and no release between its pool return and its test or store, the
pool is empty. -/
def NoLostWakeup (s : State D) : Prop :=
  s.shared.rxAllocStatus = .rxAllocError → ¬ s.tcpip.Signalling → s.shared.rxPool = 0

/-- A step that does not touch the flag, does not fill an empty pool and does not end a signalling
release preserves `NoLostWakeup`. -/
theorem NoLostWakeup.keep {s t : State D} (h : NoLostWakeup s)
    (hstatus : t.shared.rxAllocStatus = s.shared.rxAllocStatus)
    (hpool : s.shared.rxPool = 0 → t.shared.rxPool = 0)
    (htcpip : s.tcpip.Signalling → t.tcpip.Signalling) : NoLostWakeup t :=
  fun herror hquiet => hpool (h (hstatus ▸ herror) fun hs => hquiet (htcpip hs))

/-- A step after which the flag is `RX_ALLOC_OK` establishes `NoLostWakeup`. -/
theorem NoLostWakeup.of_ok {t : State D} (hok : t.shared.rxAllocStatus = .rxAllocOk) :
    NoLostWakeup t :=
  fun herror _ => absurd (hok.symm.trans herror) (by simp)

/-- **Step.** No step loses a wake-up, when the pool refuses an element only if it is empty. -/
theorem NoLostWakeup.step {s t : State D} {e : Event} (hrefuses : ∀ l, refuses l → l = 0)
    (hinv : Inv pool s) (h : NoLostWakeup s)
    (hs : Step pool pbufAllocedCustom refuses s e t) : NoLostWakeup t := by
  cases hs with
  | dmaComplete i length last attached empty => exact h
  | pollRead idle ok => exact h
  | pollSkip idle error => exact h
  | link i fuel reading attached filled call => exact h
  | refill i reading detached answer call got =>
      obtain ⟨hmem, hstatus⟩ := got_of_ne answer call got
      exact h.keep hstatus (fun hempty => absurd hmem (by simp [hempty])) id
  | refillNull i reading detached answer call none =>
      -- the flag is set: only an empty pool refuses an element
      obtain ⟨hempty, rfl⟩ := hinv.refused answer call none
      exact fun _ _ => hrefuses _ hempty
  | readOk reading => exact h
  | readError reading => exact h
  | accept input chain => exact h
  | reject input chain => exact h
  | @rxFree p todo freeing =>
      refine .of_ok ?_
      rw [hinv.callCustomFree_eq freeing]
      exact pbufFreeCustom_rxAllocStatus p s.shared
  | rxFreed freeing => exact h
  | lwipWrite mem frame keep => exact h
  | release accepted idle =>
      refine h.keep rfl id fun hs => ?_
      simp [idle, TcpipPc.Signalling] at hs
  | mempoolFree freeing custom =>
      -- the pool is filled before the flag is tested, but the release is now signalling
      exact fun _ hquiet => absurd trivial hquiet
  | noCustomFree freeing custom =>
      refine h.keep rfl id fun hs => ?_
      simp [freeing, TcpipPc.Signalling] at hs
  | testError returned error => exact fun _ hquiet => absurd trivial hquiet
  | testOk returned ok => exact .of_ok ok
  | storeOk tested => exact .of_ok rfl
  | released freeing =>
      refine h.keep rfl id fun hs => ?_
      simp [freeing, TcpipPc.Signalling] at hs

/-- **Run.** No run loses a wake-up. -/
theorem noLostWakeup_of_reachable {s : State D} (hrefuses : ∀ l, refuses l → l = 0)
    (h : (system pool pbufAllocedCustom refuses).Reachable s) : NoLostWakeup s :=
  h.invariant (fun _ hinit => .of_ok hinit.2.1) fun _ _ _ hr hw hs =>
    hw.step hrefuses (inv_of_reachable hr) hs

/-! ## Where the buffers are -/

/-- A sum over the owners. -/
theorem sum_owner (f : Owner D → ℕ) :
    ∑ o, f o = f .rxPool + ∑ i, f (.descriptor i) + f .building + f .driver + f .stack := by
  have huniv : (Finset.univ : Finset (Owner D)) =
      {.rxPool, .building, .driver, .stack} ∪ Finset.univ.image Owner.descriptor := by
    ext o
    cases o <;> simp
  rw [huniv, Finset.sum_union (by simp [Finset.disjoint_left]),
    Finset.sum_image fun _ _ _ _ h => Owner.descriptor.inj h]
  simp
  omega

/-- With an empty pool and at most `D` pbufs in the frame under construction, the task `ethif_in`
and the stack hold all but `2 * D` of the buffers. -/
theorem Inv.card_held {s : State D} (h : Inv pool s) (hempty : s.shared.rxPool = 0)
    (hbuilding : s.building.length ≤ D) :
    pool.elems.card - 2 * D ≤ (s.rx.held s.shared.mem).length + Multiset.card s.heldByStack := by
  have hcard : Multiset.card (total (ledger pool s)) = pool.elems.card := by
    rw [h.total_eq, Finset.card_val]
  have hdesc : ∑ i, Multiset.card (ledger pool s (.descriptor i)) ≤ D := by
    calc ∑ i, Multiset.card (ledger pool s (.descriptor i))
        ≤ ∑ _i : Fin D, 1 := Finset.sum_le_sum fun i _ => (s.desc i).card_attached_le
      _ = D := by simp
  rw [card_total, sum_owner] at hcard
  simp only [ledger, hempty, Multiset.card_zero, Multiset.coe_card] at hcard hdesc
  omega

/-! ## Every release gets to its store -/

/-- The steps of the release in progress since its last pool return. -/
def TcpipPc.rank : TcpipPc → ℕ
  | .idle => 0
  | .freeing _ => 0
  | .returned _ => 1
  | .tested _ => 2

theorem TcpipPc.rank_le (pc : TcpipPc) : pc.rank ≤ 2 := by
  cases pc <;> simp [TcpipPc.rank]

/-- **Step.** While `RX_ALLOC_ERROR` stays stored, every statement of `pbuf_free_custom` brings the
release in progress closer to its store. -/
theorem rank_step {s t : State D} {e : Event} (hinv : Inv pool s)
    (hs : Step pool pbufAllocedCustom refuses s e t)
    (herror : s.shared.rxAllocStatus = .rxAllocError)
    (herror' : t.shared.rxAllocStatus = .rxAllocError) :
    s.tcpip.rank + (if e.inFreeCustom then 1 else 0) ≤ t.tcpip.rank := by
  cases hs with
  | release accepted idle => simp [idle, TcpipPc.rank, Event.inFreeCustom]
  | mempoolFree freeing custom => simp [freeing, TcpipPc.rank, Event.inFreeCustom]
  | @noCustomFree p todo freeing custom =>
      rw [hinv.customFree_of_freeing freeing] at custom
      exact absurd custom (by simp)
  | testError returned error => simp [returned, TcpipPc.rank, Event.inFreeCustom]
  | testOk returned ok => exact absurd (ok.symm.trans herror) (by simp)
  | storeOk tested => exact absurd herror' (by simp)
  | released freeing => simp [freeing, TcpipPc.rank, Event.inFreeCustom]
  | _ => simp [Event.inFreeCustom]

/-- **Run.** Along a run that leaves `RX_ALLOC_ERROR` stored throughout, at most two statements of
`pbuf_free_custom` run in the `TCP/IP` thread. -/
theorem rank_run {s t : State D} {es : List Event}
    (hreach : (system pool pbufAllocedCustom refuses).Reachable s)
    (hrun : ((system pool pbufAllocedCustom refuses).restrict fun s _ =>
      s.shared.rxAllocStatus = .rxAllocError).Run s es t)
    (herror : t.shared.rxAllocStatus = .rxAllocError) :
    s.tcpip.rank + es.countP Event.inFreeCustom ≤ t.tcpip.rank := by
  induction hrun with
  | nil => simp
  | @cons s u t e es hs hrest ih =>
      have herror' : u.shared.rxAllocStatus = .rxAllocError := by
        cases hrest with
        | nil => exact herror
        | cons hs' _ => exact hs'.2
      have hstep := rank_step (inv_of_reachable hreach) hs.1 hs.2 herror'
      have hrest' := ih (hreach.step hs.1) herror
      rw [List.countP_cons]
      omega

/-! ## A release is still to come -/

/-- A run of release steps from `s` that ends with `RX_ALLOC_OK` stored. -/
def CanResume (pool : RxPool) (pbufAllocedCustom : BitVec 16 → Addr → BitVec 16 → Pbuf → Pbuf)
    (refuses : Multiset Addr → Prop) (s : State D) : Prop :=
  ∃ es t, (∀ e ∈ es, e.inRelease) ∧ (system pool pbufAllocedCustom refuses).Run s es t ∧
    t.shared.rxAllocStatus = .rxAllocOk

/-- A release step before a run of release steps. -/
theorem CanResume.cons {s t : State D} {e : Event} (he : e.inRelease)
    (hs : Step pool pbufAllocedCustom refuses s e t)
    (h : CanResume pool pbufAllocedCustom refuses t) :
    CanResume pool pbufAllocedCustom refuses s := by
  obtain ⟨es, u, hes, hrun, hok⟩ := h
  refine ⟨e :: es, u, ?_, .cons hs hrun, hok⟩
  intro e' he'
  rcases List.mem_cons.mp he' with rfl | he'
  · exact he
  · exact hes e' he'

theorem CanResume.of_ok {s : State D} (hok : s.shared.rxAllocStatus = .rxAllocOk) :
    CanResume pool pbufAllocedCustom refuses s :=
  ⟨[], s, by simp, .nil s, hok⟩

/-- A signalling release stores `RX_ALLOC_OK`. -/
theorem CanResume.of_signalling {s : State D} (h : s.tcpip.Signalling)
    (herror : s.shared.rxAllocStatus = .rxAllocError) :
    CanResume pool pbufAllocedCustom refuses s := by
  cases htcpip : s.tcpip with
  | idle => simp [htcpip, TcpipPc.Signalling] at h
  | freeing todo => simp [htcpip, TcpipPc.Signalling] at h
  | returned todo =>
      exact .cons rfl (.testError htcpip herror) (.cons rfl (.storeOk rfl) (.of_ok rfl))
  | tested todo => exact .cons rfl (.storeOk htcpip) (.of_ok rfl)

/-- A release with a pbuf still to free calls `pbuf_free_custom`. -/
theorem CanResume.of_freeing {s : State D} (hinv : Inv pool s) {p : Addr} {todo : List Addr}
    (hfreeing : s.tcpip = .freeing (p :: todo)) :
    CanResume pool pbufAllocedCustom refuses s := by
  obtain ⟨es, hes, hrun⟩ := run_pbufFreeCustom pool pbufAllocedCustom refuses hfreeing
    (hinv.customFree_of_freeing hfreeing)
  exact ⟨es, _, fun e he => Event.inRelease_of_inFreeCustom (hes e he), hrun,
    pbufFreeCustom_rxAllocStatus p s.shared⟩

/-- With no release in progress, the stack can begin one. -/
theorem CanResume.of_idle {s : State D} (hinv : Inv pool s) (hidle : s.tcpip = .idle)
    (hheld : s.heldByStack ≠ 0) : CanResume pool pbufAllocedCustom refuses s := by
  obtain ⟨l, hl, hne⟩ : ∃ l ∈ s.frames, l ≠ [] := by
    by_contra hall
    push Not at hall
    apply hheld
    have hsum : (s.frames.map fun l : List Addr => (l : Multiset Addr)).sum = 0 := by
      refine Multiset.sum_eq_zero fun m hm => ?_
      obtain ⟨l, hl, rfl⟩ := Multiset.mem_map.mp hm
      rw [hall l hl, Multiset.coe_nil]
    rw [State.heldByStack, hsum, hidle]
    rfl
  obtain ⟨p, todo, rfl⟩ := List.exists_cons_of_ne_nil hne
  have hrelease : Step pool pbufAllocedCustom refuses s .release
      { s with frames := s.frames.erase (p :: todo), tcpip := .freeing (p :: todo) } :=
    .release (Multiset.cons_erase hl).symm hidle
  exact .cons rfl hrelease (.of_freeing (hinv.step hrelease).2 rfl)

/-- A stack that holds a pbuf can release one. -/
theorem CanResume.of_heldByStack {s : State D} (hinv : Inv pool s) (hheld : s.heldByStack ≠ 0)
    (herror : s.shared.rxAllocStatus = .rxAllocError) :
    CanResume pool pbufAllocedCustom refuses s := by
  cases htcpip : s.tcpip with
  | idle => exact .of_idle hinv htcpip hheld
  | freeing todo =>
      cases todo with
      | nil =>
          -- the previous release returns first
          have hreleased : Step pool pbufAllocedCustom refuses s .released
              { s with tcpip := .idle } := .released htcpip
          refine .cons rfl hreleased (.of_idle (hinv.step hreleased).2 rfl ?_)
          simpa [State.heldByStack, htcpip, TcpipPc.todo] using hheld
      | cons p todo => exact .of_freeing hinv htcpip
  | returned todo => exact .of_signalling (by simp [htcpip, TcpipPc.Signalling]) herror
  | tested todo => exact .of_signalling (by simp [htcpip, TcpipPc.Signalling]) herror

/-- A frame `ethif_in` holds can be rejected and freed. -/
theorem CanResume.of_held {s : State D} (hinv : Inv pool s)
    (hheld : s.rx.held s.shared.mem ≠ []) : CanResume pool pbufAllocedCustom refuses s := by
  -- one `pbuf_free_custom` of a rejected frame stores `RX_ALLOC_OK`
  have hfreeing : ∀ {t : State D}, Inv pool t → ∀ {l : List Addr}, l ≠ [] → t.rx = .freeing l →
      CanResume pool pbufAllocedCustom refuses t := by
    intro t hinv l hne hrx
    obtain ⟨p, todo, rfl⟩ := List.exists_cons_of_ne_nil hne
    refine .cons rfl (.rxFree hrx) (.of_ok ?_)
    rw [hinv.callCustomFree_eq hrx]
    exact pbufFreeCustom_rxAllocStatus p t.shared
  cases hrx : s.rx with
  | idle => simp [hrx] at hheld
  | reading refill ready => simp [hrx] at hheld
  | input p =>
      have hreject : Step pool pbufAllocedCustom refuses s .reject
          { s with rx := .freeing (s.rx.held s.shared.mem) } := .reject hrx (hinv.input p hrx)
      exact .cons rfl hreject (hfreeing (hinv.step hreject).2 hheld rfl)
  | freeing todo => exact hfreeing hinv (by simpa [hrx] using hheld) hrx

/-! ## Pools do run empty -/

/-- `HAL_ETH_ReadData` is about to refill the first descriptor, with no frame under construction,
and the `TCP/IP` thread releases none. -/
structure Refilling (s : State (D + 1)) : Prop where
  reading : s.rx = .reading true false
  start : s.pRxStart = NULL
  detached : (s.desc 0).buff = NULL
  ok : s.shared.rxAllocStatus = .rxAllocOk
  idle : s.tcpip = .idle

/-- The first descriptor receives a frame of one buffer, and the stack keeps it: the pool has one
free element less when `HAL_ETH_ReadData` refills the descriptor again. -/
theorem receive_one {s : State (D + 1)}
    (h : (system pool pbufAllocedCustom refuses).Reachable s) (hs : Refilling s) {p : Addr}
    (hp : p ∈ s.shared.rxPool) :
    ∃ t : State (D + 1), (system pool pbufAllocedCustom refuses).Reachable t ∧ Refilling t ∧
      t.shared.rxPool = s.shared.rxPool.erase p := by
  have helem : p ∈ pool.elems := (inv_of_reachable h).mem_elems (o := .rxPool) hp
  have hne := pool.ne_null p helem
  have hbuff := pool.buff_ne_null p helem
  obtain ⟨t, ht, hreading, hstart, hdesc, hok, hidle, hpool⟩ : ∃ t : State (D + 1),
      (system pool pbufAllocedCustom refuses).Reachable t ∧ t.rx = .reading true false ∧
      t.pRxStart = NULL ∧ t.desc 0 = ⟨p + pool.offsetofBuff, some (1, true)⟩ ∧
      t.shared.rxAllocStatus = .rxAllocOk ∧ t.tcpip = .idle ∧
      t.shared.rxPool = s.shared.rxPool.erase p := by
    have hrefill := h.step (.refill 0 hs.reading hs.detached (.inl hp)
      (halEthRxAllocateCallback_of_ne _ hne) hbuff)
    have hfill := hrefill.step (.dmaComplete 0 1 true (by simpa using hbuff) (by simp))
    exact ⟨_, hfill, hs.reading, hs.start, by simp, hs.ok, hs.idle, rfl⟩
  -- the frame under construction is the one pbuf
  obtain ⟨f, hcall, happ⟩ := @halEthRxLinkCallback_first pool
    ⟨t.shared.mem, t.pRxStart, t.pRxEnd⟩ (p + pool.offsetofBuff) 1 hstart (by simpa using hne) 2
    (by omega)
  rw [BitVec.add_sub_cancel] at happ
  have hchain : MemChain f.mem f.pStart [p] := happ.chain
  have hf : f.pStart ≠ NULL := fun hnull => by simpa using hchain.eq_nil_iff.mpr hnull
  have hlink := ht.step (.link 0 2 hreading (by rw [hdesc]; exact hbuff) (by rw [hdesc])
    (by rw [hdesc]; exact hcall))
  have haccept := (hlink.step (.readOk rfl)).step
    (.accept (p := f.pStart) (l := [p]) (if_neg hf) hchain)
  exact ⟨_, haccept.step (.pollRead rfl hok), ⟨rfl, rfl, by simp, hok, hidle⟩, hpool⟩

/-- A pool with `n` free elements left runs empty when the stack keeps the frames it accepts. -/
theorem empty_of_card (n : ℕ) : ∀ {s : State (D + 1)},
    (system pool pbufAllocedCustom refuses).Reachable s → Refilling s →
    Multiset.card s.shared.rxPool = n →
    ∃ t : State (D + 1), (system pool pbufAllocedCustom refuses).Reachable t ∧ Refilling t ∧
      t.shared.rxPool = 0 := by
  induction n with
  | zero =>
      intro s h hs hcard
      exact ⟨s, h, hs, Multiset.card_eq_zero.mp hcard⟩
  | succ n ih =>
      intro s h hs hcard
      obtain ⟨p, hp⟩ : ∃ p, p ∈ s.shared.rxPool :=
        Multiset.card_pos_iff_exists_mem.mp (by omega)
      obtain ⟨t, ht, hrefilling, hpool⟩ := receive_one h hs hp
      refine ih ht hrefilling ?_
      rw [hpool, Multiset.card_erase_of_mem hp, hcard]
      rfl

/-- Whatever the size of the pool, a stack that keeps every frame makes the pool run empty. -/
theorem exists_empty (pool : RxPool)
    (pbufAllocedCustom : BitVec 16 → Addr → BitVec 16 → Pbuf → Pbuf)
    (refuses : Multiset Addr → Prop) (mem : Mem) :
    ∃ t : State (D + 1), (system pool pbufAllocedCustom refuses).Reachable t ∧ Refilling t ∧
      t.shared.rxPool = 0 :=
  empty_of_card _ (.step (.init (State.start_init _ _ _ mem)) (.pollRead rfl rfl))
    ⟨rfl, rfl, rfl, rfl, rfl⟩ rfl

/-- **The flag does get set.** Then the allocate callback stores `RX_ALLOC_ERROR`. -/
theorem exists_exhausted (pool : RxPool)
    (pbufAllocedCustom : BitVec 16 → Addr → BitVec 16 → Pbuf → Pbuf) (mem : Mem) :
    ∃ t : State (D + 1), (system pool pbufAllocedCustom (· = 0)).Reachable t ∧
      t.shared.rxAllocStatus = .rxAllocError := by
  obtain ⟨s, h, hs, hempty⟩ := exists_empty (D := D) pool pbufAllocedCustom (· = 0) mem
  exact ⟨_, h.step (.refillNull 0 hs.reading hs.detached (.inr ⟨rfl, hempty⟩)
    (halEthRxAllocateCallback_null s.shared) rfl), rfl⟩

/-! ## Reception resumes -/

/-- **No lost wake-up.** Let the pool refuse an element only when it is empty, and have more than
`2 * D` elements. In every reachable state with `RX_ALLOC_ERROR` stored: if no release is between
its pool return and its test or store, the pool is empty, and unless the frame under construction
has more than `D` pbufs, the stack and `ethif_in` hold all but `2 * D` buffers and some steps of
releases store `RX_ALLOC_OK`. A run that leaves `RX_ALLOC_ERROR` stored throughout contains at most
two statements of `pbuf_free_custom` in the `TCP/IP` thread, and a buffer that `ethif_in` returns
stores `RX_ALLOC_OK` at once. -/
theorem reception_resumes (pool : RxPool)
    (pbufAllocedCustom : BitVec 16 → Addr → BitVec 16 → Pbuf → Pbuf)
    (refuses : Multiset Addr → Prop) (hrefuses : ∀ l, refuses l → l = 0)
    (hcard : 2 * D < pool.elems.card) (s : State D)
    (h : (system pool pbufAllocedCustom refuses).Reachable s)
    (herror : s.shared.rxAllocStatus = .rxAllocError) :
    (¬ s.tcpip.Signalling → s.shared.rxPool = 0) ∧
      (s.building.length ≤ D →
        (¬ s.tcpip.Signalling → 0 < pool.elems.card - 2 * D ∧ pool.elems.card - 2 * D ≤
          (s.rx.held s.shared.mem).length + Multiset.card s.heldByStack) ∧
        CanResume pool pbufAllocedCustom refuses s) ∧
      (∀ es t, ((system pool pbufAllocedCustom refuses).restrict fun s _ =>
          s.shared.rxAllocStatus = .rxAllocError).Run s es t →
        t.shared.rxAllocStatus = .rxAllocError → es.countP Event.inFreeCustom ≤ 2) ∧
      ∀ p todo t, s.rx = .freeing (p :: todo) →
        Step pool pbufAllocedCustom refuses s .rxFree t → t.shared.rxAllocStatus = .rxAllocOk := by
  have hinv := inv_of_reachable h
  have hwake := noLostWakeup_of_reachable hrefuses h herror
  refine ⟨hwake, fun hbuilding => ⟨fun hquiet => ⟨by omega, ?_⟩, ?_⟩, ?_, ?_⟩
  · exact hinv.card_held (hwake hquiet) hbuilding
  · by_cases hquiet : s.tcpip.Signalling
    · exact .of_signalling hquiet herror
    · have hheld := hinv.card_held (hwake hquiet) hbuilding
      by_cases hdriver : s.rx.held s.shared.mem = []
      · refine .of_heldByStack hinv (fun hstack => ?_) herror
        rw [hdriver, hstack, List.length_nil, Multiset.card_zero] at hheld
        omega
      · exact .of_held hinv hdriver
  · intro es t hrun herror'
    have hrank := rank_run h hrun herror'
    have hle := t.tcpip.rank_le
    omega
  · intro p todo t hrx hs
    cases hs with
    | @rxFree p todo freeing =>
        rw [hinv.callCustomFree_eq freeing]
        exact pbufFreeCustom_rxAllocStatus p s.shared
    | rxFreed freeing =>
        rw [hrx] at freeing
        exact absurd freeing (by simp)

/-- A reachable exhausted state of the twelve buffers of `ramPool`, with four descriptors. -/
theorem reception_resumes_ramPool :
    ∃ s : State 4, s.shared.rxAllocStatus = .rxAllocError ∧
      (¬ s.tcpip.Signalling → s.shared.rxPool = 0) ∧
      (s.building.length ≤ 4 → CanResume ramPool lwipAllocedCustom (· = 0) s) := by
  obtain ⟨s, h, herror⟩ := exists_exhausted (D := 3) ramPool lwipAllocedCustom
    fun _ => ⟨⟨NULL, 0, 0, 0⟩, none⟩
  have hresumes := reception_resumes ramPool lwipAllocedCustom (· = 0) (fun _ hl => hl)
    (by rw [ramPool_card]; decide) s h herror
  exact ⟨s, herror, hresumes.1, fun hbuilding => (hresumes.2.1 hbuilding).2⟩

end Stm32Eth.Rx
