import Stm32Eth.Rx.Callbacks

/-!
# The chain of a received frame

One call of `HAL_ETH_RxLinkCallback` appends a pbuf to the frame under construction
(`halEthRxLinkCallback_spec`). Over the calls of one frame this builds the chain lwIP expects:
`Built` is what holds after each call, `linkAll_built` carries it through all of them, and the
result names the pbufs that `HAL_ETH_RxAllocateCallback` took from the pool.
-/

namespace Stm32Eth.Rx

open Linked

variable {pool : RxPool}

/-! ## One call -/

/-- What one call of the link callback does to a frame whose chain is `l`: the pbuf `p` of the
buffer is appended with its length, every `tot_len` grows by that length, and nothing else
changes. -/
structure Appended (s s' : FrameState) (l : List Addr) (p : Addr) (length : BitVec 16) : Prop where
  chain : MemChain s'.mem s'.pStart (l ++ [p])
  pEnd_eq : s'.pEnd = p
  new : s'.mem p = { s.mem p with
    pbuf := { (s.mem p).pbuf with next := NULL, totLen := length, len := length } }
  old : ∀ a ∈ l, (s'.mem a).pbuf.len = (s.mem a).pbuf.len ∧
    (s'.mem a).pbuf.totLen = (s.mem a).pbuf.totLen + length ∧
    (s'.mem a).customFreeFunction = (s.mem a).customFreeFunction
  frame : ∀ a, a ∉ l ++ [p] → s'.mem a = s.mem a

/-- The first buffer of a frame: `*pStart` is null, whatever `*pEnd` holds. -/
theorem halEthRxLinkCallback_first {s : FrameState} {buff : Addr} {length : BitVec 16}
    (hs : s.pStart = NULL) (hp : buff - pool.offsetofBuff ≠ NULL) {fuel : ℕ} (hfuel : 1 < fuel) :
    ∃ s', halEthRxLinkCallback pool fuel buff length s = some s' ∧
      Appended s s' [] (buff - pool.offsetofBuff) length := by
  set p := buff - pool.offsetofBuff with hpdef
  set m := s.mem.setPbuf p fun b => { b with next := NULL, totLen := 0, len := length } with hm
  have hchain : MemChain m p [p] := by
    refine Chain.singleton hp ?_
    simp [hm, Mem.next]
  refine ⟨⟨m.addLen length [p], p, p⟩, ?_, ?_, rfl, ?_, ?_, ?_⟩
  · rw [halEthRxLinkCallback, if_pos hs]
    simp only [← hpdef, ← hm]
    rw [addTotLen_eq length hchain (by simpa using hfuel), Option.map_some]
  · rw [MemChain, Mem.addLen_next]
    exact hchain
  · simp [Mem.addLen, hm]
  · simp
  · intro a ha
    have hap : a ≠ p := by simpa using ha
    simp [Mem.addLen, hm, hap]

/-- A further buffer of a frame: `*pEnd` is the last pbuf of the chain of `*pStart`. -/
theorem halEthRxLinkCallback_next {s : FrameState} {init : List Addr} {buff : Addr}
    {length : BitVec 16} (h : MemChain s.mem s.pStart (init ++ [s.pEnd]))
    (hp : buff - pool.offsetofBuff ≠ NULL) (hfresh : buff - pool.offsetofBuff ∉ init ++ [s.pEnd])
    {fuel : ℕ} (hfuel : init.length + 2 < fuel) :
    ∃ s', halEthRxLinkCallback pool fuel buff length s = some s' ∧
      Appended s s' (init ++ [s.pEnd]) (buff - pool.offsetofBuff) length := by
  set p := buff - pool.offsetofBuff with hpdef
  set e := s.pEnd with he
  set m₁ := s.mem.setPbuf p fun b => { b with next := NULL, totLen := 0, len := length } with hm₁
  set m₂ := m₁.setPbuf e fun b => { b with next := p } with hm₂
  have hs : s.pStart ≠ NULL := by
    intro hnull
    simpa using h.eq_nil_iff.mpr hnull
  have hpe : p ≠ e := by
    intro hpe
    simp [hpe] at hfresh
  -- the two stores link `p` behind the last pbuf
  have hchain : MemChain m₂ s.pStart (init ++ [e] ++ [p]) := by
    refine h.snoc hp hfresh ?_ ?_ ?_
    · simp [hm₂, Mem.next]
    · simp [hm₂, hm₁, Mem.next, hpe]
    · intro a hae hap
      simp [hm₂, hm₁, Mem.next, hae, hap]
  refine ⟨⟨m₂.addLen length (init ++ [e] ++ [p]), s.pStart, p⟩, ?_, ?_, rfl, ?_, ?_, ?_⟩
  · rw [halEthRxLinkCallback, if_neg hs]
    simp only [← hpdef, ← hm₁, ← he, ← hm₂]
    rw [addTotLen_eq length hchain (by simp; omega), Option.map_some]
  · rw [MemChain, Mem.addLen_next]
    exact hchain
  · simp [Mem.addLen, hm₂, hm₁, hpe]
  · intro a ha
    have hap : a ≠ p := fun hap => hfresh (hap ▸ ha)
    have hmem : a ∈ init ++ [e] ++ [p] := List.mem_append_left _ ha
    by_cases hae : a = e
    · subst hae
      simp [Mem.addLen, hm₂, hm₁, hap]
    · simp only [Mem.addLen, if_pos hmem, hm₂, hm₁, Mem.setPbuf_of_ne _ _ hae,
        Mem.setPbuf_of_ne _ _ hap, and_self]
  · intro a ha
    have hap : a ≠ p := by
      rintro rfl
      simp at ha
    have hae : a ≠ e := by
      rintro rfl
      simp at ha
    simp only [Mem.addLen, if_neg ha, hm₂, hm₁, Mem.setPbuf_of_ne _ _ hae,
      Mem.setPbuf_of_ne _ _ hap]

/-- **One call of the link callback.** On a well formed frame state it terminates, with any fuel
above the new length of the chain, and appends the pbuf of the buffer. -/
theorem halEthRxLinkCallback_spec {s : FrameState} {l : List Addr} {buff : Addr}
    (length : BitVec 16) (h : MemChain s.mem s.pStart l)
    (hend : l = [] ∨ ∃ init, l = init ++ [s.pEnd]) (hp : buff - pool.offsetofBuff ≠ NULL)
    (hfresh : buff - pool.offsetofBuff ∉ l) (fuel : ℕ) (hfuel : l.length + 1 < fuel) :
    ∃ s', halEthRxLinkCallback pool fuel buff length s = some s' ∧
      Appended s s' l (buff - pool.offsetofBuff) length := by
  rcases hend with rfl | ⟨init, rfl⟩
  · exact halEthRxLinkCallback_first (h.eq_nil_iff.mp rfl) hp (by simpa using hfuel)
  · exact halEthRxLinkCallback_next h hp hfresh (by simpa using hfuel)

/-- Whatever fuel made a call of the link callback terminate, it appended the pbuf of the buffer. -/
theorem halEthRxLinkCallback_appended {s s' : FrameState} {l : List Addr} {buff : Addr}
    {length : BitVec 16} {fuel : ℕ} (hcall : halEthRxLinkCallback pool fuel buff length s = some s')
    (h : MemChain s.mem s.pStart l) (hend : l = [] ∨ ∃ init, l = init ++ [s.pEnd])
    (hp : buff - pool.offsetofBuff ≠ NULL) (hfresh : buff - pool.offsetofBuff ∉ l) :
    Appended s s' l (buff - pool.offsetofBuff) length := by
  obtain ⟨t, ht, happ⟩ := halEthRxLinkCallback_spec length h hend hp hfresh
    (max fuel (l.length + 2)) (by omega)
  have hmono : halEthRxLinkCallback pool (max fuel (l.length + 2)) buff length s = some s' := by
    rw [halEthRxLinkCallback, Option.map_eq_some_iff] at hcall ⊢
    obtain ⟨m, hm, rfl⟩ := hcall
    exact ⟨m, addTotLen_mono hm (le_max_left _ _), rfl⟩
  obtain rfl : s' = t := Option.some.inj (hmono.symm.trans ht)
  exact happ

/-! ## The calls of one frame -/

/-- One filled descriptor of a frame: the pbuf the pool handed out, the buffer address the
allocate callback stored for it and the number of bytes received. -/
structure Segment where
  pbuf : Addr
  buff : Addr
  length : BitVec 16

/-- The buffer comes from `HAL_ETH_RxAllocateCallback`, which took `g.pbuf` from the pool. -/
def Segment.Allocated (pool : RxPool)
    (pbufAllocedCustom : BitVec 16 → Addr → BitVec 16 → Pbuf → Pbuf) (g : Segment) : Prop :=
  g.pbuf ∈ pool.elems ∧ ∃ s, (halEthRxAllocateCallback pool pbufAllocedCustom g.pbuf s).1 = g.buff

/-- The total length of some segments. -/
def sumLen (gs : List Segment) : ℕ := (gs.map fun g => g.length.toNat).sum

/-- The link callback over the segments of a frame, in order. -/
def linkAll (pool : RxPool) (fuel : ℕ) : FrameState → List Segment → Option FrameState
  | s, [] => some s
  | s, g :: gs =>
      (halEthRxLinkCallback pool fuel g.buff g.length s).bind fun s => linkAll pool fuel s gs

/-- The link callback recovers the pbuf the allocate callback took from the pool. -/
theorem Segment.Allocated.pbuf_eq {pbufAllocedCustom : BitVec 16 → Addr → BitVec 16 → Pbuf → Pbuf}
    {g : Segment} (h : g.Allocated pool pbufAllocedCustom) :
    g.buff - pool.offsetofBuff = g.pbuf := by
  obtain ⟨hmem, s, hbuff⟩ := h
  rw [halEthRxAllocateCallback, if_pos (pool.ne_null _ hmem)] at hbuff
  rw [← hbuff, BitVec.add_sub_cancel]

/-- Every pool element can be the first component of an allocated segment. -/
theorem Segment.allocated_of_mem
    (pbufAllocedCustom : BitVec 16 → Addr → BitVec 16 → Pbuf → Pbuf) {p : Addr}
    (hp : p ∈ pool.elems) (length : BitVec 16) :
    Segment.Allocated pool pbufAllocedCustom ⟨p, p + pool.offsetofBuff, length⟩ := by
  refine ⟨hp, ⟨⟨0, .rxAllocOk, fun _ => ⟨⟨NULL, 0, 0, 0⟩, none⟩⟩, ?_⟩⟩
  rw [halEthRxAllocateCallback, if_pos (pool.ne_null _ hp)]

/-- What holds of a frame after the link callback ran on the segments `gs`: its chain visits
their pbufs in order and ends at `*pEnd`, and every pbuf has its own length and the total length,
modulo `2 ^ 16`, of its segment and all later ones. -/
structure Built (s : FrameState) (gs : List Segment) : Prop where
  chain : MemChain s.mem s.pStart (gs.map Segment.pbuf)
  last : gs = [] ∨ ∃ init, gs.map Segment.pbuf = init ++ [s.pEnd]
  lens : ∀ pre g suf, gs = pre ++ g :: suf → (s.mem g.pbuf).pbuf.len = g.length ∧
    (s.mem g.pbuf).pbuf.totLen.toNat = sumLen (g :: suf) % 2 ^ 16

/-- Nothing is built before the first call, whatever `*pEnd` holds. -/
theorem built_nil (m : Mem) (pEnd : Addr) : Built ⟨m, NULL, pEnd⟩ [] :=
  ⟨.nil, .inl rfl, fun pre g suf h => absurd h (by simp)⟩

/-- A frame starts at the pbuf of its first segment. -/
theorem Built.pStart_eq {s : FrameState} {g : Segment} {gs : List Segment}
    (h : Built s (g :: gs)) : s.pStart = g.pbuf := by
  have hstart : s.pStart ≠ NULL := fun hnull => by
    simpa using h.chain.eq_nil_iff.mpr hnull
  obtain ⟨_, hcons, -⟩ := h.chain.exists_cons hstart
  exact (List.cons.inj hcons).1.symm

/-- **Step.** A call of the link callback on a fresh pbuf extends what is built by one segment. -/
theorem Built.step {s : FrameState} {gs : List Segment} (h : Built s gs) {g : Segment}
    (hpbuf : g.buff - pool.offsetofBuff = g.pbuf) (hne : g.pbuf ≠ NULL)
    (hfresh : g.pbuf ∉ gs.map Segment.pbuf) (fuel : ℕ) (hfuel : gs.length + 1 < fuel) :
    ∃ s', halEthRxLinkCallback pool fuel g.buff g.length s = some s' ∧ Built s' (gs ++ [g]) ∧
      ∀ a, a ∉ (gs ++ [g]).map Segment.pbuf → s'.mem a = s.mem a := by
  have hend : gs.map Segment.pbuf = [] ∨ ∃ init, gs.map Segment.pbuf = init ++ [s.pEnd] :=
    h.last.imp (fun hnil => by rw [hnil, List.map_nil]) id
  obtain ⟨s', hcall, happ⟩ := halEthRxLinkCallback_spec g.length h.chain hend
    (hpbuf ▸ hne) (hpbuf ▸ hfresh) fuel (by simpa using hfuel)
  rw [hpbuf] at happ
  refine ⟨s', hcall, ⟨?_, ?_, ?_⟩, ?_⟩
  · simpa using happ.chain
  · exact .inr ⟨gs.map Segment.pbuf, by simp [happ.pEnd_eq]⟩
  · intro pre g' suf heq
    rcases List.eq_nil_or_concat suf with rfl | ⟨suf, x, rfl⟩
    · -- the new segment
      obtain ⟨-, hg⟩ := List.append_inj' heq rfl
      obtain rfl : g = g' := by simpa using hg
      rw [happ.new]
      refine ⟨rfl, ?_⟩
      simp [sumLen, Nat.mod_eq_of_lt g.length.isLt]
    · -- an earlier segment: its total length grows by the new one
      rw [List.concat_eq_append, ← List.cons_append, ← List.append_assoc] at heq
      obtain ⟨hgs, hx⟩ := List.append_inj' heq rfl
      obtain rfl : g = x := by simpa using hx
      obtain ⟨hlen, htot⟩ := h.lens pre g' suf hgs
      have hmem : g'.pbuf ∈ gs.map Segment.pbuf :=
        List.mem_map_of_mem (hgs ▸ List.mem_append_right _ List.mem_cons_self)
      obtain ⟨hlen', htot', -⟩ := happ.old _ hmem
      refine ⟨hlen'.trans hlen, ?_⟩
      rw [htot', BitVec.toNat_add, htot, Nat.mod_add_mod]
      simp only [sumLen, List.concat_eq_append, List.map_cons, List.map_append, List.map_nil,
        List.sum_cons, List.sum_append, List.sum_nil]
      congr 1
      omega
  · intro a ha
    exact happ.frame a (by simpa using ha)

/-- **Run.** The calls for fresh, distinct pbufs terminate, extend what is built by all of them and
change no other pbuf. -/
theorem linkAll_built {fuel : ℕ} (gs : List Segment) {done : List Segment} {s : FrameState}
    (h : Built s done) (hpbuf : ∀ g ∈ gs, g.buff - pool.offsetofBuff = g.pbuf ∧ g.pbuf ≠ NULL)
    (hnd : ((done ++ gs).map Segment.pbuf).Nodup) (hfuel : (done ++ gs).length < fuel) :
    ∃ s', linkAll pool fuel s gs = some s' ∧ Built s' (done ++ gs) ∧
      ∀ a, a ∉ (done ++ gs).map Segment.pbuf → s'.mem a = s.mem a := by
  induction gs generalizing done s with
  | nil => exact ⟨s, rfl, by simpa using h, fun _ _ => rfl⟩
  | cons g gs ih =>
      obtain ⟨hg, hne⟩ := hpbuf g List.mem_cons_self
      have hfresh : g.pbuf ∉ done.map Segment.pbuf := by
        rw [List.map_append, List.map_cons] at hnd
        exact fun hmem => (List.nodup_append.mp hnd).2.2 _ hmem _ List.mem_cons_self rfl
      obtain ⟨s₁, hcall, hbuilt, hframe⟩ := h.step hg hne hfresh fuel (by
        rw [List.length_append, List.length_cons] at hfuel
        omega)
      have hsplit : done ++ g :: gs = done ++ [g] ++ gs := by simp
      rw [hsplit] at hnd hfuel ⊢
      obtain ⟨s', hrun, hbuilt', hframe'⟩ :=
        ih hbuilt (fun g' hg' => hpbuf g' (List.mem_cons_of_mem _ hg')) hnd hfuel
      refine ⟨s', ?_, hbuilt', fun a ha => ?_⟩
      · rw [linkAll, hcall, Option.bind_some]
        exact hrun
      · rw [hframe' a ha]
        refine hframe a fun hmem => ha ?_
        rw [List.map_append]
        exact List.mem_append_left _ hmem

/-! ## The finished frame -/

/-- The frame of the segments `gs`, received over the memory `m`: the chain lwIP takes over, and
the promise that no other pbuf changed. -/
structure FrameOf (m : Mem) (gs : List Segment) (s : FrameState) : Prop where
  pStart_eq : gs.head?.map Segment.pbuf = some s.pStart
  pEnd_eq : gs.getLast?.map Segment.pbuf = some s.pEnd
  chain : MemChain s.mem s.pStart (gs.map Segment.pbuf)
  len_eq : ∀ g ∈ gs, (s.mem g.pbuf).pbuf.len = g.length
  totLen_eq : ∀ pre g suf, gs = pre ++ g :: suf →
    (s.mem g.pbuf).pbuf.totLen.toNat = sumLen (g :: suf) % 65536
  /-- lwIP's invariant, when the frame is shorter than `2 ^ 16` bytes -/
  totLen_next : sumLen gs < 65536 → ∀ g ∈ gs, (s.mem g.pbuf).pbuf.totLen.toNat =
    (s.mem g.pbuf).pbuf.len.toNat +
      if s.mem.next g.pbuf = NULL then 0 else (s.mem (s.mem.next g.pbuf)).pbuf.totLen.toNat
  totLen_head : sumLen gs < 65536 → (s.mem s.pStart).pbuf.totLen.toNat = sumLen gs
  frame : ∀ a, a ∉ gs.map Segment.pbuf → s.mem a = m a

/-- The segments after a segment have a smaller total length. -/
theorem sumLen_suffix_le {gs : List Segment} (pre suf : List Segment) (h : gs = pre ++ suf) :
    sumLen suf ≤ sumLen gs := by
  subst h
  simp [sumLen]

/-- lwIP's `tot_len` invariant at one pbuf of a built frame. -/
theorem Built.totLen_next {s : FrameState} {gs : List Segment} (h : Built s gs)
    (hsum : sumLen gs < 65536) {pre suf : List Segment} {g : Segment}
    (heq : gs = pre ++ g :: suf) :
    (s.mem g.pbuf).pbuf.totLen.toNat = (s.mem g.pbuf).pbuf.len.toNat +
      if s.mem.next g.pbuf = NULL then 0
      else (s.mem (s.mem.next g.pbuf)).pbuf.totLen.toNat := by
  obtain ⟨hlen, htot⟩ := h.lens pre g suf heq
  have hle := sumLen_suffix_le pre (g :: suf) heq
  have hcons : sumLen (g :: suf) = g.length.toNat + sumLen suf := by simp [sumLen]
  have hchain : MemChain s.mem g.pbuf (g.pbuf :: suf.map Segment.pbuf) :=
    h.chain.suffix (by rw [heq, List.map_append, List.map_cons])
  obtain ⟨_, htail, hrest⟩ := hchain.exists_cons (hchain.ne_null _ List.mem_cons_self)
  obtain rfl := (List.cons.inj htail).2
  rw [hlen, htot, Nat.mod_eq_of_lt (by omega), hcons]
  congr 1
  cases suf with
  | nil =>
      rw [if_pos (hrest.eq_nil_iff.mp rfl)]
      rfl
  | cons g' suf =>
      -- the successor is the next segment's pbuf
      have hnext : s.mem.next g.pbuf ≠ NULL := fun hnull => by
        simpa using hrest.eq_nil_iff.mpr hnull
      obtain ⟨_, hcons', -⟩ := hrest.exists_cons hnext
      have hg' : s.mem.next g.pbuf = g'.pbuf := (List.cons.inj hcons').1.symm
      have heq' : gs = pre ++ [g] ++ g' :: suf := by simp [heq]
      obtain ⟨-, htot'⟩ := h.lens (pre ++ [g]) g' suf heq'
      have hle' := sumLen_suffix_le (pre ++ [g]) (g' :: suf) heq'
      rw [if_neg hnext, hg', htot', Nat.mod_eq_of_lt (by omega)]

/-- **The received frame.** For every non-empty sequence of distinct buffers from the allocate
callback and every sequence of lengths, over any contents of the recycled pbufs and any stale
`*pEnd`, the calls of the link callback terminate and leave the frame of these segments. -/
theorem halEthRxLinkCallback_frameOf (pool : RxPool)
    (pbufAllocedCustom : BitVec 16 → Addr → BitVec 16 → Pbuf → Pbuf) (m : Mem) (pEnd : Addr)
    (gs : List Segment) (hne : gs ≠ []) (halloc : ∀ g ∈ gs, g.Allocated pool pbufAllocedCustom)
    (hdistinct : (gs.map Segment.buff).Nodup) (fuel : ℕ) (hfuel : gs.length < fuel) :
    ∃ s, linkAll pool fuel ⟨m, NULL, pEnd⟩ gs = some s ∧ FrameOf m gs s := by
  have hbuff : gs.map Segment.buff =
      (gs.map Segment.pbuf).map fun p => p + pool.offsetofBuff := by
    rw [List.map_map]
    refine List.map_congr_left fun g hg => ?_
    rw [Function.comp_apply, ← (halloc g hg).pbuf_eq, BitVec.sub_add_cancel]
  have hnd : (gs.map Segment.pbuf).Nodup := (hbuff ▸ hdistinct).of_map
  obtain ⟨s, hrun, hbuilt, hframe⟩ := linkAll_built gs (built_nil m pEnd)
    (fun g hg => ⟨(halloc g hg).pbuf_eq, pool.ne_null _ (halloc g hg).1⟩)
    (by simpa using hnd) (by simpa using hfuel)
  rw [List.nil_append] at hbuilt hframe
  refine ⟨s, hrun, ?_, ?_, hbuilt.chain, ?_, ?_, ?_, ?_, hframe⟩
  · obtain ⟨g, gs, rfl⟩ := List.exists_cons_of_ne_nil hne
    rw [List.head?_cons, Option.map_some, hbuilt.pStart_eq]
  · obtain hnil | ⟨init, hinit⟩ := hbuilt.last
    · exact absurd hnil hne
    · rw [← List.getLast?_map, hinit, List.getLast?_concat]
  · intro g hg
    obtain ⟨pre, suf, heq⟩ := List.append_of_mem hg
    exact (hbuilt.lens pre g suf heq).1
  · exact fun pre g suf heq => (hbuilt.lens pre g suf heq).2
  · intro hsum g hg
    obtain ⟨pre, suf, heq⟩ := List.append_of_mem hg
    exact hbuilt.totLen_next hsum heq
  · intro hsum
    obtain ⟨g, gs, rfl⟩ := List.exists_cons_of_ne_nil hne
    rw [hbuilt.pStart_eq]
    exact (hbuilt.lens [] g gs rfl).2.trans (Nat.mod_eq_of_lt hsum)

/-- A frame over two buffers, over recycled pbufs that point to the first element and with a stale
`*pEnd`. -/
theorem halEthRxLinkCallback_frameOf_two :
    ∃ s, linkAll ramPool 3 ⟨fun _ => ⟨⟨0x20000000, 0, 7, 7⟩, none⟩, NULL, 0x20000620⟩
        [⟨0x20000620, 0x20000640, 1536⟩, ⟨0x20000000, 0x20000020, 64000⟩] = some s ∧
      FrameOf (fun _ => ⟨⟨0x20000000, 0, 7, 7⟩, none⟩)
        [⟨0x20000620, 0x20000640, 1536⟩, ⟨0x20000000, 0x20000020, 64000⟩] s := by
  refine halEthRxLinkCallback_frameOf ramPool lwipAllocedCustom _ _ _ (by simp) ?_ (by decide) 3
    (by decide)
  intro g hg
  simp only [List.mem_cons, List.not_mem_nil, or_false] at hg
  rcases hg with rfl | rfl
  · exact Segment.allocated_of_mem _ (by decide) _
  · exact Segment.allocated_of_mem _ (by decide) _

end Stm32Eth.Rx
