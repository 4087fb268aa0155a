import Stm32Eth.Pbuf

/-!
# `low_level_output`

The transmit function of `ethif.c`: it walks the pbuf chain of a packet into a local array of
`ETH_TX_DESC_CNT` scatter entries, stores the packet's description in the static `TxConfig` and
calls `HAL_ETH_Transmit`. An index outside the array, a null pointer that is read and a loop that
does not end are faults of the model.

Abstractly the array is `scatter`, a function of the list of pbufs. The loop computes it
(`fillTxbuffer_eq`), and what the hardware gathers along its list is the packet.
-/

namespace Stm32Eth.Tx

open Linked

/-! ## Data -/

/-- `ETH_BufferTypeDef`. `next` is the index of the entry it points to, in the same array. -/
structure EthBuffer where
  buffer : Addr
  len : BitVec 32
  next : Option ℕ
  deriving DecidableEq, Repr

/-- The fields of `ETH_TxPacketConfig` the driver writes. `txBuffer` is the call of
`low_level_output` whose array it points to. -/
structure EthTxPacketConfig where
  attributes : BitVec 32
  length : BitVec 32
  txBuffer : Option ℕ
  checksumCtrl : BitVec 32
  crcPadCtrl : BitVec 32
  pData : Addr
  deriving DecidableEq, Repr

/-- What must never happen. -/
inductive Fault
  | outOfBounds
  | nullPointer
  | outOfFuel
  deriving DecidableEq, Repr

variable {C : ℕ}

/-- A call of `HAL_ETH_Transmit`: the configuration it reads, the array the configuration points to
and the timeout. -/
structure Transmit (C : ℕ) where
  config : EthTxPacketConfig
  txbuffer : Vector EthBuffer C
  timeout : ℕ

/-- What `low_level_output` reads and writes: the pbufs, `TxConfig` and the calls of
`HAL_ETH_Transmit`. -/
structure TxState (C : ℕ) where
  mem : Addr → Pbuf
  txConfig : EthTxPacketConfig
  transmits : List (Transmit C)

/-- `ETH_DMA_TRANSMIT_TIMEOUT`. -/
def ethDmaTransmitTimeout : ℕ := 20

/-! ## The function -/

/-- `ETH_BufferTypeDef Txbuffer[ETH_TX_DESC_CNT] = { 0 }`. -/
def zeroTxbuffer (C : ℕ) : Vector EthBuffer C := .replicate C ⟨0, 0, none⟩

/-- A store to a member of `Txbuffer[i]`. -/
def store (t : Vector EthBuffer C) (i : ℕ) (f : EthBuffer → EthBuffer) :
    Except Fault (Vector EthBuffer C) :=
  if h : i < C then .ok (t.set i (f t[i])) else .error .outOfBounds

/-- The stores of one iteration of the loop. -/
def storeEntry (m : Addr → Pbuf) (q : Addr) (i : ℕ) (t : Vector EthBuffer C) :
    Except Fault (Vector EthBuffer C) := do
  let t ← store t i fun e => { e with buffer := (m q).payload }
  let t ← store t i fun e => { e with len := (m q).len.setWidth 32 }
  let t ← if 0 < i then store t (i - 1) fun e => { e with next := some i } else .ok t
  if (m q).next = NULL then store t i fun e => { e with next := none } else .ok t

/-- The loop over the pbuf chain, from the pbuf `q` and the entry `i` on: `none` when it returns
`ERR_IF`. -/
def fillTxbuffer (m : Addr → Pbuf) :
    ℕ → Addr → ℕ → Vector EthBuffer C → Except Fault (Option (Vector EthBuffer C))
  | 0, _, _, _ => .error .outOfFuel
  | fuel + 1, q, i, t =>
      if q = NULL then .ok (some t)
      else if i ≥ C then .ok none
      else do
        let t ← storeEntry m q i t
        fillTxbuffer m fuel (m q).next (i + 1) t

/-- `low_level_output`, with the answers of `HAL_ETH_Transmit`. The array of the call `call` has
`ETH_TX_DESC_CNT = C` entries. -/
def lowLevelOutput (halEthTransmit : Transmit C → HalStatus) (call : ℕ) (p : Addr)
    (s : TxState C) : Except Fault (ErrT × TxState C) := do
  match ← fillTxbuffer s.mem (C + 1) p 0 (zeroTxbuffer C) with
  | none => .ok (.errIf, s)
  | some txbuffer =>
      if p = NULL then .error .nullPointer
      else
        let txConfig := { s.txConfig with
          length := (s.mem p).totLen.setWidth 32
          txBuffer := some call
          pData := p }
        let transmit := ⟨txConfig, txbuffer, ethDmaTransmitTimeout⟩
        let s := { s with txConfig := txConfig, transmits := s.transmits ++ [transmit] }
        if halEthTransmit transmit ≠ .halOk then .ok (.errIf, s) else .ok (.errOk, s)

/-! ## The scatter list of a packet -/

/-- The entry `i` of the scatter list of the pbufs `l`. -/
def scatterEntry (m : Addr → Pbuf) (l : List Addr) (i : ℕ) : EthBuffer :=
  match l[i]? with
  | some q =>
      ⟨(m q).payload, (m q).len.setWidth 32, if i + 1 < l.length then some (i + 1) else none⟩
  | none => ⟨0, 0, none⟩

/-- The array that describes the pbufs `l`. -/
def scatter (C : ℕ) (m : Addr → Pbuf) (l : List Addr) : Vector EthBuffer C :=
  .ofFn fun i => scatterEntry m l i

@[simp] theorem scatter_getElem (m : Addr → Pbuf) (l : List Addr) {i : ℕ} (h : i < C) :
    (scatter C m l)[i] = scatterEntry m l i := by
  simp [scatter]

/-- No pbuf is described before the loop. -/
theorem zeroTxbuffer_eq (m : Addr → Pbuf) : zeroTxbuffer C = scatter C m [] := by
  ext i hi
  simp [zeroTxbuffer, scatterEntry]

/-- The entry after the last described pbuf is still zero. -/
theorem scatterEntry_length (m : Addr → Pbuf) (l : List Addr) :
    scatterEntry m l l.length = ⟨0, 0, none⟩ := by
  simp [scatterEntry]

/-- The entry of the last described pbuf. -/
theorem scatterEntry_last (m : Addr → Pbuf) (l : List Addr) (q : Addr) :
    scatterEntry m (l ++ [q]) l.length = ⟨(m q).payload, (m q).len.setWidth 32, none⟩ := by
  simp [scatterEntry]

/-- The entry before it is linked to it. -/
theorem scatterEntry_prev (m : Addr → Pbuf) {l : List Addr} (q : Addr) {i : ℕ}
    (h : i + 1 = l.length) :
    scatterEntry m (l ++ [q]) i = { scatterEntry m l i with next := some (i + 1) } := by
  have hi : i < l.length := by omega
  simp [scatterEntry, List.getElem?_append_left hi, List.getElem?_eq_getElem hi, h]

/-- The other entries do not change. -/
theorem scatterEntry_of_ne (m : Addr → Pbuf) {l : List Addr} (q : Addr) {i : ℕ}
    (h : i ≠ l.length) (h' : i + 1 ≠ l.length) :
    scatterEntry m (l ++ [q]) i = scatterEntry m l i := by
  by_cases hi : i < l.length
  · have hi' : i + 1 < l.length := by omega
    simp [scatterEntry, List.getElem?_append_left hi, List.getElem?_eq_getElem hi, hi']
    omega
  · have hlen : (l ++ [q]).length ≤ i := by simp; omega
    simp only [scatterEntry, List.getElem?_eq_none hlen, List.getElem?_eq_none (not_lt.mp hi)]

theorem store_eq {t : Vector EthBuffer C} {i : ℕ} (h : i < C) (f : EthBuffer → EthBuffer) :
    store t i f = .ok (t.set i (f t[i])) := by
  rw [store, dif_pos h]

/-- The stores of one iteration, entry by entry. -/
theorem scatter_append (m : Addr → Pbuf) (l : List Addr) (q : Addr) {t : Vector EthBuffer C}
    (hlast : ∀ h : l.length < C, t[l.length] = ⟨(m q).payload, (m q).len.setWidth 32, none⟩)
    (hprev : ∀ i (h : i < C), i + 1 = l.length →
      t[i] = { (scatter C m l)[i] with next := some (i + 1) })
    (hother : ∀ i (h : i < C), i ≠ l.length → i + 1 ≠ l.length → t[i] = (scatter C m l)[i]) :
    t = scatter C m (l ++ [q]) := by
  ext i hi
  rw [scatter_getElem]
  by_cases hi' : i = l.length
  · subst hi'
    rw [hlast hi, scatterEntry_last]
  · by_cases hi'' : i + 1 = l.length
    · rw [hprev i hi hi'', scatter_getElem, scatterEntry_prev m q hi'']
    · rw [hother i hi hi' hi'', scatter_getElem, scatterEntry_of_ne m q hi' hi'']

/-- **Step.** One iteration extends the described pbufs by the one it visits. -/
theorem storeEntry_eq (m : Addr → Pbuf) (l : List Addr) (q : Addr) (h : l.length < C) :
    storeEntry m q l.length (scatter C m l) = .ok (scatter C m (l ++ [q])) := by
  have hzero : (scatter C m l)[l.length] = ⟨0, 0, none⟩ := by
    rw [scatter_getElem, scatterEntry_length]
  by_cases hl : 0 < l.length
  · have hprev : l.length - 1 < C := by omega
    have hne : l.length - 1 ≠ l.length := by omega
    simp only [storeEntry, store_eq h, store_eq hprev, if_pos hl, bind, Except.bind,
      Vector.getElem_set_self, Vector.getElem_set_ne, hzero, hne, ne_eq, not_false_eq_true,
      Ne.symm hne]
    -- the last store, of a null `next`, finds one there
    split
    all_goals
      rw [Except.ok.injEq]
      apply scatter_append
      · intro h
        simp [hne]
      · intro i hi hlast
        have hi' : i = l.length - 1 := by omega
        subst hi'
        simp [Ne.symm hne, hlast]
      · intro i hi hi' hi''
        have hprev' : l.length - 1 ≠ i := by omega
        simp [Ne.symm hi', hprev']
  · simp only [storeEntry, store_eq h, if_neg hl, bind, Except.bind, Vector.getElem_set_self,
      hzero]
    split
    all_goals
      rw [Except.ok.injEq]
      apply scatter_append
      · intro h
        simp
      · intro i hi hlast
        omega
      · intro i hi hi' hi''
        simp [Ne.symm hi']

/-- **Run.** On a finite chain the loop ends without a fault: it describes the whole chain, or the
chain is too long. -/
theorem fillTxbuffer_eq (m : Addr → Pbuf) {q : Addr} {rest : List Addr}
    (hchain : PbufChain m q rest) {l : List Addr} (hl : l.length ≤ C) (fuel : ℕ)
    (hfuel : C - l.length < fuel) :
    fillTxbuffer m fuel q l.length (scatter C m l) =
      .ok (if (l ++ rest).length ≤ C then some (scatter C m (l ++ rest)) else none) := by
  induction rest generalizing q l fuel with
  | nil =>
      obtain ⟨f, rfl⟩ : ∃ f, fuel = f + 1 := ⟨fuel - 1, by omega⟩
      have hq : q = NULL := hchain.eq_nil_iff.mp rfl
      rw [List.append_nil, if_pos hl, fillTxbuffer, if_pos hq]
  | cons a rest ih =>
      obtain ⟨f, rfl⟩ : ∃ f, fuel = f + 1 := ⟨fuel - 1, by omega⟩
      cases hchain with
      | cons hq hrest =>
          rw [fillTxbuffer, if_neg hq]
          by_cases hfull : C ≤ l.length
          · -- every entry is used and a pbuf is left
            have hlen : ¬ (l ++ a :: rest).length ≤ C := by
              simp only [List.length_append, List.length_cons]
              omega
            rw [if_pos hfull, if_neg hlen]
          · have hroom : l.length < C := by omega
            have hstep := ih hrest (l := l ++ [a]) (by simp; omega) f (by simp; omega)
            rw [List.append_assoc, List.singleton_append, List.length_append,
              List.length_singleton] at hstep
            rw [if_neg hfull, storeEntry_eq m l a hroom]
            exact hstep

/-! ## What the hardware gathers -/

/-- The entry that follows an entry in the list of an array. -/
def nextEntry (t : Vector EthBuffer C) : Option ℕ → Option ℕ
  | some i => t[i]?.bind EthBuffer.next
  | none => none

/-- The array's list, from its first entry on, has exactly one entry for each of the pbufs `l`, in
order, with its payload and length. -/
structure IsScatterList (m : Addr → Pbuf) (t : Vector EthBuffer C) (l : List Addr) : Prop where
  chain : Chain none (nextEntry t) (some 0) ((List.range l.length).map some)
  entries : ((List.range l.length).map fun i => t[i]?.map fun e => (e.buffer, e.len)) =
    l.map fun q => some ((m q).payload, (m q).len.setWidth 32)

/-- `n` bytes from an address on. -/
def bytesAt (bytes : Addr → BitVec 8) (a : Addr) (n : ℕ) : List (BitVec 8) :=
  (List.range n).map fun k => bytes (a + BitVec.ofNat 32 k)

/-- The bytes of a packet. -/
def packetBytes (m : Addr → Pbuf) (bytes : Addr → BitVec 8) (l : List Addr) : List (BitVec 8) :=
  l.flatMap fun q => bytesAt bytes (m q).payload (m q).len.toNat

/-- The bytes of an entry of an array. -/
def entryBytes (bytes : Addr → BitVec 8) (t : Vector EthBuffer C) (o : Option ℕ) :
    List (BitVec 8) :=
  match o.bind (t[·]?) with
  | some e => bytesAt bytes e.buffer e.len.toNat
  | none => []

/-- The bytes the hardware gathers along the list of an array. -/
noncomputable def gatheredBytes (bytes : Addr → BitVec 8) (t : Vector EthBuffer C) :
    List (BitVec 8) :=
  (nodes none (nextEntry t) (some 0)).flatMap (entryBytes bytes t)

/-- A described pbuf's entry. -/
theorem scatter_getElem? (m : Addr → Pbuf) {l : List Addr} (hl : l.length ≤ C) {i : ℕ}
    (h : i < l.length) :
    (scatter C m l)[i]? = some ⟨(m l[i]).payload, (m l[i]).len.setWidth 32,
      if i + 1 < l.length then some (i + 1) else none⟩ := by
  have hi : i < C := by omega
  rw [Vector.getElem?_eq_getElem hi, scatter_getElem, scatterEntry, List.getElem?_eq_getElem h]

/-- From any described entry on, the list visits the later ones. -/
theorem scatter_chain (m : Addr → Pbuf) {l : List Addr} (hl : l.length ≤ C) (n : ℕ) :
    ∀ {i : ℕ}, i + n = l.length →
      Chain none (nextEntry (scatter C m l)) (if i < l.length then some i else none)
        ((List.range' i n).map some) := by
  induction n with
  | zero =>
      intro i hi
      rw [if_neg (by omega)]
      exact .nil
  | succ n ih =>
      intro i hi
      have hlt : i < l.length := by omega
      rw [if_pos hlt, List.range'_succ, List.map_cons]
      refine .cons (by simp) ?_
      rw [nextEntry, scatter_getElem? m hl hlt]
      exact ih (by omega)

/-- The array of a packet is its scatter list. -/
theorem scatter_isScatterList (m : Addr → Pbuf) {l : List Addr} (hl : l.length ≤ C)
    (hne : l ≠ []) : IsScatterList m (scatter C m l) l where
  chain := by
    have hpos : 0 < l.length := List.length_pos_iff.mpr hne
    have hchain := scatter_chain m hl l.length (i := 0) (by omega)
    rwa [if_pos hpos, ← List.range_eq_range'] at hchain
  entries := by
    apply List.ext_getElem
    · simp
    · intro i h _
      have hi : i < l.length := by simpa using h
      simp [scatter_getElem? m hl hi]

/-- The hardware gathers exactly the bytes of the packet. -/
theorem gatheredBytes_scatter (m : Addr → Pbuf) (bytes : Addr → BitVec 8) {l : List Addr}
    (hl : l.length ≤ C) (hne : l ≠ []) :
    gatheredBytes bytes (scatter C m l) = packetBytes m bytes l := by
  rw [gatheredBytes, (scatter_isScatterList m hl hne).chain.nodes_eq, packetBytes,
    List.flatMap_def, List.flatMap_def, List.map_map]
  congr 1
  apply List.ext_getElem
  · simp
  · intro i h _
    have hi : i < l.length := by simpa using h
    have hlen : (m l[i]).len.toNat % 4294967296 = (m l[i]).len.toNat :=
      Nat.mod_eq_of_lt (by have := (m l[i]).len.isLt; omega)
    simp [entryBytes, scatter_getElem? m hl hi, hlen]

/-- A packet is as long as its pbufs together. -/
theorem length_packetBytes (m : Addr → Pbuf) (bytes : Addr → BitVec 8) (l : List Addr) :
    (packetBytes m bytes l).length = (l.map fun q => (m q).len.toNat).sum := by
  simp [packetBytes, bytesAt, List.length_flatMap]

/-! ## The result -/

/-- The call of `HAL_ETH_Transmit` for the packet `p` with the pbufs `l`. -/
def transmitOf (call : ℕ) (p : Addr) (s : TxState C) (l : List Addr) : Transmit C where
  config := { s.txConfig with
    length := (s.mem p).totLen.setWidth 32, txBuffer := some call, pData := p }
  txbuffer := scatter C s.mem l
  timeout := ethDmaTransmitTimeout

/-- The loop on a whole chain. -/
theorem fillTxbuffer_chain (m : Addr → Pbuf) {p : Addr} {l : List Addr} (h : PbufChain m p l) :
    fillTxbuffer m (C + 1) p 0 (zeroTxbuffer C)
      = .ok (if l.length ≤ C then some (scatter C m l) else none) := by
  have hfill := fillTxbuffer_eq (C := C) m h (l := []) (Nat.zero_le C) (C + 1) (by simp)
  rwa [List.length_nil, List.nil_append, ← zeroTxbuffer_eq] at hfill

/-- A packet that fits is handed to `HAL_ETH_Transmit`. -/
theorem lowLevelOutput_of_le (halEthTransmit : Transmit C → HalStatus) (call : ℕ) {p : Addr}
    {s : TxState C} {l : List Addr} (hchain : PbufChain s.mem p l) (hp : p ≠ NULL)
    (hfits : l.length ≤ C) :
    lowLevelOutput halEthTransmit call p s =
      .ok (if halEthTransmit (transmitOf call p s l) = .halOk then .errOk else .errIf,
        { s with
          txConfig := (transmitOf call p s l).config
          transmits := s.transmits ++ [transmitOf call p s l] }) := by
  have hrun : lowLevelOutput halEthTransmit call p s
      = if halEthTransmit (transmitOf call p s l) ≠ .halOk then
          .ok (.errIf, { s with
            txConfig := (transmitOf call p s l).config
            transmits := s.transmits ++ [transmitOf call p s l] })
        else .ok (.errOk, { s with
            txConfig := (transmitOf call p s l).config
            transmits := s.transmits ++ [transmitOf call p s l] }) := by
    rw [lowLevelOutput, fillTxbuffer_chain s.mem hchain, if_pos hfits]
    exact if_neg hp
  rw [hrun]
  by_cases hok : halEthTransmit (transmitOf call p s l) = .halOk
  · rw [if_neg (not_not.mpr hok), if_pos hok]
  · rw [if_pos hok, if_neg hok]

/-- A packet with too many pbufs is refused. -/
theorem lowLevelOutput_of_lt (halEthTransmit : Transmit C → HalStatus) (call : ℕ) {p : Addr}
    {s : TxState C} {l : List Addr} (hchain : PbufChain s.mem p l) (hlong : C < l.length) :
    lowLevelOutput halEthTransmit call p s = .ok (.errIf, s) := by
  rw [lowLevelOutput, fillTxbuffer_chain s.mem hchain, if_neg (by omega)]
  rfl

/-- **Scatter list of a transmitted frame.** For every finite non-empty chain of pbufs, every
number of descriptors and every prior `TxConfig`, `low_level_output` ends without a fault and leaves
the pbufs alone. If the descriptors suffice it calls `HAL_ETH_Transmit` exactly once, with the
packet's length, scatter list and pbuf, and reports whether the call succeeded. Otherwise it returns
`ERR_IF`, calls nothing and leaves `TxConfig` alone. -/
theorem lowLevelOutput_spec (halEthTransmit : Transmit C → HalStatus) (call : ℕ) (p : Addr)
    (s : TxState C) (l : List Addr) (hchain : PbufChain s.mem p l) (hp : p ≠ NULL) :
    (l.length ≤ C → ∃ transmit s',
      lowLevelOutput halEthTransmit call p s
        = .ok (if halEthTransmit transmit = .halOk then .errOk else .errIf, s') ∧
      s'.mem = s.mem ∧ s'.transmits = s.transmits ++ [transmit] ∧
      s'.txConfig = transmit.config ∧
      transmit.config = { s.txConfig with
        length := (s.mem p).totLen.setWidth 32, txBuffer := some call, pData := p } ∧
      IsScatterList s.mem transmit.txbuffer l ∧
      (∀ bytes, gatheredBytes bytes transmit.txbuffer = packetBytes s.mem bytes l) ∧
      ((s.mem p).totLen.toNat = (l.map fun q => (s.mem q).len.toNat).sum →
        ∀ bytes, (gatheredBytes bytes transmit.txbuffer).length = transmit.config.length.toNat)) ∧
    (C < l.length → lowLevelOutput halEthTransmit call p s = .ok (.errIf, s)) := by
  have hne : l ≠ [] := fun hnil => hp (hchain.eq_nil_iff.mp hnil)
  refine ⟨fun hfits => ?_, lowLevelOutput_of_lt halEthTransmit call hchain⟩
  refine ⟨_, _, lowLevelOutput_of_le halEthTransmit call hchain hp hfits, rfl, rfl, rfl, rfl,
    scatter_isScatterList s.mem hfits hne,
    fun bytes => gatheredBytes_scatter s.mem bytes hfits hne, fun htot bytes => ?_⟩
  have hlt := (s.mem p).totLen.isLt
  rw [transmitOf, gatheredBytes_scatter s.mem bytes hfits hne, length_packetBytes, ← htot,
    BitVec.toNat_setWidth, Nat.mod_eq_of_lt (by omega)]

/-- A packet of two pbufs, of 14 and 46 bytes. -/
def twoPbufs : Addr → Pbuf := fun a =>
  if a = 0x20000000 then ⟨0x20000100, 0x20001000, 60, 14⟩ else ⟨NULL, 0x20002000, 46, 46⟩

/-- The packet of two pbufs with four descriptors. -/
theorem lowLevelOutput_twoPbufs :
    ∃ transmit s', lowLevelOutput (C := 4) (fun _ => .halOk) 0 0x20000000
        ⟨twoPbufs, ⟨0, 0, none, 0, 0, NULL⟩, []⟩ = .ok (.errOk, s') ∧
      s'.transmits = [transmit] ∧
      IsScatterList twoPbufs transmit.txbuffer [0x20000000, 0x20000100] := by
  have hchain : PbufChain twoPbufs 0x20000000 [0x20000000, 0x20000100] :=
    .cons (by decide) (.cons (by decide) .nil)
  obtain ⟨transmit, s', hrun, -, hsent, -, -, hlist, -⟩ := (lowLevelOutput_spec (C := 4)
    (fun _ => .halOk) 0 0x20000000 ⟨twoPbufs, ⟨0, 0, none, 0, 0, NULL⟩, []⟩ _ hchain
    (by decide)).1 (by decide)
  exact ⟨transmit, s', hrun, hsent, hlist⟩

end Stm32Eth.Tx
