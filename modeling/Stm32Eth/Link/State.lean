import Stm32Eth.Lib.EdgeLatch
import Stm32Eth.Lib.Transition
import Stm32Eth.Pbuf

/-!
# The `link_state` task

`link_state` polls the PHY with `ethphy_getlink`, which decodes the two latched bits of register
0x1B, and passes a change on to lwIP. lwIP's netif functions are parameters: `SetsFlags` and
`CallsBack` say what the tasks rely on.

The latches do not tell the order of the edges since the last poll, and `ethphy_getlink` takes a set
up bit for a link that is up. So the netif's flags agree with the link after a poll unless the link
has come up and gone down since the previous one (`linkState_agrees_iff`).
-/

namespace Stm32Eth.Link

open EdgeLatch Transition

/-! ## `ethphy_getlink` -/

/-- `enum link_status`. -/
inductive LinkStatus
  | linkUp
  | linkDown
  | linkUnchanged
  | linkError
  deriving DecidableEq, Repr

/-- `PHY_LINK_INT_UP_OCCURRED`. -/
def phyLinkIntUpOccurred : BitVec 32 := 0x0001

/-- `PHY_LINK_INT_DOWN_OCCURED`. -/
def phyLinkIntDownOccured : BitVec 32 := 0x0004

/-- `ethphy_getlink`, with the result of `HAL_ETH_ReadPHYRegister` on `PHY_INTERRUPT_STATUS`. -/
def ethphyGetlink (status : HalStatus) (regval : BitVec 32) : LinkStatus :=
  if status = .halOk then
    if regval &&& phyLinkIntUpOccurred ≠ 0 then .linkUp
    else if regval &&& phyLinkIntDownOccured ≠ 0 then .linkDown
    else .linkUnchanged
  else .linkError

/-- Register 0x1B of the PHY: the latches of the link and its other bits. -/
def interruptStatus (phy : Latch) (other : BitVec 32) : BitVec 32 :=
  (other &&& ~~~(phyLinkIntUpOccurred ||| phyLinkIntDownOccured)) |||
    ((if phy.rose then phyLinkIntUpOccurred else 0) |||
      (if phy.fell then phyLinkIntDownOccured else 0))

/-- A bit of register 0x1B does not depend on its other bits. -/
theorem interruptStatus_and (phy : Latch) (other : BitVec 32) {mask : BitVec 32}
    (hmask : ~~~(phyLinkIntUpOccurred ||| phyLinkIntDownOccured) &&& mask = 0) :
    interruptStatus phy other &&& mask =
      ((if phy.rose then phyLinkIntUpOccurred else 0) |||
        (if phy.fell then phyLinkIntDownOccured else 0)) &&& mask := by
  have hother : other &&& ~~~(phyLinkIntUpOccurred ||| phyLinkIntDownOccured) &&& mask = 0 := by
    rw [BitVec.and_assoc, hmask]
    exact BitVec.and_zero
  rw [interruptStatus, BitVec.and_or_distrib_right, hother]
  exact BitVec.zero_or

/-- The up bit is the latch of the link's rising edges. -/
theorem interruptStatus_up (phy : Latch) (other : BitVec 32) :
    interruptStatus phy other &&& phyLinkIntUpOccurred ≠ 0 ↔ phy.rose = true := by
  rw [interruptStatus_and phy other (by decide)]
  cases phy.rose <;> cases phy.fell <;> decide

/-- The down bit is the latch of its falling edges. -/
theorem interruptStatus_down (phy : Latch) (other : BitVec 32) :
    interruptStatus phy other &&& phyLinkIntDownOccured ≠ 0 ↔ phy.fell = true := by
  rw [interruptStatus_and phy other (by decide)]
  cases phy.rose <;> cases phy.fell <;> decide

/-- What `ethphy_getlink` decodes from a successful read. -/
theorem ethphyGetlink_interruptStatus (phy : Latch) (other : BitVec 32) :
    ethphyGetlink .halOk (interruptStatus phy other) =
      if phy.rose then .linkUp else if phy.fell then .linkDown else .linkUnchanged := by
  simp only [ethphyGetlink, interruptStatus_up, interruptStatus_down, if_true]

/-- A failed read is no change. -/
theorem ethphyGetlink_of_ne {status : HalStatus} (h : status ≠ .halOk) (regval : BitVec 32) :
    ethphyGetlink status regval = .linkError := by
  rw [ethphyGetlink, if_neg h]

/-! ## lwIP's network interface -/

/-- The flags of `struct netif` this program reads or sets. -/
structure NetifFlags where
  up : Bool
  linkUp : Bool
  broadcast : Bool
  etharp : Bool
  deriving DecidableEq, Repr

/-- `struct netif`: its flags, the fields `low_level_init` and `ethernetif_init` set, and the rest,
which only lwIP uses. -/
structure Netif (ρ : Type*) where
  flags : NetifFlags
  name : BitVec 8 × BitVec 8
  hwaddrLen : BitVec 8
  hwaddr : Vector (BitVec 8) 6
  mtu : BitVec 16
  rest : ρ

variable {ρ : Type*}

/-- lwIP's functions on a netif. `netif_set_link_up` and `netif_set_link_down` may invoke the
registered link callback: the second component is the netif they invoke it with. -/
structure Lwip (ρ : Type*) where
  netifSetUp : Netif ρ → Netif ρ
  netifSetDown : Netif ρ → Netif ρ
  netifSetLinkUp : Netif ρ → Netif ρ × Option (Netif ρ)
  netifSetLinkDown : Netif ρ → Netif ρ × Option (Netif ρ)

/-- Each function sets or clears its own flag. -/
structure SetsFlags (lwip : Lwip ρ) : Prop where
  setUp : ∀ n, (lwip.netifSetUp n).flags = { n.flags with up := true }
  setDown : ∀ n, (lwip.netifSetDown n).flags = { n.flags with up := false }
  setLinkUp : ∀ n, (lwip.netifSetLinkUp n).1.flags = { n.flags with linkUp := true }
  setLinkDown : ∀ n, (lwip.netifSetLinkDown n).1.flags = { n.flags with linkUp := false }

/-- The link callback is invoked exactly when `NETIF_FLAG_LINK_UP` changes, with a netif whose
`NETIF_FLAG_UP` is unchanged. -/
structure CallsBack (lwip : Lwip ρ) : Prop where
  linkUp_unchanged : ∀ n, n.flags.linkUp = true → (lwip.netifSetLinkUp n).2 = none
  linkUp_changed : ∀ n, n.flags.linkUp = false →
    ∃ m, (lwip.netifSetLinkUp n).2 = some m ∧ m.flags.up = n.flags.up
  linkDown_unchanged : ∀ n, n.flags.linkUp = false → (lwip.netifSetLinkDown n).2 = none
  linkDown_changed : ∀ n, n.flags.linkUp = true →
    ∃ m, (lwip.netifSetLinkDown n).2 = some m ∧ m.flags.up = n.flags.up

/-- The netif functions of lwIP as far as the flags and the callback go. -/
def lwipFlags (ρ : Type*) : Lwip ρ where
  netifSetUp n := { n with flags := { n.flags with up := true } }
  netifSetDown n := { n with flags := { n.flags with up := false } }
  netifSetLinkUp n :=
    let m := { n with flags := { n.flags with linkUp := true } }
    (m, if n.flags.linkUp then none else some m)
  netifSetLinkDown n :=
    let m := { n with flags := { n.flags with linkUp := false } }
    (m, if n.flags.linkUp then some m else none)

theorem lwipFlags_setsFlags (ρ : Type*) : SetsFlags (lwipFlags ρ) :=
  ⟨fun _ => rfl, fun _ => rfl, fun _ => rfl, fun _ => rfl⟩

theorem lwipFlags_callsBack (ρ : Type*) : CallsBack (lwipFlags ρ) :=
  ⟨fun n h => by simp [lwipFlags, h], fun n h => by simp [lwipFlags, h],
    fun n h => by simp [lwipFlags, h], fun n h => by simp [lwipFlags, h]⟩

/-! ## `link_state` -/

/-- The PHY, `s_netif` and `g_link`. -/
structure State (ρ : Type*) where
  phy : Latch
  netif : Netif ρ
  gLink : ℤ

/-- `ethernet_link_updated`, the registered link callback: the value it stores in `g_link`. -/
def ethernetLinkUpdated (n : Netif ρ) : ℤ := if n.flags.up then 1 else 2

/-- A call of `netif_set_link_up` or `netif_set_link_down`, with the link callback if it is
invoked. -/
def State.setLink (s : State ρ) (r : Netif ρ × Option (Netif ρ)) : State ρ :=
  match r.2 with
  | none => { s with netif := r.1 }
  | some m => { s with netif := r.1, gLink := ethernetLinkUpdated m }

/-- An iteration of the loop of `link_state` after `ethphy_getlink` has returned. -/
def linkState (lwip : Lwip ρ) (link : LinkStatus) (s : State ρ) : State ρ :=
  match link with
  | .linkUp =>
      let s := { s with netif := lwip.netifSetUp s.netif }
      s.setLink (lwip.netifSetLinkUp s.netif)
  | .linkDown =>
      let s := { s with netif := lwip.netifSetDown s.netif }
      s.setLink (lwip.netifSetLinkDown s.netif)
  | _ => s

/-- What happens: the physical link changes, or `link_state` polls. `status` is the result of
`HAL_ETH_ReadPHYRegister` and `other` are the other bits of the register. -/
inductive Event
  | transition
  | poll (status : HalStatus) (other : BitVec 32)
  deriving DecidableEq, Repr

/-- The poll reads the PHY. -/
def Event.reads : Event → Bool
  | .poll .halOk _ => true
  | _ => false

theorem Event.reads_of_ne {status : HalStatus} (h : status ≠ .halOk) (other : BitVec 32) :
    (Event.poll status other).reads = false := by
  cases status with
  | halOk => exact absurd rfl h
  | _ => rfl

/-- What is promised after a read of the PHY holds of every other event. -/
theorem Event.of_not_reads {e : Event} (h : e.reads = false) {P : Prop} : e.reads = true → P :=
  fun hreads => absurd (h.symm.trans hreads) Bool.false_ne_true

/-- The step of an event. A successful read clears the latches of the PHY. -/
def step (lwip : Lwip ρ) (s : State ρ) : Event → State ρ
  | .transition => { s with phy := s.phy.toggle }
  | .poll status other =>
      let link := ethphyGetlink status (interruptStatus s.phy other)
      let s := if status = .halOk then { s with phy := s.phy.clear } else s
      linkState lwip link s

/-! ## One poll -/

@[simp] theorem State.setLink_netif (s : State ρ) (r : Netif ρ × Option (Netif ρ)) :
    (s.setLink r).netif = r.1 := by
  unfold State.setLink
  split <;> rfl

@[simp] theorem State.setLink_phy (s : State ρ) (r : Netif ρ × Option (Netif ρ)) :
    (s.setLink r).phy = s.phy := by
  unfold State.setLink
  split <;> rfl

/-- `link_state` does not touch the PHY. -/
@[simp] theorem linkState_phy (lwip : Lwip ρ) (link : LinkStatus) (s : State ρ) :
    (linkState lwip link s).phy = s.phy := by
  cases link <;> simp [linkState]

/-- A decoded change sets both flags. -/
theorem linkState_flags {lwip : Lwip ρ} (h : SetsFlags lwip) (s : State ρ) :
    (linkState lwip .linkUp s).netif.flags = { s.netif.flags with up := true, linkUp := true } ∧
      (linkState lwip .linkDown s).netif.flags
        = { s.netif.flags with up := false, linkUp := false } := by
  simp [linkState, h.setUp, h.setLinkUp, h.setDown, h.setLinkDown]

/-- A poll that fails to read the PHY does nothing. -/
theorem step_poll_of_ne (lwip : Lwip ρ) (s : State ρ) {status : HalStatus} (h : status ≠ .halOk)
    (other : BitVec 32) : step lwip s (.poll status other) = s := by
  simp only [step, ethphyGetlink_of_ne h, if_neg h, linkState]

/-- A poll that reads the PHY decodes the latches and clears them. -/
theorem step_poll_ok (lwip : Lwip ρ) (s : State ρ) (other : BitVec 32) :
    step lwip s (.poll .halOk other) =
      linkState lwip (if s.phy.rose then .linkUp else if s.phy.fell then .linkDown
        else .linkUnchanged) { s with phy := s.phy.clear } := by
  simp only [step, ethphyGetlink_interruptStatus, if_true]

theorem step_poll_ok_phy (lwip : Lwip ρ) (s : State ρ) (other : BitVec 32) :
    (step lwip s (.poll .halOk other)).phy = s.phy.clear := by
  rw [step_poll_ok, linkState_phy]

/-! ## The flags and the link -/

/-- Both flags agree with the physical link. -/
def Agree (s : State ρ) : Prop :=
  s.netif.flags.up = s.phy.level ∧ s.netif.flags.linkUp = s.phy.level

/-- Both flags hold the level of the link at the last read of the PHY. -/
structure Tracks (s : State ρ) : Prop where
  flags : s.netif.flags.linkUp = s.netif.flags.up
  since : Since s.netif.flags.up s.phy

/-- Flags that agree with the link track it from a read on. -/
theorem tracks_of_agree {s : State ρ} (h : Agree s) (hrose : s.phy.rose = false)
    (hfell : s.phy.fell = false) : Tracks s :=
  ⟨h.2.trans h.1.symm, h.1 ▸ since_of_clear hrose hfell⟩

theorem Tracks.transition (lwip : Lwip ρ) {s : State ρ} (h : Tracks s) :
    Tracks (step lwip s .transition) :=
  ⟨h.flags, h.since.toggle⟩

/-- **Poll.** A read makes the flags agree with the link, unless the link has come up since the last
read and is down. -/
theorem Tracks.agree_iff {lwip : Lwip ρ} (hlwip : SetsFlags lwip) {s : State ρ} (h : Tracks s)
    (other : BitVec 32) :
    Agree (step lwip s (.poll .halOk other)) ↔ (s.phy.rose = true → s.phy.level = true) := by
  have hflags := linkState_flags hlwip { s with phy := s.phy.clear }
  rw [step_poll_ok]
  cases hrose : s.phy.rose with
  | true => simp [Agree, hflags.1]
  | false =>
      cases hfell : s.phy.fell with
      | true => simp [Agree, hflags.2, (h.since.fell hrose hfell).2]
      | false => simp [Agree, linkState, h.flags, h.since.quiet hrose hfell]

/-- At no read of the PHY is the link down after it has come up since the read before. `link` is the
physical link, and `up` tells whether it has come up since the last read. -/
def NoUpThenDown : Bool → Bool → List Event → Prop
  | _, _, [] => True
  | link, up, .transition :: es => NoUpThenDown (!link) (up || !link) es
  | link, up, .poll status _ :: es =>
      if status = .halOk then (up = true → link = true) ∧ NoUpThenDown link false es
      else NoUpThenDown link up es

/-- After a poll that reads the PHY the flags agree with the link. -/
def AgreesAfterPoll (_s : State ρ) (e : Event) (t : State ρ) : Prop :=
  e.reads = true → Agree t

/-- **Run.** While the flags track the link, they agree with it after every poll of a run exactly
when the link does not come up and go down between two polls. -/
theorem Tracks.always_iff {lwip : Lwip ρ} (hlwip : SetsFlags lwip) (es : List Event) :
    ∀ {s : State ρ}, Tracks s →
      (Always (step lwip) AgreesAfterPoll s es ↔ NoUpThenDown s.phy.level s.phy.rose es) := by
  induction es with
  | nil => exact fun _ => Iff.rfl
  | cons e es ih =>
      intro s h
      rw [Always]
      cases e with
      | transition =>
          have hpoll : AgreesAfterPoll s .transition (step lwip s .transition) :=
            Event.of_not_reads rfl
          rw [ih (h.transition lwip), NoUpThenDown]
          exact and_iff_right hpoll
      | poll status other =>
          rw [NoUpThenDown]
          by_cases hstatus : status = .halOk
          · subst hstatus
            rw [if_pos rfl]
            have hagree : AgreesAfterPoll s (.poll .halOk other)
                (step lwip s (.poll .halOk other)) ↔ (s.phy.rose = true → s.phy.level = true) :=
              (forall_prop_of_true rfl).trans (h.agree_iff hlwip other)
            rw [hagree]
            refine and_congr_right fun hlevel => ?_
            -- the poll made the flags agree, so they track the link again
            have htracks : Tracks (step lwip s (.poll .halOk other)) :=
              tracks_of_agree ((h.agree_iff hlwip other).mpr hlevel) (by rw [step_poll_ok_phy]; rfl)
                (by rw [step_poll_ok_phy]; rfl)
            rw [ih htracks, step_poll_ok_phy]
            rfl
          · have hpoll : AgreesAfterPoll s (.poll status other) s :=
              Event.of_not_reads (Event.reads_of_ne hstatus other)
            rw [if_neg hstatus, step_poll_of_ne lwip s hstatus, ih h]
            exact and_iff_right hpoll

/-- **Polling.** From any state in which the latches are clear and both flags agree with the link,
for every sequence of transitions and polls: the flags agree with the link after every poll that
reads the PHY if and only if at no such poll the link is down after having come up since the
previous one. -/
theorem linkState_agrees_iff (lwip : Lwip ρ) (hlwip : SetsFlags lwip) (s : State ρ)
    (hrose : s.phy.rose = false) (hfell : s.phy.fell = false) (hagree : Agree s)
    (es : List Event) :
    Always (step lwip) AgreesAfterPoll s es ↔ NoUpThenDown s.phy.level false es := by
  rw [← hrose]
  exact (tracks_of_agree hagree hrose hfell).always_iff hlwip es

/-- A netif that is down, without a link. -/
def unplugged : State Unit where
  phy := ⟨false, false, false⟩
  netif :=
    { flags := ⟨false, false, true, true⟩
      name := (0x50, 0x76)
      hwaddrLen := 6
      hwaddr := Vector.replicate 6 0
      mtu := 1500
      rest := () }
  gLink := 2

/-- The link comes up and stays up for two polls. -/
theorem linkState_agrees_unplugged :
    Always (step (lwipFlags Unit)) AgreesAfterPoll unplugged
      [.transition, .poll .halOk 0x2000, .poll .halOk 0] :=
  (linkState_agrees_iff (lwipFlags Unit) (lwipFlags_setsFlags Unit) unplugged rfl rfl ⟨rfl, rfl⟩
    _).mpr ⟨fun _ => rfl, fun _ => rfl, trivial⟩

/-- The link comes up and goes down between two polls: the poll takes it for up. -/
theorem linkState_disagrees_unplugged :
    Agree unplugged ∧ unplugged.phy.rose = false ∧ unplugged.phy.fell = false ∧
      ¬ Always (step (lwipFlags Unit)) AgreesAfterPoll unplugged
        [.transition, .transition, .poll .halOk 0] := by
  refine ⟨⟨rfl, rfl⟩, rfl, rfl, fun h => ?_⟩
  have hagree : Agree _ := h.2.2.1 rfl
  exact absurd hagree.1 (by decide)

end Stm32Eth.Link
