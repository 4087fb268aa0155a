import Stm32Eth.Link.State

/-!
# The link from boot on

`init_task` adds the interface, whose `low_level_init` sets `NETIF_FLAG_LINK_UP` whatever the link
is, and brings it up. When the cable is in at boot, the PHY, both flags and `g_link` agree with the
link from then on, as long as the link changes at most once between two polls. When it is out, the
flags say up at the first poll, or the first rising edge finds `NETIF_FLAG_LINK_UP` set and invokes
no callback (`observers_agree_iff`).
-/

namespace Stm32Eth.Link

open EdgeLatch Transition

variable {ρ : Type*}

/-! ## Boot -/

/-- `low_level_init`, as far as it concerns the netif. -/
def lowLevelInit (n : Netif ρ) : Netif ρ :=
  let n := { n with flags := { n.flags with linkUp := true } }
  let n := { n with
    hwaddrLen := 6
    hwaddr := #v[0x02, 0x80, 0xE1, 0x04, 0x05, 0x06]
    mtu := 1500 }
  { n with flags := { n.flags with broadcast := true, etharp := true } }

/-- `ethernetif_init`, as far as it concerns the netif. -/
def ethernetifInit (n : Netif ρ) : Netif ρ :=
  -- the letters `P` and `v`
  lowLevelInit { n with name := (0x50, 0x76) }

/-- The branch of `init_task` that brings the interface up or down. -/
def bringUp (lwip : Lwip ρ) (n : Netif ρ) : Netif ρ :=
  if n.flags.linkUp then lwip.netifSetUp n else lwip.netifSetDown n

/-- The state `init_task` leaves to `link_state`, with the physical link `link`. -/
def boot (lwip : Lwip ρ) (link : Bool) (n : Netif ρ) : State ρ where
  phy := ⟨link, false, false⟩
  netif := bringUp lwip (ethernetifInit n)
  gLink := 0

/-- After boot both flags are set, whatever the link is. -/
theorem boot_flags {lwip : Lwip ρ} (h : SetsFlags lwip) (link : Bool) (n : Netif ρ) :
    (boot lwip link n).netif.flags.up = true ∧ (boot lwip link n).netif.flags.linkUp = true := by
  simp [boot, bringUp, ethernetifInit, lowLevelInit, h.setUp]

/-! ## `g_link` -/

/-- A link that comes up invokes the callback, unless the flag was set before. -/
theorem linkState_up_gLink {lwip : Lwip ρ} (hflags : SetsFlags lwip) (hcall : CallsBack lwip)
    (s : State ρ) : (linkState lwip .linkUp s).gLink =
      if s.netif.flags.linkUp then s.gLink else 1 := by
  have hkeep : (lwip.netifSetUp s.netif).flags.linkUp = s.netif.flags.linkUp := by
    rw [hflags.setUp]
  cases hlink : s.netif.flags.linkUp with
  | true => simp [linkState, State.setLink, hcall.linkUp_unchanged _ (hkeep.trans hlink)]
  | false =>
      obtain ⟨m, hm, hup⟩ := hcall.linkUp_changed _ (hkeep.trans hlink)
      simp [linkState, State.setLink, hm, ethernetLinkUpdated, hup, hflags.setUp]

/-- A link that goes down invokes the callback, if the flag was set before. -/
theorem linkState_down_gLink {lwip : Lwip ρ} (hflags : SetsFlags lwip) (hcall : CallsBack lwip)
    (s : State ρ) : (linkState lwip .linkDown s).gLink =
      if s.netif.flags.linkUp then 2 else s.gLink := by
  have hkeep : (lwip.netifSetDown s.netif).flags.linkUp = s.netif.flags.linkUp := by
    rw [hflags.setDown]
  cases hlink : s.netif.flags.linkUp with
  | true =>
      obtain ⟨m, hm, hup⟩ := hcall.linkDown_changed _ (hkeep.trans hlink)
      simp [linkState, State.setLink, hm, ethernetLinkUpdated, hup, hflags.setDown]
  | false => simp [linkState, State.setLink, hcall.linkDown_unchanged _ (hkeep.trans hlink)]

/-! ## Runs -/

/-- A state, and whether a poll has read a transition so far. -/
structure Watched (ρ : Type*) where
  state : State ρ
  seen : Bool

/-- A step that also notes whether a poll has read a transition. -/
def watch (lwip : Lwip ρ) (w : Watched ρ) (e : Event) : Watched ρ where
  state := step lwip w.state e
  seen := w.seen || (e.reads && (w.state.phy.rose || w.state.phy.fell))

@[simp] theorem watch_state (lwip : Lwip ρ) (w : Watched ρ) (e : Event) :
    (watch lwip w e).state = step lwip w.state e := rfl

theorem watch_poll_of_ne (lwip : Lwip ρ) (w : Watched ρ) {status : HalStatus}
    (h : status ≠ .halOk) (other : BitVec 32) : watch lwip w (.poll status other) = w := by
  simp [watch, step_poll_of_ne lwip w.state h, Event.reads_of_ne h]

/-- Both flags agree with the link, and once a transition has been read so does `g_link`: 1 when
the link is up and 2 when it is down. -/
def ObserversAgree (w : Watched ρ) : Prop :=
  Agree w.state ∧ (w.seen = true → w.state.gLink = if w.state.phy.level then 1 else 2)

/-- After a poll that reads the PHY all observers agree with the link. -/
def ObserversAgreeAfterPoll (_w : Watched ρ) (e : Event) (w' : Watched ρ) : Prop :=
  e.reads = true → ObserversAgree w'

/-- At most one transition lies between two polls that read the PHY, and before the first. `moved`
tells whether there has been one since the last. -/
def Paced : Bool → List Event → Prop
  | _, [] => True
  | moved, .transition :: es => moved = false ∧ Paced true es
  | moved, .poll status _ :: es => if status = .halOk then Paced false es else Paced moved es

/-- What a paced run keeps while the observers agree: the flags track the link, `g_link` agrees with
them once a transition has been read, and at most one latch is set. -/
structure PacedInv (moved : Bool) (w : Watched ρ) : Prop where
  tracks : Tracks w.state
  gLink : w.seen = true → w.state.gLink = if w.state.netif.flags.up then 1 else 2
  still : moved = false → w.state.phy.rose = false ∧ w.state.phy.fell = false
  once : w.state.phy.rose = true → w.state.phy.fell = false

/-- **Step.** A transition after a read, while none has happened since. -/
theorem PacedInv.transition {lwip : Lwip ρ} {w : Watched ρ} (h : PacedInv false w) :
    PacedInv true (watch lwip w .transition) := by
  obtain ⟨hrose, hfell⟩ := h.still rfl
  refine ⟨h.tracks.transition lwip, ?_, fun hmoved => absurd hmoved (by decide), ?_⟩
  · simpa [watch, Event.reads, step] using h.gLink
  · simp only [watch, step, Latch.toggle_rose, Latch.toggle_fell, hrose, hfell]
    cases w.state.phy.level <;> simp

/-- **Step.** A read of the PHY decodes the one latch that may be set, and the observers agree. -/
theorem PacedInv.read {lwip : Lwip ρ} (hflags : SetsFlags lwip) (hcall : CallsBack lwip)
    {moved : Bool} {w : Watched ρ} (h : PacedInv moved w) (other : BitVec 32) :
    ObserversAgree (watch lwip w (.poll .halOk other)) ∧
      PacedInv false (watch lwip w (.poll .halOk other)) := by
  have hlevel : w.state.phy.rose = true → w.state.phy.level = true := fun hrose =>
    (h.tracks.since.rose hrose (h.once hrose)).2
  have hagree := (h.tracks.agree_iff hflags other).mpr hlevel
  have hgLink : (w.seen || (w.state.phy.rose || w.state.phy.fell)) = true →
      (step lwip w.state (.poll .halOk other)).gLink =
        if w.state.phy.level then 1 else 2 := by
    intro hseen
    rw [step_poll_ok]
    cases hrose : w.state.phy.rose with
    | true =>
        -- the link came up: its flag was clear, so the callback runs
        obtain ⟨hup, hlink⟩ := h.tracks.since.rose hrose (h.once hrose)
        simp [linkState_up_gLink hflags hcall, h.tracks.flags, hup, hlink]
    | false =>
        cases hfell : w.state.phy.fell with
        | true =>
            obtain ⟨hup, hlink⟩ := h.tracks.since.fell hrose hfell
            simp [linkState_down_gLink hflags hcall, h.tracks.flags, hup, hlink]
        | false =>
            rw [hrose, hfell, Bool.or_false, Bool.or_false] at hseen
            simp [linkState, h.gLink hseen, h.tracks.since.quiet hrose hfell]
  have hobservers : ObserversAgree (watch lwip w (.poll .halOk other)) := by
    refine ⟨hagree, fun hseen => ?_⟩
    have hread := hgLink (by simpa [watch, Event.reads] using hseen)
    rw [watch_state, hread, step_poll_ok_phy, Latch.clear_level]
  have hclear : (watch lwip w (.poll .halOk other)).state.phy.rose = false ∧
      (watch lwip w (.poll .halOk other)).state.phy.fell = false := by
    rw [watch_state, step_poll_ok_phy]
    exact ⟨rfl, rfl⟩
  refine ⟨hobservers, tracks_of_agree hagree hclear.1 hclear.2, ?_, fun _ => hclear,
    fun _ => hclear.2⟩
  intro hseen
  rw [hobservers.2 hseen, watch_state, hagree.1]

/-- **Run.** Along a paced run the observers keep agreeing. -/
theorem PacedInv.always {lwip : Lwip ρ} (hflags : SetsFlags lwip) (hcall : CallsBack lwip)
    (es : List Event) : ∀ {moved : Bool} {w : Watched ρ}, PacedInv moved w → Paced moved es →
      Always (watch lwip) ObserversAgreeAfterPoll w es := by
  induction es with
  | nil => exact fun _ _ => trivial
  | cons e es ih =>
      intro moved w h hpaced
      cases e with
      | transition =>
          obtain ⟨rfl, hpaced⟩ := hpaced
          exact ⟨Event.of_not_reads rfl, ih h.transition hpaced⟩
      | poll status other =>
          rw [Paced] at hpaced
          by_cases hstatus : status = .halOk
          · subst hstatus
            rw [if_pos rfl] at hpaced
            obtain ⟨hobservers, hinv⟩ := h.read hflags hcall other
            exact ⟨fun _ => hobservers, ih hinv hpaced⟩
          · rw [if_neg hstatus] at hpaced
            rw [Always, watch_poll_of_ne lwip w hstatus]
            exact ⟨Event.of_not_reads (Event.reads_of_ne hstatus other), ih h hpaced⟩

/-! ## A cable that is out at boot -/

/-- What a paced run keeps before its first read of the PHY when the cable was out at boot: both
flags are set, nothing has been noted, and the link is up if it has changed. -/
structure Blind (moved : Bool) (w : Watched ρ) : Prop where
  up : w.state.netif.flags.up = true
  linkUp : w.state.netif.flags.linkUp = true
  gLink : w.state.gLink = 0
  seen : w.seen = false
  phy : w.state.phy = ⟨moved, moved, false⟩

/-- **Step.** The cable is put in. -/
theorem Blind.transition {lwip : Lwip ρ} {w : Watched ρ} (h : Blind false w) :
    Blind true (watch lwip w .transition) := by
  refine ⟨h.up, h.linkUp, h.gLink, ?_, ?_⟩
  · simp [watch, Event.reads, h.seen]
  · simp [step, h.phy, Latch.toggle]

/-- **Step.** The first read of the PHY finds flags that say up for a cable that is out, or a rising
edge that invokes no callback. -/
theorem Blind.read {lwip : Lwip ρ} (hflags : SetsFlags lwip) (hcall : CallsBack lwip) {moved : Bool}
    {w : Watched ρ} (h : Blind moved w) (other : BitVec 32) :
    ¬ ObserversAgree (watch lwip w (.poll .halOk other)) := by
  rintro ⟨hagree, hgLink⟩
  rw [watch_state, step_poll_ok] at hagree hgLink
  cases moved with
  | false =>
      have hup := hagree.1
      simp [h.phy, linkState, h.up] at hup
  | true =>
      have hseen : (watch lwip w (.poll .halOk other)).seen = true := by
        simp [watch, Event.reads, h.phy]
      have hone := hgLink hseen
      simp [h.phy, linkState_up_gLink hflags hcall, h.linkUp, h.gLink] at hone

/-- **Run.** Such a run has no read of the PHY if the observers agree along it. -/
theorem Blind.not_reads {lwip : Lwip ρ} (hflags : SetsFlags lwip) (hcall : CallsBack lwip)
    (es : List Event) : ∀ {moved : Bool} {w : Watched ρ}, Blind moved w → Paced moved es →
      Always (watch lwip) ObserversAgreeAfterPoll w es → ∀ e ∈ es, e.reads = false := by
  induction es with
  | nil => simp
  | cons e es ih =>
      intro moved w h hpaced halways
      obtain ⟨hfirst, hrest⟩ := halways
      rw [List.forall_mem_cons]
      cases e with
      | transition =>
          obtain ⟨rfl, hpaced⟩ := hpaced
          exact ⟨rfl, ih h.transition hpaced hrest⟩
      | poll status other =>
          rw [Paced] at hpaced
          by_cases hstatus : status = .halOk
          · subst hstatus
            exact absurd (hfirst rfl) (h.read hflags hcall other)
          · rw [if_neg hstatus] at hpaced
            rw [watch_poll_of_ne lwip w hstatus] at hrest
            exact ⟨Event.reads_of_ne hstatus other, ih h hpaced hrest⟩

/-- A run that never reads the PHY promises nothing. -/
theorem always_of_not_reads (lwip : Lwip ρ) (es : List Event) :
    ∀ {w : Watched ρ}, (∀ e ∈ es, e.reads = false) →
      Always (watch lwip) ObserversAgreeAfterPoll w es := by
  induction es with
  | nil => exact fun _ => trivial
  | cons e es ih =>
      intro w h
      rw [List.forall_mem_cons] at h
      exact ⟨Event.of_not_reads h.1, ih h.2⟩

/-! ## The result -/

/-- **From boot on.** Let at most one transition lie between two polls that read the PHY, and before
the first. After every such poll both flags agree with the link, and `g_link` does once a transition
has been read, if and only if the cable is in at boot or no poll reads the PHY. -/
theorem observers_agree_iff (lwip : Lwip ρ) (hflags : SetsFlags lwip) (hcall : CallsBack lwip)
    (link : Bool) (n : Netif ρ) (es : List Event) (hpaced : Paced false es) :
    Always (watch lwip) ObserversAgreeAfterPoll ⟨boot lwip link n, false⟩ es ↔
      link = true ∨ ∀ e ∈ es, e.reads = false := by
  obtain ⟨hup, hlinkUp⟩ := boot_flags hflags link n
  constructor
  · intro halways
    cases link with
    | true => exact .inl rfl
    | false =>
        have hblind : Blind false (⟨boot lwip false n, false⟩ : Watched ρ) :=
          ⟨hup, hlinkUp, rfl, rfl, rfl⟩
        exact .inr (hblind.not_reads hflags hcall es hpaced halways)
  · rintro (rfl | hreads)
    · have hinv : PacedInv false (⟨boot lwip true n, false⟩ : Watched ρ) :=
        ⟨tracks_of_agree ⟨hup, hlinkUp⟩ rfl rfl, fun hseen => absurd hseen Bool.false_ne_true,
          fun _ => ⟨rfl, rfl⟩, fun _ => rfl⟩
      exact hinv.always hflags hcall es hpaced
    · exact always_of_not_reads lwip es hreads

/-- The netif of `netif_add` before `ethernetif_init`. -/
def addedNetif : Netif Unit where
  flags := ⟨false, false, false, false⟩
  name := (0, 0)
  hwaddrLen := 0
  hwaddr := Vector.replicate 6 0
  mtu := 0
  rest := ()

/-- The cable is in at boot, is pulled and put in again. -/
theorem observers_agree_plugged :
    Always (watch (lwipFlags Unit)) ObserversAgreeAfterPoll
      ⟨boot (lwipFlags Unit) true addedNetif, false⟩
      [.poll .halOk 0, .transition, .poll .halOk 0, .poll .halTimeout 0, .transition,
        .poll .halOk 0] := by
  refine (observers_agree_iff (lwipFlags Unit) (lwipFlags_setsFlags Unit)
    (lwipFlags_callsBack Unit) true addedNetif _ ?_).mpr (.inl rfl)
  exact ⟨rfl, rfl, trivial⟩

/-- The cable is out at boot: the first poll leaves both flags up, and when the cable is put in
before it, `g_link` stays 0. -/
theorem observers_disagree_unplugged :
    ¬ Always (watch (lwipFlags Unit)) ObserversAgreeAfterPoll
        ⟨boot (lwipFlags Unit) false addedNetif, false⟩ [.poll .halOk 0] ∧
      ¬ Always (watch (lwipFlags Unit)) ObserversAgreeAfterPoll
        ⟨boot (lwipFlags Unit) false addedNetif, false⟩ [.transition, .poll .halOk 0] := by
  constructor
  · intro h
    have hobservers : ObserversAgree _ := h.1 rfl
    exact absurd hobservers.1.1 (by decide)
  · intro h
    have hobservers : ObserversAgree _ := h.2.1 rfl
    exact absurd (hobservers.2 (by decide)) (by decide)

end Stm32Eth.Link
