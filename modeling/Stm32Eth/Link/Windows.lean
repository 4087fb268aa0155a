import Stm32Eth.Link.Boot

/-!
# What the observers show after any run

The link seen from outside: `Wire` records the levels the link takes between two reads of the PHY,
with no latch, flag or callback. Such a window is what one read learns about: that the link came up
in it, or that it only went down.

After every run from boot, however the cable was at boot and however often the link changed between
two polls, both flags and `g_link` are functions of the windows (`observers_of_run`). A poll leaves
the flags wrong exactly when the last window with a change came up and ended down, or when nothing
has changed and the cable was out at boot (`agree_iff_lastWindow`): the next window that is read
otherwise makes them right again.
-/

namespace Stm32Eth.Link

open EdgeLatch Transition

/-! ## The wire -/

/-- The level of the link, the levels it has taken since the last read of the PHY, and those of the
earlier windows with a change. All lists have the newest first. -/
structure Wire where
  level : Bool
  pending : List Bool
  windows : List (List Bool)
  deriving DecidableEq, Repr

namespace Wire

/-- The wire at boot. -/
def start (link : Bool) : Wire := ⟨link, [], []⟩

/-- The link changes, or a read of the PHY closes a window. -/
def step (w : Wire) : Event → Wire
  | .transition => { w with level := !w.level, pending := (!w.level) :: w.pending }
  | .poll .halOk _ =>
      { w with
        pending := []
        windows := if w.pending = [] then w.windows else w.pending :: w.windows }
  | _ => w

/-- The link came up in the last window with a change. -/
def up (w : Wire) : Bool :=
  match w.windows with
  | [] => true
  | window :: _ => decide (true ∈ window)

/-- There has been a window in which the link only went down. -/
def wentDown (w : Wire) : Bool := w.windows.any fun window => decide (true ∉ window)

/-- The value of `g_link`. -/
def gLink (w : Wire) : ℤ := if w.wentDown then if w.up then 1 else 2 else 0

/-- A failed read closes no window. -/
theorem step_poll_of_ne (w : Wire) {status : HalStatus} (h : status ≠ .halOk) (other : BitVec 32) :
    w.step (.poll status other) = w := by
  cases status with
  | halOk => exact absurd rfl h
  | _ => rfl

/-- A read without a change closes none either. -/
theorem step_poll_nil {w : Wire} (h : w.pending = []) (other : BitVec 32) :
    w.step (.poll .halOk other) = w := by
  obtain ⟨level, pending, windows⟩ := w
  obtain rfl : pending = [] := h
  rfl

theorem step_poll_ok {w : Wire} (h : w.pending ≠ []) (other : BitVec 32) :
    w.step (.poll .halOk other) =
      { w with pending := [], windows := w.pending :: w.windows } := by
  rw [step, if_neg h]

/-- Flags that are clear were cleared in a window in which the link only went down. -/
theorem wentDown_of_up {w : Wire} (h : w.up = false) : w.wentDown = true := by
  rw [up] at h
  rw [wentDown]
  split at h
  · exact absurd h Bool.true_eq_false.mp
  · rename_i window rest hwindows
    rw [hwindows, List.any_cons, Bool.or_eq_true]
    exact .inl (by simpa using h)

/-- The level of the link is the newest of all recorded ones, after the level at boot. -/
structure Recorded (link : Bool) (w : Wire) : Prop where
  level : (w.pending ++ w.windows.flatten).headD link = w.level
  nonempty : ∀ window ∈ w.windows, window ≠ []

/-- **Step.** -/
theorem Recorded.step {link : Bool} {w : Wire} (h : Recorded link w) (e : Event) :
    Recorded link (w.step e) := by
  cases e with
  | transition => exact ⟨rfl, h.nonempty⟩
  | poll status other =>
      by_cases hstatus : status = .halOk
      · subst hstatus
        by_cases hpending : w.pending = []
        · rw [step_poll_nil hpending]
          exact h
        · rw [step_poll_ok hpending]
          exact ⟨h.level, List.forall_mem_cons.mpr ⟨hpending, h.nonempty⟩⟩
      · rw [step_poll_of_ne w hstatus]
        exact h

/-- **Run.** -/
theorem Recorded.run {link : Bool} (es : List Event) :
    ∀ {w : Wire}, Recorded link w → Recorded link (es.foldl Wire.step w) := by
  induction es with
  | nil => exact fun h => h
  | cons e es ih => exact fun h => ih (h.step e)

/-- The last window with a change came up only to stay, or nothing has changed since the link was up
at boot. -/
def Decisive (link : Bool) (w : Wire) : Prop :=
  match w.windows with
  | [] => link = true
  | window :: _ => true ∈ window → window.head? = some true

/-- With nothing pending, the link is as the last window left it. -/
theorem Recorded.up_eq_level_iff {link : Bool} {w : Wire} (h : Recorded link w)
    (hpending : w.pending = []) : w.up = w.level ↔ w.Decisive link := by
  have hlevel := h.level
  rw [hpending, List.nil_append] at hlevel
  cases hwindows : w.windows with
  | nil =>
      rw [hwindows] at hlevel
      simp [up, Decisive, hwindows, ← hlevel, eq_comm]
  | cons window rest =>
      obtain ⟨b, earlier, rfl⟩ : ∃ b earlier, window = b :: earlier :=
        List.exists_cons_of_ne_nil (h.nonempty window (hwindows ▸ List.mem_cons_self))
      rw [hwindows] at hlevel
      have hb : w.level = b := hlevel.symm
      cases b with
      | true => simp [up, Decisive, hwindows, hb]
      | false => simp [up, Decisive, hwindows, hb]

end Wire

/-! ## The observers and the wire -/

variable {ρ : Type*}

/-- The latches tell what is pending, and the flags and `g_link` what the windows were. -/
structure Shows (s : State ρ) (w : Wire) : Prop where
  level : s.phy.level = w.level
  rose : s.phy.rose = decide (true ∈ w.pending)
  fell : s.phy.fell = decide (false ∈ w.pending)
  up : s.netif.flags.up = w.up
  linkUp : s.netif.flags.linkUp = w.up
  gLink : s.gLink = w.gLink

/-- **Step.** The link changes. -/
theorem Shows.transition {lwip : Lwip ρ} {s : State ρ} {w : Wire} (h : Shows s w) :
    Shows (step lwip s .transition) (w.step .transition) := by
  refine ⟨?_, ?_, ?_, h.up, h.linkUp, h.gLink⟩
  · show s.phy.toggle.level = !w.level
    rw [Latch.toggle_level, h.level]
  · show s.phy.toggle.rose = decide (true ∈ (!w.level) :: w.pending)
    rw [Latch.toggle_rose, h.rose, h.level]
    cases w.level <;> simp
  · show s.phy.toggle.fell = decide (false ∈ (!w.level) :: w.pending)
    rw [Latch.toggle_fell, h.fell, h.level]
    cases w.level <;> simp

/-- **Step.** A read of the PHY after the link came up: the callback runs when the flag was clear. -/
theorem Shows.readUp {lwip : Lwip ρ} (hflags : SetsFlags lwip) (hcall : CallsBack lwip)
    {s : State ρ} {w : Wire} (h : Shows s w) (hrose : true ∈ w.pending) (other : BitVec 32) :
    Shows (step lwip s (.poll .halOk other)) (w.step (.poll .halOk other)) := by
  have hup := (linkState_flags hflags { s with phy := s.phy.clear }).1
  have hdown : ({ w with pending := [], windows := w.pending :: w.windows } : Wire).wentDown
      = w.wentDown := by
    simp [Wire.wentDown, hrose]
  have hup' : ({ w with pending := [], windows := w.pending :: w.windows } : Wire).up = true := by
    simp [Wire.up, hrose]
  rw [step_poll_ok, h.rose, if_pos (decide_eq_true hrose),
    Wire.step_poll_ok (List.ne_nil_of_mem hrose)]
  refine ⟨?_, ?_, ?_, ?_, ?_, ?_⟩
  · simpa using h.level
  · simp
  · simp
  · rw [hup, hup']
  · rw [hup, hup']
  · rw [linkState_up_gLink hflags hcall, Wire.gLink, hdown, hup']
    show (if s.netif.flags.linkUp = true then s.gLink else 1) = _
    rw [h.linkUp, h.gLink, Wire.gLink]
    cases hw : w.up with
    | true => simp
    | false =>
        -- clear flags were cleared in some window
        simp [Wire.wentDown_of_up hw]

/-- **Step.** A read of the PHY after the link only went down. -/
theorem Shows.readDown {lwip : Lwip ρ} (hflags : SetsFlags lwip) (hcall : CallsBack lwip)
    {s : State ρ} {w : Wire} (h : Shows s w) (hrose : true ∉ w.pending) (hfell : false ∈ w.pending)
    (other : BitVec 32) :
    Shows (step lwip s (.poll .halOk other)) (w.step (.poll .halOk other)) := by
  have hdown := (linkState_flags hflags { s with phy := s.phy.clear }).2
  have hwent : ({ w with pending := [], windows := w.pending :: w.windows } : Wire).wentDown
      = true := by
    simp [Wire.wentDown, hrose]
  have hup : ({ w with pending := [], windows := w.pending :: w.windows } : Wire).up = false := by
    simp [Wire.up, hrose]
  rw [step_poll_ok, h.rose, h.fell, if_neg (by simpa using hrose), if_pos (decide_eq_true hfell),
    Wire.step_poll_ok (List.ne_nil_of_mem hfell)]
  refine ⟨?_, ?_, ?_, ?_, ?_, ?_⟩
  · simpa using h.level
  · simp
  · simp
  · rw [hdown, hup]
  · rw [hdown, hup]
  · rw [linkState_down_gLink hflags hcall, Wire.gLink, hwent, hup]
    show (if s.netif.flags.linkUp = true then 2 else s.gLink) = _
    rw [h.linkUp, h.gLink, Wire.gLink]
    cases hw : w.up with
    | true => simp
    | false => simp [Wire.wentDown_of_up hw]

/-- **Step.** A poll decodes what is pending. -/
theorem Shows.poll {lwip : Lwip ρ} (hflags : SetsFlags lwip) (hcall : CallsBack lwip) {s : State ρ}
    {w : Wire} (h : Shows s w) (status : HalStatus) (other : BitVec 32) :
    Shows (step lwip s (.poll status other)) (w.step (.poll status other)) := by
  by_cases hstatus : status = .halOk
  · subst hstatus
    by_cases hrose : true ∈ w.pending
    · exact h.readUp hflags hcall hrose other
    · by_cases hfell : false ∈ w.pending
      · exact h.readDown hflags hcall hrose hfell other
      · have hnil : w.pending = [] := by
          refine List.eq_nil_iff_forall_not_mem.mpr fun b => ?_
          cases b with
          | true => exact hrose
          | false => exact hfell
        have hstep : step lwip s (.poll .halOk other) = { s with phy := s.phy.clear } := by
          rw [step_poll_ok, h.rose, h.fell, if_neg (by simpa using hrose),
            if_neg (by simpa using hfell)]
          rfl
        rw [hstep, Wire.step_poll_nil hnil]
        exact ⟨h.level, by simp [hnil], by simp [hnil], h.up, h.linkUp, h.gLink⟩
  · rw [step_poll_of_ne lwip s hstatus, Wire.step_poll_of_ne w hstatus]
    exact h

/-- **Run.** -/
theorem Shows.run {lwip : Lwip ρ} (hflags : SetsFlags lwip) (hcall : CallsBack lwip)
    (es : List Event) : ∀ {s : State ρ} {w : Wire}, Shows s w →
      Shows (es.foldl (step lwip) s) (es.foldl Wire.step w) := by
  induction es with
  | nil => exact fun h => h
  | cons e es ih =>
      intro s w h
      cases e with
      | transition => exact ih h.transition
      | poll status other => exact ih (h.poll hflags hcall status other)

theorem shows_boot {lwip : Lwip ρ} (hflags : SetsFlags lwip) (link : Bool) (n : Netif ρ) :
    Shows (boot lwip link n) (Wire.start link) := by
  obtain ⟨hup, hlinkUp⟩ := boot_flags hflags link n
  exact ⟨rfl, rfl, rfl, hup, hlinkUp, rfl⟩

/-! ## The results -/

/-- **Observers.** After every run from boot both flags say whether the link came up in the last
window with a change (up, before the first), and `g_link` is 0 until a window has been read in which
the link only went down; from then on it is 1 with the flags set and 2 with the flags clear. -/
theorem observers_of_run (lwip : Lwip ρ) (hflags : SetsFlags lwip) (hcall : CallsBack lwip)
    (link : Bool) (n : Netif ρ) (es : List Event) :
    (es.foldl (step lwip) (boot lwip link n)).netif.flags.up
        = (es.foldl Wire.step (Wire.start link)).up ∧
      (es.foldl (step lwip) (boot lwip link n)).netif.flags.linkUp
        = (es.foldl Wire.step (Wire.start link)).up ∧
      (es.foldl (step lwip) (boot lwip link n)).gLink
        = (es.foldl Wire.step (Wire.start link)).gLink := by
  have h := (shows_boot hflags link n).run hflags hcall es
  exact ⟨h.up, h.linkUp, h.gLink⟩

/-- **Recovery.** After every run from boot that ends with a read of the PHY, the flags agree with
the link if and only if the last window with a change did not come up and end down, or nothing has
changed and the cable was in at boot. -/
theorem agree_iff_lastWindow (lwip : Lwip ρ) (hflags : SetsFlags lwip) (hcall : CallsBack lwip)
    (link : Bool) (n : Netif ρ) (es : List Event) (other : BitVec 32) :
    Agree ((es ++ [Event.poll .halOk other]).foldl (Link.step lwip) (boot lwip link n)) ↔
      ((es ++ [Event.poll .halOk other]).foldl Wire.step (Wire.start link)).Decisive link := by
  have h := (shows_boot hflags link n).run hflags hcall (es ++ [Event.poll .halOk other])
  have hrecorded : Wire.Recorded link
      ((es ++ [Event.poll .halOk other]).foldl Wire.step (Wire.start link)) :=
    Wire.Recorded.run _ ⟨rfl, by simp [Wire.start]⟩
  have hpending : ((es ++ [Event.poll .halOk other]).foldl Wire.step (Wire.start link)).pending
      = [] := by
    rw [List.foldl_append]
    rfl
  rw [← hrecorded.up_eq_level_iff hpending, Agree, h.up, h.linkUp, h.level, and_self]

/-- The cable is in at boot and is pulled: the flags are cleared and `g_link` is 2. -/
theorem observers_of_run_pulled :
    (([.transition, .poll .halOk 0] : List Event).foldl (Link.step (lwipFlags Unit))
      (boot (lwipFlags Unit) true addedNetif)).gLink = 2 :=
  (observers_of_run (lwipFlags Unit) (lwipFlags_setsFlags Unit) (lwipFlags_callsBack Unit) true
    addedNetif [.transition, .poll .halOk 0]).2.2

/-- The cable is out at boot, is put in and pulled between two polls, and then put in: the last poll
makes the flags right again. -/
theorem agree_iff_lastWindow_recovers :
    Agree (([Event.transition, .transition, .poll .halOk 0, .transition] ++ [Event.poll .halOk 0]).foldl
        (Link.step (lwipFlags Unit)) (boot (lwipFlags Unit) false addedNetif)) ∧
      ¬ Agree (([Event.transition, .transition] ++ [Event.poll .halOk 0]).foldl
        (Link.step (lwipFlags Unit)) (boot (lwipFlags Unit) false addedNetif)) := by
  constructor
  · refine (agree_iff_lastWindow (lwipFlags Unit) (lwipFlags_setsFlags Unit)
      (lwipFlags_callsBack Unit) false addedNetif _ 0).mpr ?_
    exact fun _ => rfl
  · intro h
    have hdecisive : true ∈ [false, true] → [false, true].head? = some true :=
      (agree_iff_lastWindow (lwipFlags Unit) (lwipFlags_setsFlags Unit) (lwipFlags_callsBack Unit)
        false addedNetif [.transition, .transition] 0).mp h
    exact absurd (hdecisive (by decide)) (by decide)

end Stm32Eth.Link
