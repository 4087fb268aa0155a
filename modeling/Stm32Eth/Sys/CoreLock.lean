import Stm32Eth.Lib.Transition
import Stm32Eth.Sys.Kernel
import Mathlib.Data.BitVec
import Mathlib.Logic.Function.Basic

/-!
# The core lock of lwIP

`sys_lock_tcpip_core`, `sys_unlock_tcpip_core` and `sys_check_core_locking` of `sys_arch.c`, in any
number of threads and in any interleaving of their statements, as they are compiled with
`LWIP_FREERTOS_CHECK_CORE_LOCKING`. Threads lock and unlock in pairs, nested as they like.

The holder and the count are kept in two variables beside the mutex, and a check reads them without
the lock. `Inv` says what they hold at every point of the two functions. The count has eight bits:
with a multiple of 256 locks it is zero, and a check complains. As long as no thread nests more than
255 locks (`ExactInv`) a check complains exactly when its thread does not hold the lock
(`checks_exact`).
-/

namespace Stm32Eth.Sys

open Transition

/-! ## The machine -/

/-- Where a thread is in the functions of the core lock: about to execute a statement. -/
inductive CorePc
  /-- in none of them -/
  | outside
  /-- `sys_mutex_lock(&lock_tcpip_core)` -/
  | lockTake
  /-- `if (lwip_core_lock_count == 0)` -/
  | lockTest
  /-- `lwip_core_lock_holder_thread = xTaskGetCurrentTaskHandle()` -/
  | lockMark
  /-- `lwip_core_lock_count++` -/
  | lockCount
  /-- `lwip_core_lock_count--` -/
  | unlockCount
  /-- `if (lwip_core_lock_count == 0)` -/
  | unlockTest
  /-- `lwip_core_lock_holder_thread = 0` -/
  | unlockMark
  /-- `sys_mutex_unlock(&lock_tcpip_core)` -/
  | unlockGive
  /-- `if (lwip_tcpip_thread != 0)` -/
  | checkThread
  /-- `current_thread == lwip_core_lock_holder_thread` -/
  | checkHolder
  /-- `lwip_core_lock_count > 0` -/
  | checkCount
  deriving DecidableEq, Repr

/-- A finished `sys_check_core_locking`: its thread, how many locks that held, whether it saw the
`TCP/IP` thread marked, and what it printed. -/
structure Check (T : Type*) where
  thread : T
  nest : ℕ
  marked : Bool
  printed : List String

/-- The variables of the core lock, where each thread is, how many locks it holds, the finished
checks, and what the lock functions printed. -/
structure Core (T : Type*) (mutex : RecursiveMutex T) where
  lockTcpipCore : mutex.Carrier
  lwipCoreLockCount : BitVec 8
  lwipCoreLockHolderThread : Option T
  lwipTcpipThread : Option T
  pc : T → CorePc
  nest : T → ℕ
  checks : List (Check T)
  printed : List String

/-- The steps, by what happens. -/
inductive CoreEvent (T : Type*)
  | lock (t : T)
  | unlock (t : T)
  | check (t : T)
  | markTcpipThread (t : T)
  | statement (t : T)

section

variable {T : Type*} [DecidableEq T] {mutex : RecursiveMutex T}

/-- A thread goes on. -/
def Core.goto (s : Core T mutex) (t : T) (pc : CorePc) : Core T mutex :=
  { s with pc := Function.update s.pc t pc }

/-- The end of `sys_check_core_locking`. -/
def Core.checked (s : Core T mutex) (t : T) (marked : Bool) (printed : List String) :
    Core T mutex :=
  { s.goto t .outside with checks := s.checks ++ [⟨t, s.nest t, marked, printed⟩] }

/-- The steps of the threads. -/
inductive CoreStep : Core T mutex → CoreEvent T → Core T mutex → Prop
  /-- A thread calls `sys_lock_tcpip_core`. -/
  | lock {s : Core T mutex} (t : T) (outside : s.pc t = .outside) :
      CoreStep s (.lock t) (s.goto t .lockTake)
  /-- A thread that holds the lock calls `sys_unlock_tcpip_core`. -/
  | unlock {s : Core T mutex} (t : T) (outside : s.pc t = .outside) (held : 0 < s.nest t) :
      CoreStep s (.unlock t)
        { s.goto t .unlockCount with nest := Function.update s.nest t (s.nest t - 1) }
  /-- A thread calls `sys_check_core_locking`. -/
  | check {s : Core T mutex} (t : T) (outside : s.pc t = .outside) :
      CoreStep s (.check t) (s.goto t .checkThread)
  /-- A thread calls `sys_mark_tcpip_thread`. -/
  | markTcpipThread {s : Core T mutex} (t : T) (outside : s.pc t = .outside) :
      CoreStep s (.markTcpipThread t) { s with lwipTcpipThread := some t }
  | lockTake {s : Core T mutex} {m : mutex.Carrier} (t : T) (pc : s.pc t = .lockTake)
      (take : mutex.take t s.lockTcpipCore = some m) :
      CoreStep s (.statement t) { s.goto t .lockTest with lockTcpipCore := m }
  | lockTest {s : Core T mutex} (t : T) (pc : s.pc t = .lockTest) :
      CoreStep s (.statement t)
        (s.goto t (if s.lwipCoreLockCount = 0 then .lockMark else .lockCount))
  | lockMark {s : Core T mutex} (t : T) (pc : s.pc t = .lockMark) :
      CoreStep s (.statement t) { s.goto t .lockCount with lwipCoreLockHolderThread := some t }
  | lockCount {s : Core T mutex} (t : T) (pc : s.pc t = .lockCount) :
      CoreStep s (.statement t)
        { s.goto t .outside with
          lwipCoreLockCount := s.lwipCoreLockCount + 1
          nest := Function.update s.nest t (s.nest t + 1) }
  | unlockCount {s : Core T mutex} (t : T) (pc : s.pc t = .unlockCount) :
      CoreStep s (.statement t)
        { s.goto t .unlockTest with lwipCoreLockCount := s.lwipCoreLockCount - 1 }
  | unlockTest {s : Core T mutex} (t : T) (pc : s.pc t = .unlockTest) :
      CoreStep s (.statement t)
        (s.goto t (if s.lwipCoreLockCount = 0 then .unlockMark else .unlockGive))
  | unlockMark {s : Core T mutex} (t : T) (pc : s.pc t = .unlockMark) :
      CoreStep s (.statement t) { s.goto t .unlockGive with lwipCoreLockHolderThread := none }
  | unlockGive {s : Core T mutex} (t : T) (pc : s.pc t = .unlockGive) :
      CoreStep s (.statement t)
        { s.goto t .outside with
          lockTcpipCore := (mutex.give t s.lockTcpipCore).2
          printed := s.printed ++
            lwipAssert "failed to give the mutex" (mutex.give t s.lockTcpipCore).1 }
  | checkThread {s : Core T mutex} (t : T) (pc : s.pc t = .checkThread) :
      CoreStep s (.statement t)
        (if s.lwipTcpipThread = none then s.checked t false [] else s.goto t .checkHolder)
  | checkHolder {s : Core T mutex} (t : T) (pc : s.pc t = .checkHolder) :
      CoreStep s (.statement t)
        (if s.lwipCoreLockHolderThread = some t then s.goto t .checkCount
        else s.checked t true (lwipAssert "Function called without core lock" false))
  | checkCount {s : Core T mutex} (t : T) (pc : s.pc t = .checkCount) :
      CoreStep s (.statement t)
        (s.checked t true
          (lwipAssert "Function called without core lock" (0 < s.lwipCoreLockCount)))

/-- The threads, from the free lock. -/
def coreSystem (T : Type*) [DecidableEq T] (mutex : RecursiveMutex T) :
    System (Core T mutex) (CoreEvent T) where
  init s := mutex.owner s.lockTcpipCore = none ∧ s.lwipCoreLockCount = 0 ∧
    s.lwipCoreLockHolderThread = none ∧ (∀ t, s.pc t = .outside) ∧ (∀ t, s.nest t = 0) ∧
    s.checks = [] ∧ s.printed = []
  step := CoreStep

/-! ## What the variables hold -/

/-- How often a thread has taken the mutex beyond the locks it holds. -/
def CorePc.inside : CorePc → ℕ
  | .lockTest | .lockMark | .lockCount | .unlockCount | .unlockTest | .unlockMark
  | .unlockGive => 1
  | _ => 0

/-- A thread that has set the holder and not cleared it yet, whatever it holds. -/
def CorePc.marked : CorePc → Bool
  | .lockCount | .unlockCount | .unlockTest | .unlockMark => true
  | _ => false

/-- A thread whose lock is still counted although it does not hold it any more. -/
def CorePc.counted : CorePc → ℕ
  | .unlockCount => 1
  | _ => 0

/-- How often a thread has taken the mutex. -/
def Core.taken (s : Core T mutex) (t : T) : ℕ := s.nest t + (s.pc t).inside

/-- What holds in every reachable state, however many locks are nested: the count holds the last
eight bits of the number of locks, the holder is a thread that holds a lock or is about to, and a
check that finds a multiple of 256 locks complains. -/
structure Inv (s : Core T mutex) : Prop where
  held : mutex.Held s.lockTcpipCore s.taken
  count : ∀ t, 0 < s.taken t →
    s.lwipCoreLockCount = BitVec.ofNat 8 (s.nest t + (s.pc t).counted)
  free : (∀ t, s.taken t = 0) → s.lwipCoreLockCount = 0
  holder : ∀ t, s.lwipCoreLockHolderThread = some t → 0 < s.nest t ∨ (s.pc t).marked = true
  checking : ∀ t, s.pc t = .checkCount → 0 < s.nest t
  checks : ∀ c ∈ s.checks, c.marked = true → 256 ∣ c.nest →
    c.printed = ["Function called without core lock"]
  printed : s.printed = []

/-- What a check must print. -/
def Check.Exact (c : Check T) : Prop :=
  c.printed = if c.marked = true ∧ c.nest = 0 then ["Function called without core lock"] else []

/-- A lock is taken only by a thread that holds fewer than 255. -/
def Nesting (s : Core T mutex) : CoreEvent T → Prop
  | .lock t => s.nest t < 255
  | _ => True

/-- How many locks a thread holds at each point, when it never nests more than 255. -/
def CorePc.Holds (n : ℕ) : CorePc → Prop
  | .lockTake | .lockTest | .lockMark | .lockCount => n < 255
  | .unlockMark => n = 0
  | _ => n ≤ 255

/-- What holds besides while no thread nests more than 255 locks: a thread that holds a lock is the
holder, and checks are exact. -/
structure ExactInv (s : Core T mutex) : Prop where
  holder : ∀ t, 0 < s.nest t ∨ (s.pc t).marked = true → s.lwipCoreLockHolderThread = some t
  holds : ∀ t, (s.pc t).Holds (s.nest t)
  checks : ∀ c ∈ s.checks, c.Exact

/-- Only a thread that is inside has marked itself or left a lock counted. -/
theorem CorePc.outside_of_inside {pc : CorePc} (h : pc.inside = 0) :
    pc.marked = false ∧ pc.counted = 0 := by
  cases pc <;> first | exact ⟨rfl, rfl⟩ | exact absurd h (by decide)

omit [DecidableEq T] in
/-- A thread that holds a lock or has set the holder has taken the mutex. -/
theorem Core.taken_pos {s : Core T mutex} {t : T}
    (h : 0 < s.nest t ∨ (s.pc t).marked = true) : 0 < s.taken t := by
  rw [Core.taken]
  rcases h with hnest | hmarked
  · exact Nat.add_pos_left hnest _
  · apply Nat.add_pos_right
    apply Nat.pos_of_ne_zero
    intro hzero
    rw [(CorePc.outside_of_inside hzero).1] at hmarked
    exact absurd hmarked (by simp)

omit [DecidableEq T] in
/-- So has a thread that is inside. -/
theorem Core.taken_pos_of_inside {s : Core T mutex} {t : T} {pc : CorePc} (hpc : s.pc t = pc)
    (hinside : 0 < pc.inside) : 0 < s.taken t := by
  rw [Core.taken, hpc]
  exact Nat.add_pos_right _ hinside

/-! ## One step -/

omit [DecidableEq T] in
/-- Other threads have taken the mutex as often as before a step of `t`. -/
theorem Core.taken_of_ne {s s' : Core T mutex} {t : T}
    (hother : ∀ u, u ≠ t → s'.pc u = s.pc u ∧ s'.nest u = s.nest u) {u : T} (hu : u ≠ t) :
    s'.taken u = s.taken u := by
  rw [Core.taken, Core.taken, (hother u hu).1, (hother u hu).2]

namespace Inv

variable {s s' : Core T mutex} {t : T}

omit [DecidableEq T] in
/-- **Frame.** A step of `t`: only a thread that has taken the mutex writes the count. -/
theorem update (h : Inv s) (hother : ∀ u, u ≠ t → s'.pc u = s.pc u ∧ s'.nest u = s.nest u)
    (hheld : mutex.Held s'.lockTcpipCore s'.taken)
    (hcount : 0 < s.taken t ∨ 0 < s'.taken t →
      s'.lwipCoreLockCount = BitVec.ofNat 8 (s'.nest t + (s'.pc t).counted))
    (hfree : s.taken t = 0 → s'.lwipCoreLockCount = s.lwipCoreLockCount)
    (hholder : s'.lwipCoreLockHolderThread = some t → 0 < s'.nest t ∨ (s'.pc t).marked = true)
    (hholder' : ∀ u, u ≠ t → s'.lwipCoreLockHolderThread = some u →
      s.lwipCoreLockHolderThread = some u)
    (hchecking : s'.pc t = .checkCount → 0 < s'.nest t)
    (hchecks : ∀ c ∈ s'.checks, c.marked = true → 256 ∣ c.nest →
      c.printed = ["Function called without core lock"]) (hprinted : s'.printed = []) :
    Inv s' := by
  refine ⟨hheld, fun u hu => ?_, fun hzero => ?_, fun u hu => ?_, fun u hu => ?_, hchecks, hprinted⟩
  · by_cases hut : u = t
    · rw [hut] at hu ⊢
      exact hcount (.inr hu)
    · rw [Core.taken_of_ne hother hut] at hu
      rw [hfree (h.held.eq_zero hu (Ne.symm hut)), (hother u hut).1, (hother u hut).2]
      exact h.count u hu
  · by_cases htaken : s.taken t = 0
    · rw [hfree htaken]
      refine h.free fun u => ?_
      by_cases hut : u = t
      · rw [hut]
        exact htaken
      · rw [← Core.taken_of_ne hother hut]
        exact hzero u
    · obtain ⟨hnest, hinside⟩ : s'.nest t = 0 ∧ (s'.pc t).inside = 0 :=
        Nat.add_eq_zero_iff.mp (hzero t)
      rw [hcount (.inl (Nat.pos_of_ne_zero htaken)), hnest,
        (CorePc.outside_of_inside hinside).2]
      rfl
  · by_cases hut : u = t
    · rw [hut] at hu ⊢
      exact hholder hu
    · rw [(hother u hut).1, (hother u hut).2]
      exact h.holder u (hholder' u hut hu)
  · by_cases hut : u = t
    · rw [hut] at hu ⊢
      exact hchecking hu
    · rw [(hother u hut).1] at hu
      rw [(hother u hut).2]
      exact h.checking u hu

omit [DecidableEq T] in
/-- The thread that has taken the mutex executes a statement that leaves the mutex alone. -/
theorem inside (h : Inv s) (htaken : 0 < s.taken t) (hmutex : s'.lockTcpipCore = s.lockTcpipCore)
    (hother : ∀ u, u ≠ t → s'.pc u = s.pc u ∧ s'.nest u = s.nest u)
    (htaken' : s'.taken t = s.taken t)
    (hcount : s'.lwipCoreLockCount = BitVec.ofNat 8 (s'.nest t + (s'.pc t).counted))
    (hholder : s'.lwipCoreLockHolderThread = some t → 0 < s'.nest t ∨ (s'.pc t).marked = true)
    (hholder' : ∀ u, u ≠ t → s'.lwipCoreLockHolderThread = some u →
      s.lwipCoreLockHolderThread = some u)
    (hpc : s'.pc t ≠ .checkCount) (hchecks : s'.checks = s.checks)
    (hprinted : s'.printed = s.printed) : Inv s' := by
  refine h.update hother ?_ (fun _ => hcount) (fun hzero => absurd hzero htaken.ne') hholder
    hholder' (fun hcheck => absurd hcheck hpc) (hchecks ▸ h.checks) (hprinted.trans h.printed)
  have hsame : s'.taken = s.taken := by
    funext u
    by_cases hu : u = t
    · rw [hu, htaken']
    · exact Core.taken_of_ne hother hu
  rw [hmutex, hsame]
  exact h.held

omit [DecidableEq T] in
/-- The count a thread that has taken the mutex sees. -/
theorem count_eq (h : Inv s) (hcounted : (s.pc t).counted = 0) (htaken : 0 < s.taken t) :
    s.lwipCoreLockCount = BitVec.ofNat 8 (s.nest t) := by
  rw [h.count t htaken, hcounted, Nat.add_zero]

/-- A step of `t` that only moves it. -/
theorem goto (h : Inv s) {pc pc' : CorePc} (hpc : s.pc t = pc) (hinside : pc'.inside = pc.inside)
    (hcounted : pc'.counted = pc.counted)
    (hholder : s.lwipCoreLockHolderThread = some t → 0 < s.nest t ∨ pc'.marked = true)
    (hchecking : pc' = .checkCount → 0 < s.nest t) : Inv (s.goto t pc') := by
  subst hpc
  have htaken : (s.goto t pc').taken = s.taken := by
    funext u
    by_cases hu : u = t
    · simp [hu, Core.taken, Core.goto, hinside]
    · simp [Core.taken, Core.goto, Function.update_of_ne hu]
  have hself : (s.goto t pc').pc t = pc' := Function.update_self ..
  refine h.update (t := t) (fun u hu => ⟨Function.update_of_ne hu _ _, rfl⟩) (htaken ▸ h.held) ?_
    (fun _ => rfl) ?_ (fun _ _ => id) ?_ h.checks h.printed
  · rw [htaken, or_self, hself, hcounted]
    exact h.count t
  · rw [hself]
    exact hholder
  · rw [hself]
    exact hchecking

/-- The end of a check. -/
theorem checked (h : Inv s) {pc : CorePc} {marked : Bool} {printed : List String}
    (hpc : s.pc t = pc) (hinside : pc.inside = 0)
    (hexact : marked = true → 256 ∣ s.nest t → printed = ["Function called without core lock"]) :
    Inv (s.checked t marked printed) := by
  obtain ⟨hmarked, hcounted⟩ := CorePc.outside_of_inside hinside
  have hgoto : Inv (s.goto t .outside) := by
    refine h.goto hpc hinside.symm hcounted.symm (fun hholder => .inl ?_) (by simp)
    rcases h.holder t hholder with hnest | hpos
    · exact hnest
    · rw [hpc, hmarked] at hpos
      exact absurd hpos (by simp)
  refine ⟨hgoto.held, hgoto.count, hgoto.free, hgoto.holder, hgoto.checking, ?_, hgoto.printed⟩
  exact List.forall_mem_append.mpr ⟨h.checks, List.forall_mem_singleton.mpr hexact⟩

/-- **Step.** A thread takes the mutex. -/
theorem lockTake (h : Inv s) {m : mutex.Carrier} (hpc : s.pc t = .lockTake)
    (htake : mutex.take t s.lockTcpipCore = some m) :
    Inv { s.goto t .lockTest with lockTcpipCore := m } := by
  -- `t` had taken the mutex already, or nobody had
  have hcount : s.lwipCoreLockCount = BitVec.ofNat 8 (s.nest t) := by
    rcases Nat.eq_zero_or_pos (s.taken t) with htaken | htaken
    · obtain ⟨hnest, -⟩ := Nat.add_eq_zero_iff.mp htaken
      rw [hnest]
      refine h.free fun u => ?_
      by_cases hu : u = t
      · rw [hu, htaken]
      · exact h.held.eq_zero_of_take htake hu
    · exact h.count_eq (by rw [hpc]; rfl) htaken
  have hholder := h.holder t
  rw [hpc] at hholder
  refine h.update (t := t) (fun u hu => ⟨Function.update_of_ne hu _ _, rfl⟩)
    (h.held.take htake ?_ fun u hu => ?_) ?_ (fun _ => rfl) ?_ (fun _ _ => id) ?_ h.checks h.printed
  · simp [Core.taken, Core.goto, hpc, CorePc.inside]
  · simp [Core.taken, Core.goto, Function.update_of_ne hu]
  · simpa [Core.goto, CorePc.counted] using fun _ => hcount
  · simpa [Core.goto, CorePc.marked] using hholder
  · simp [Core.goto]

/-- **Step.** A thread gives the mutex back. -/
theorem unlockGive (h : Inv s) (hpc : s.pc t = .unlockGive) :
    Inv { s.goto t .outside with
      lockTcpipCore := (mutex.give t s.lockTcpipCore).2
      printed := s.printed ++
        lwipAssert "failed to give the mutex" (mutex.give t s.lockTcpipCore).1 } := by
  have htaken : 0 < s.taken t := Core.taken_pos_of_inside hpc Nat.one_pos
  have hcount := h.count_eq (t := t) (by rw [hpc]; rfl) htaken
  have hholder := h.holder t
  rw [hpc] at hholder
  have hdown : (s.goto t .outside).taken t + 1 = s.taken t := by
    simp [Core.taken, Core.goto, hpc, CorePc.inside]
  have hsame : ∀ u, u ≠ t → (s.goto t .outside).taken u = s.taken u := fun u hu => by
    simp [Core.taken, Core.goto, Function.update_of_ne hu]
  obtain ⟨hok, hheld⟩ := h.held.give htaken hdown hsame
  refine h.update (t := t) (fun u hu => ⟨Function.update_of_ne hu _ _, rfl⟩) hheld ?_
    (fun _ => rfl) ?_ (fun _ _ => id) ?_ h.checks ?_
  · simpa [Core.goto, CorePc.counted] using fun _ => hcount
  · simpa [Core.goto, CorePc.marked] using hholder
  · simp [Core.goto]
  · rw [h.printed, hok]
    rfl

/-- **Step.** A thread calls `sys_unlock_tcpip_core`. -/
theorem unlock (h : Inv s) (hpc : s.pc t = .outside) (hheld : 0 < s.nest t) :
    Inv { s.goto t .unlockCount with nest := Function.update s.nest t (s.nest t - 1) } := by
  have htaken : 0 < s.taken t := Core.taken_pos (.inl hheld)
  have hcount := h.count_eq (t := t) (by rw [hpc]; rfl) htaken
  refine h.inside htaken rfl
    (fun u hu => ⟨Function.update_of_ne hu _ _, Function.update_of_ne hu _ _⟩) ?_ ?_ ?_
    (fun _ _ => id) ?_ rfl rfl
  · simp [Core.taken, Core.goto, hpc, CorePc.inside]
    omega
  · simpa [Core.goto, CorePc.counted, Nat.sub_add_cancel hheld] using hcount
  · simp [Core.goto, CorePc.marked]
  · simp [Core.goto]

/-- **Step.** A thread counts the lock it has taken. -/
theorem lockCount (h : Inv s) (hpc : s.pc t = .lockCount) :
    Inv { s.goto t .outside with
      lwipCoreLockCount := s.lwipCoreLockCount + 1
      nest := Function.update s.nest t (s.nest t + 1) } := by
  have htaken : 0 < s.taken t := Core.taken_pos_of_inside hpc Nat.one_pos
  have hcount := h.count_eq (t := t) (by rw [hpc]; rfl) htaken
  refine h.inside htaken rfl
    (fun u hu => ⟨Function.update_of_ne hu _ _, Function.update_of_ne hu _ _⟩) ?_ ?_ ?_
    (fun _ _ => id) ?_ rfl rfl
  · simp [Core.taken, Core.goto, hpc, CorePc.inside]
  · simp [Core.goto, CorePc.counted, hcount, BitVec.ofNat_add]
  · simp [Core.goto]
  · simp [Core.goto]

/-- **Step.** A thread discounts a lock. -/
theorem unlockCount (h : Inv s) (hpc : s.pc t = .unlockCount) :
    Inv { s.goto t .unlockTest with lwipCoreLockCount := s.lwipCoreLockCount - 1 } := by
  have htaken : 0 < s.taken t := Core.taken_pos_of_inside hpc Nat.one_pos
  have hcount := h.count t htaken
  rw [hpc] at hcount
  refine h.inside htaken rfl (fun u hu => ⟨Function.update_of_ne hu _ _, rfl⟩) ?_ ?_ ?_
    (fun _ _ => id) ?_ rfl rfl
  · simp [Core.taken, Core.goto, hpc, CorePc.inside]
  · simp [Core.goto, CorePc.counted, hcount, BitVec.ofNat_add]
  · simp [Core.goto, CorePc.marked]
  · simp [Core.goto]

/-- **Step.** A thread that sees the count 0 becomes the holder. -/
theorem lockMark (h : Inv s) (hpc : s.pc t = .lockMark) :
    Inv { s.goto t .lockCount with lwipCoreLockHolderThread := some t } := by
  have htaken : 0 < s.taken t := Core.taken_pos_of_inside hpc Nat.one_pos
  have hcount := h.count_eq (t := t) (by rw [hpc]; rfl) htaken
  refine h.inside htaken rfl (fun u hu => ⟨Function.update_of_ne hu _ _, rfl⟩) ?_ ?_ ?_
    (fun u hu hholder => absurd (Option.some.inj hholder).symm hu) ?_ rfl rfl
  · simp [Core.taken, Core.goto, hpc, CorePc.inside]
  · simpa [Core.goto, CorePc.counted] using hcount
  · simp [Core.goto, CorePc.marked]
  · simp [Core.goto]

/-- **Step.** A thread that sees the count 0 again clears the holder. -/
theorem unlockMark (h : Inv s) (hpc : s.pc t = .unlockMark) :
    Inv { s.goto t .unlockGive with lwipCoreLockHolderThread := none } := by
  have htaken : 0 < s.taken t := Core.taken_pos_of_inside hpc Nat.one_pos
  have hcount := h.count_eq (t := t) (by rw [hpc]; rfl) htaken
  refine h.inside htaken rfl (fun u hu => ⟨Function.update_of_ne hu _ _, rfl⟩) ?_ ?_ ?_ ?_ ?_ rfl
    rfl
  · simp [Core.taken, Core.goto, hpc, CorePc.inside]
  · simpa [Core.goto, CorePc.counted] using hcount
  · simp
  · simp
  · simp [Core.goto]

/-- **Step.** A thread that gives up a lock tests the count. -/
theorem unlockTest (h : Inv s) (hpc : s.pc t = .unlockTest) :
    Inv (s.goto t (if s.lwipCoreLockCount = 0 then .unlockMark else .unlockGive)) := by
  by_cases hzero : s.lwipCoreLockCount = 0
  · rw [if_pos hzero]
    exact h.goto hpc rfl rfl (fun _ => .inr rfl) (by simp)
  · rw [if_neg hzero]
    refine h.goto hpc rfl rfl (fun _ => .inl ?_) (by simp)
    -- the count is not 0, so a lock is left
    have hcount := h.count_eq (t := t) (by rw [hpc]; rfl)
      (Core.taken_pos_of_inside hpc Nat.one_pos)
    apply Nat.pos_of_ne_zero
    intro hnest
    rw [hnest] at hcount
    exact hzero hcount

/-- **Step.** A check of the holder. -/
theorem checkHolder (h : Inv s) (hpc : s.pc t = .checkHolder) :
    Inv (if s.lwipCoreLockHolderThread = some t then s.goto t .checkCount
      else s.checked t true (lwipAssert "Function called without core lock" false)) := by
  by_cases hholder : s.lwipCoreLockHolderThread = some t
  · rw [if_pos hholder]
    have hnest : 0 < s.nest t := by
      have hor := h.holder t hholder
      rw [hpc] at hor
      exact hor.resolve_right (by simp [CorePc.marked])
    exact h.goto hpc rfl rfl (fun _ => .inl hnest) fun _ => hnest
  · rw [if_neg hholder]
    exact h.checked hpc rfl fun _ _ => rfl

/-- **Step.** A check of the count: with a multiple of 256 locks it is 0. -/
theorem checkCount (h : Inv s) (hpc : s.pc t = .checkCount) :
    Inv (s.checked t true
      (lwipAssert "Function called without core lock" (0 < s.lwipCoreLockCount))) := by
  have hcount := h.count_eq (t := t) (by rw [hpc]; rfl)
    (Core.taken_pos (.inl (h.checking t hpc)))
  refine h.checked hpc rfl fun _ hdvd => ?_
  obtain ⟨n, hn⟩ := hdvd
  have hzero : s.lwipCoreLockCount = 0 := by
    rw [hcount, hn]
    exact BitVec.eq_of_toNat_eq (by simp)
  rw [hzero]
  rfl

/-- **Step.** Every step preserves the invariant. -/
theorem step {e : CoreEvent T} (h : Inv s) (hs : CoreStep s e s') : Inv s' := by
  -- outside the functions the holder is a thread that holds a lock
  have hholder : ∀ u pc, s.pc u = pc → pc.marked = false →
      s.lwipCoreLockHolderThread = some u → ∀ b : Bool, 0 < s.nest u ∨ b = true := by
    rintro u pc rfl hmarked hu b
    have hor := h.holder u hu
    rw [hmarked] at hor
    exact .inl (hor.resolve_right (by simp))
  cases hs with
  | lock t outside =>
      exact h.goto outside rfl rfl (fun hu => hholder t _ outside rfl hu _) (by simp)
  | unlock t outside held => exact h.unlock outside held
  | check t outside =>
      exact h.goto outside rfl rfl (fun hu => hholder t _ outside rfl hu _) (by simp)
  | markTcpipThread t outside =>
      exact ⟨h.held, h.count, h.free, h.holder, h.checking, h.checks, h.printed⟩
  | lockTake t pc take => exact h.lockTake pc take
  | lockTest t pc =>
      by_cases hzero : s.lwipCoreLockCount = 0
      · rw [if_pos hzero]
        exact h.goto pc rfl rfl (fun hu => hholder t _ pc rfl hu _) (by simp)
      · rw [if_neg hzero]
        exact h.goto pc rfl rfl (fun _ => .inr rfl) (by simp)
  | lockMark t pc => exact h.lockMark pc
  | lockCount t pc => exact h.lockCount pc
  | unlockCount t pc => exact h.unlockCount pc
  | unlockTest t pc => exact h.unlockTest pc
  | unlockMark t pc => exact h.unlockMark pc
  | unlockGive t pc => exact h.unlockGive pc
  | checkThread t pc =>
      by_cases hthread : s.lwipTcpipThread = none
      · rw [if_pos hthread]
        exact h.checked pc rfl (by simp)
      · rw [if_neg hthread]
        exact h.goto pc rfl rfl (fun hu => hholder t _ pc rfl hu _) (by simp)
  | checkHolder t pc => exact h.checkHolder pc
  | checkCount t pc => exact h.checkCount pc

end Inv

/-- **Run.** The invariant holds in every reachable state. -/
theorem inv_of_reachable {s : Core T mutex} (h : (coreSystem T mutex).Reachable s) : Inv s := by
  refine h.invariant (fun s hinit => ?_) fun s e s' _ hinv hs => hinv.step hs
  obtain ⟨howner, hcount, hholder, hpc, hnest, hchecks, hprinted⟩ := hinit
  have hzero : ∀ t, s.taken t = 0 := fun t => by simp [Core.taken, hpc, hnest, CorePc.inside]
  exact ⟨RecursiveMutex.held_of_free howner hzero, fun t ht => absurd (hzero t) ht.ne',
    fun _ => hcount, by simp [hholder], by simp [hpc], by simp [hchecks], hprinted⟩

/-! ## At most 255 nested locks -/

omit [DecidableEq T] in
/-- A thread that holds at most 255 locks sees the count 0 exactly when it holds none. -/
theorem Inv.count_eq_zero_iff {s : Core T mutex} (h : Inv s) {t : T}
    (hcounted : (s.pc t).counted = 0) (htaken : 0 < s.taken t) (hnest : s.nest t ≤ 255) :
    s.lwipCoreLockCount = 0 ↔ s.nest t = 0 := by
  rw [h.count_eq hcounted htaken, ← BitVec.toNat_inj, BitVec.toNat_ofNat,
    Nat.mod_eq_of_lt (Nat.lt_succ_of_le hnest)]
  rfl

namespace ExactInv

variable {s s' : Core T mutex} {t : T}

omit [DecidableEq T] in
/-- **Frame.** A step of `t`: only a thread that has taken the mutex writes the holder. -/
theorem update (h : ExactInv s) (hinv : Inv s)
    (hother : ∀ u, u ≠ t → s'.pc u = s.pc u ∧ s'.nest u = s.nest u)
    (hholder : 0 < s'.nest t ∨ (s'.pc t).marked = true → s'.lwipCoreLockHolderThread = some t)
    (hsame : s'.lwipCoreLockHolderThread = s.lwipCoreLockHolderThread ∨ 0 < s.taken t)
    (hholds : (s'.pc t).Holds (s'.nest t)) (hchecks : ∀ c ∈ s'.checks, c.Exact) :
    ExactInv s' := by
  refine ⟨fun u hu => ?_, fun u => ?_, hchecks⟩
  · by_cases hut : u = t
    · rw [hut] at hu ⊢
      exact hholder hu
    · rw [(hother u hut).1, (hother u hut).2] at hu
      rcases hsame with hsame | htaken
      · rw [hsame]
        exact h.holder u hu
      · exact absurd (hinv.held.eq_of_pos (Core.taken_pos hu) htaken) hut
  · by_cases hut : u = t
    · rw [hut]
      exact hholds
    · rw [(hother u hut).1, (hother u hut).2]
      exact h.holds u

omit [DecidableEq T] in
/-- A thread that holds at most 255 locks. -/
theorem holds_of_eq (h : ExactInv s) {pc : CorePc} (hpc : s.pc t = pc) : pc.Holds (s.nest t) :=
  hpc ▸ h.holds t

/-- A step of `t` that only moves it. -/
theorem goto (h : ExactInv s) (hinv : Inv s) {pc' : CorePc}
    (hholder : pc'.marked = true → s.lwipCoreLockHolderThread = some t)
    (hholds : pc'.Holds (s.nest t)) : ExactInv (s.goto t pc') := by
  have hself : (s.goto t pc').pc t = pc' := Function.update_self ..
  refine h.update (t := t) hinv (fun u hu => ⟨Function.update_of_ne hu _ _, rfl⟩) ?_ (.inl rfl) ?_
    h.checks
  · rw [hself]
    rintro (hnest | hmarked)
    · exact h.holder t (.inl hnest)
    · exact hholder hmarked
  · rw [hself]
    exact hholds

/-- The end of a check. -/
theorem checked (h : ExactInv s) (hinv : Inv s) {marked : Bool} {printed : List String}
    (hnest : s.nest t ≤ 255) (hexact : Check.Exact ⟨t, s.nest t, marked, printed⟩) :
    ExactInv (s.checked t marked printed) := by
  have hgoto : ExactInv (s.goto t .outside) := h.goto hinv (by simp [CorePc.marked]) hnest
  refine ⟨hgoto.holder, hgoto.holds, ?_⟩
  exact List.forall_mem_append.mpr ⟨h.checks, List.forall_mem_singleton.mpr hexact⟩

/-- **Step.** A thread that has taken the mutex tests the count. -/
theorem lockTest (h : ExactInv s) (hinv : Inv s) (hpc : s.pc t = .lockTest) :
    ExactInv (s.goto t (if s.lwipCoreLockCount = 0 then .lockMark else .lockCount)) := by
  have hroom : s.nest t < 255 := h.holds_of_eq hpc
  have htaken : 0 < s.taken t := Core.taken_pos_of_inside hpc Nat.one_pos
  have hiff := hinv.count_eq_zero_iff (t := t) (by rw [hpc]; rfl) htaken hroom.le
  by_cases hzero : s.lwipCoreLockCount = 0
  · rw [if_pos hzero]
    exact h.goto hinv (by simp [CorePc.marked]) hroom
  · rw [if_neg hzero]
    exact h.goto hinv
      (fun _ => h.holder t (.inl (Nat.pos_of_ne_zero (mt hiff.mpr hzero)))) hroom

/-- **Step.** A thread that gives up a lock tests the count: it clears the holder after its last
one. -/
theorem unlockTest (h : ExactInv s) (hinv : Inv s) (hpc : s.pc t = .unlockTest) :
    ExactInv (s.goto t (if s.lwipCoreLockCount = 0 then .unlockMark else .unlockGive)) := by
  have hnest : s.nest t ≤ 255 := h.holds_of_eq hpc
  have hmarked : (s.pc t).marked = true := by rw [hpc]; rfl
  have hiff := hinv.count_eq_zero_iff (t := t) (by rw [hpc]; rfl) (Core.taken_pos (.inr hmarked))
    hnest
  by_cases hzero : s.lwipCoreLockCount = 0
  · rw [if_pos hzero]
    exact h.goto hinv (fun _ => h.holder t (.inr hmarked)) (hiff.mp hzero)
  · rw [if_neg hzero]
    exact h.goto hinv (by simp [CorePc.marked]) hnest

/-- **Step.** A check of the holder: a thread that is not the holder holds no lock. -/
theorem checkHolder (h : ExactInv s) (hinv : Inv s) (hpc : s.pc t = .checkHolder) :
    ExactInv (if s.lwipCoreLockHolderThread = some t then s.goto t .checkCount
      else s.checked t true (lwipAssert "Function called without core lock" false)) := by
  have hroom : s.nest t ≤ 255 := h.holds_of_eq hpc
  by_cases hholder : s.lwipCoreLockHolderThread = some t
  · rw [if_pos hholder]
    exact h.goto hinv (by simp [CorePc.marked]) hroom
  · rw [if_neg hholder]
    have hnest : s.nest t = 0 := by
      by_contra hne
      exact hholder (h.holder t (.inl (Nat.pos_of_ne_zero hne)))
    exact h.checked hinv hroom (by simp [Check.Exact, lwipAssert, hnest])

/-- **Step.** A check of the count, which finds the locks of its own thread. -/
theorem checkCount (h : ExactInv s) (hinv : Inv s) (hpc : s.pc t = .checkCount) :
    ExactInv (s.checked t true
      (lwipAssert "Function called without core lock" (0 < s.lwipCoreLockCount))) := by
  have hroom : s.nest t ≤ 255 := h.holds_of_eq hpc
  have hnest : 0 < s.nest t := hinv.checking t hpc
  have hiff := hinv.count_eq_zero_iff (by rw [hpc]; rfl) (Core.taken_pos (.inl hnest)) hroom
  have hpos : 0 < s.lwipCoreLockCount := by
    rw [BitVec.lt_def]
    apply Nat.pos_of_ne_zero
    intro hzero
    exact hnest.ne' (hiff.mp (BitVec.eq_of_toNat_eq hzero))
  refine h.checked hinv hroom ?_
  rw [Check.Exact, lwipAssert, if_pos (decide_eq_true hpos), if_neg (by simp [hnest.ne'])]

/-- **Step.** Every step that stays below 256 nested locks preserves the invariant. -/
theorem step {e : CoreEvent T} (h : ExactInv s) (hinv : Inv s) (hs : CoreStep s e s')
    (hnesting : Nesting s e) : ExactInv s' := by
  cases hs with
  | lock t outside => exact h.goto hinv (by simp [CorePc.marked]) hnesting
  | unlock t outside held =>
      have hroom : s.nest t ≤ 255 := h.holds_of_eq outside
      refine h.update (t := t) hinv
        (fun u hu => ⟨Function.update_of_ne hu _ _, Function.update_of_ne hu _ _⟩)
        (fun _ => h.holder t (.inl held)) (.inl rfl) ?_ h.checks
      simp [Core.goto, CorePc.Holds]
      omega
  | check t outside =>
      have hroom : s.nest t ≤ 255 := h.holds_of_eq outside
      exact h.goto hinv (by simp [CorePc.marked]) hroom
  | markTcpipThread t outside => exact ⟨h.holder, h.holds, h.checks⟩
  | lockTake t pc take =>
      have hroom : s.nest t < 255 := h.holds_of_eq pc
      have hgoto : ExactInv (s.goto t .lockTest) :=
        h.goto hinv (by simp [CorePc.marked]) hroom
      exact ⟨hgoto.holder, hgoto.holds, hgoto.checks⟩
  | lockTest t pc => exact h.lockTest hinv pc
  | lockMark t pc =>
      have hroom : s.nest t < 255 := h.holds_of_eq pc
      have htaken : 0 < s.taken t := Core.taken_pos_of_inside pc Nat.one_pos
      refine h.update (t := t) hinv (fun u hu => ⟨Function.update_of_ne hu _ _, rfl⟩)
        (fun _ => rfl) (.inr htaken) ?_ h.checks
      simpa [Core.goto, CorePc.Holds] using hroom
  | lockCount t pc =>
      have hroom : s.nest t < 255 := h.holds_of_eq pc
      refine h.update (t := t) hinv
        (fun u hu => ⟨Function.update_of_ne hu _ _, Function.update_of_ne hu _ _⟩)
        (fun _ => h.holder t (.inr (by rw [pc]; rfl))) (.inl rfl) ?_ h.checks
      show (Function.update s.pc t .outside t).Holds (Function.update s.nest t (s.nest t + 1) t)
      rw [Function.update_self, Function.update_self]
      exact hroom
  | unlockCount t pc =>
      have hroom : s.nest t ≤ 255 := h.holds_of_eq pc
      have hgoto : ExactInv (s.goto t .unlockTest) :=
        h.goto hinv (fun _ => h.holder t (.inr (by rw [pc]; rfl))) hroom
      exact ⟨hgoto.holder, hgoto.holds, hgoto.checks⟩
  | unlockTest t pc => exact h.unlockTest hinv pc
  | unlockMark t pc =>
      have hnest : s.nest t = 0 := h.holds_of_eq pc
      refine h.update (t := t) hinv (fun u hu => ⟨Function.update_of_ne hu _ _, rfl⟩) ?_
        (.inr (Core.taken_pos_of_inside pc Nat.one_pos)) ?_ h.checks
      · simp [Core.goto, CorePc.marked, hnest]
      · simp [Core.goto, CorePc.Holds, hnest]
  | unlockGive t pc =>
      have hroom : s.nest t ≤ 255 := h.holds_of_eq pc
      have hgoto : ExactInv (s.goto t .outside) :=
        h.goto hinv (by simp [CorePc.marked]) hroom
      exact ⟨hgoto.holder, hgoto.holds, hgoto.checks⟩
  | checkThread t pc =>
      have hroom : s.nest t ≤ 255 := h.holds_of_eq pc
      by_cases hthread : s.lwipTcpipThread = none
      · rw [if_pos hthread]
        exact h.checked hinv hroom (by simp [Check.Exact])
      · rw [if_neg hthread]
        exact h.goto hinv (by simp [CorePc.marked]) hroom
  | checkHolder t pc => exact h.checkHolder hinv pc
  | checkCount t pc => exact h.checkCount hinv pc

end ExactInv

/-- **Run.** The invariant holds in every state reached with at most 255 nested locks. -/
theorem exactInv_of_reachable {s : Core T mutex}
    (h : ((coreSystem T mutex).restrict Nesting).Reachable s) : ExactInv s := by
  refine h.invariant (fun s hinit => ?_) fun s e s' hr hexact hs =>
    hexact.step (inv_of_reachable hr.of_restrict) hs.1 hs.2
  obtain ⟨-, -, -, hpc, hnest, hchecks, -⟩ := hinit
  refine ⟨fun t ht => ?_, fun t => ?_, by simp [hchecks]⟩
  · rw [hpc, hnest] at ht
    exact absurd ht (by simp [CorePc.marked])
  · rw [hpc, hnest]
    exact Nat.zero_le 255

/-! ## A thread that locks 256 times -/

/-- The free lock, before any thread has called. -/
def Core.start (T : Type*) (mutex : RecursiveMutex T) : Core T mutex :=
  ⟨mutex.free, 0, none, none, fun _ => .outside, fun _ => 0, [], []⟩

theorem start_reachable : (coreSystem T mutex).Reachable (Core.start T mutex) :=
  .init ⟨mutex.owner_free, rfl, rfl, fun _ => rfl, fun _ => rfl, rfl, rfl⟩

/-- A marked thread that is outside with `n` locks. -/
structure Core.Deep (s : Core T mutex) (t : T) (n : ℕ) : Prop where
  reachable : (coreSystem T mutex).Reachable s
  thread : s.lwipTcpipThread = some t
  outside : s.pc t = .outside
  nest : s.nest t = n
  owner : mutex.owner s.lockTcpipCore = if 0 < n then some (t, n) else none

/-- **Step.** It locks once more. -/
theorem Core.Deep.lock {s : Core T mutex} {t : T} {n : ℕ} (h : s.Deep t n) :
    ∃ s' : Core T mutex, s'.Deep t (n + 1) := by
  obtain ⟨m, htake, howner⟩ : ∃ m, mutex.take t s.lockTcpipCore = some m ∧
      mutex.owner m = some (t, n + 1) := by
    have howner := h.owner
    rcases Nat.eq_zero_or_pos n with rfl | hn
    · exact mutex.take_free t _ howner
    · rw [if_pos hn] at howner
      exact mutex.take_again t _ n howner
  have hlock := h.reachable.step (.lock t h.outside)
  have htest := hlock.step (.lockTake t (Function.update_self ..) htake)
  have hnext := htest.step (.lockTest t (Function.update_self ..))
  by_cases hzero : s.lwipCoreLockCount = 0
  · -- at the first lock, and at every 256th one after it
    have hmark : (if s.lwipCoreLockCount = 0 then CorePc.lockMark else .lockCount) = .lockMark :=
      if_pos hzero
    have hcounted := (hnext.step (.lockMark t ((Function.update_self ..).trans hmark))).step
      (.lockCount t (Function.update_self ..))
    refine ⟨_, hcounted, h.thread, Function.update_self .., ?_, ?_⟩
    · exact (Function.update_self ..).trans (congrArg (· + 1) h.nest)
    · rw [if_pos n.succ_pos]
      exact howner
  · have hskip : (if s.lwipCoreLockCount = 0 then CorePc.lockMark else .lockCount) = .lockCount :=
      if_neg hzero
    have hcounted := hnext.step (.lockCount t ((Function.update_self ..).trans hskip))
    refine ⟨_, hcounted, h.thread, Function.update_self .., ?_, ?_⟩
    · exact (Function.update_self ..).trans (congrArg (· + 1) h.nest)
    · rw [if_pos n.succ_pos]
      exact howner

/-- **Run.** It locks as often as it likes. -/
theorem exists_deep (mutex : RecursiveMutex T) (t : T) (n : ℕ) :
    ∃ s : Core T mutex, s.Deep t n := by
  induction n with
  | zero =>
      exact ⟨_, start_reachable.step (.markTcpipThread t rfl), rfl, rfl, rfl, mutex.owner_free⟩
  | succ n ih =>
      obtain ⟨s, hs⟩ := ih
      exact hs.lock

/-- A check comes to its end. -/
theorem exists_checked {s : Core T mutex} (h : (coreSystem T mutex).Reachable s) {t : T}
    (hpc : s.pc t = .checkHolder) :
    ∃ (s' : Core T mutex) (printed : List String), (coreSystem T mutex).Reachable s' ∧
      ⟨t, s.nest t, true, printed⟩ ∈ s'.checks := by
  have hstep := h.step (.checkHolder t hpc)
  by_cases hholder : s.lwipCoreLockHolderThread = some t
  · rw [if_pos hholder] at hstep
    exact ⟨_, _, hstep.step (.checkCount t (Function.update_self ..)),
      List.mem_append_right _ List.mem_cons_self⟩
  · rw [if_neg hholder] at hstep
    exact ⟨_, _, hstep, List.mem_append_right _ List.mem_cons_self⟩

/-- With 256 locks the count is zero again, and a check complains. -/
theorem exists_complaint (mutex : RecursiveMutex T) (t : T) :
    ∃ s : Core T mutex, (coreSystem T mutex).Reachable s ∧
      ⟨t, 256, true, ["Function called without core lock"]⟩ ∈ s.checks := by
  obtain ⟨s, hs⟩ := exists_deep mutex t 256
  have hcheck := hs.reachable.step (.check t hs.outside)
  have hthread : ¬ (s.goto t .checkThread).lwipTcpipThread = none := by
    show ¬ s.lwipTcpipThread = none
    rw [hs.thread]
    exact Option.some_ne_none t
  have hstep := CoreStep.checkThread (s := s.goto t .checkThread) t (Function.update_self ..)
  rw [if_neg hthread] at hstep
  obtain ⟨s', printed, hs', hmem⟩ := exists_checked (hcheck.step hstep) (Function.update_self ..)
  have hnest : ((s.goto t .checkThread).goto t .checkHolder).nest t = 256 := hs.nest
  rw [hnest] at hmem
  have hprinted : printed = _ := (inv_of_reachable hs').checks _ hmem rfl (dvd_refl 256)
  exact ⟨s', hs', hprinted ▸ hmem⟩

/-! ## The result -/

/-- **Checks.** With any number of threads, in every interleaving of their statements, at most one
thread holds the core lock, giving the mutex back never fails, and once the `TCP/IP` thread is
marked, every check of a thread that holds no lock, or a multiple of 256, complains. While no thread
nests more than 255 locks, a check complains exactly when its thread does not hold the lock and the
`TCP/IP` thread is marked. Every thread can nest 256 locks and be told that it holds none. -/
theorem checks_exact (mutex : RecursiveMutex T) :
    (∀ s : Core T mutex, (coreSystem T mutex).Reachable s →
      (∀ t u, 0 < s.nest t → 0 < s.nest u → t = u) ∧ s.printed = [] ∧
        ∀ c ∈ s.checks, c.marked = true → 256 ∣ c.nest →
          c.printed = ["Function called without core lock"]) ∧
      (∀ s : Core T mutex, ((coreSystem T mutex).restrict Nesting).Reachable s →
        ∀ c ∈ s.checks, c.Exact) ∧
      ∀ t : T, ∃ s : Core T mutex, (coreSystem T mutex).Reachable s ∧
        ⟨t, 256, true, ["Function called without core lock"]⟩ ∈ s.checks := by
  refine ⟨fun s h => ?_, fun s h => (exactInv_of_reachable h).checks, exists_complaint mutex⟩
  have hinv := inv_of_reachable h
  refine ⟨fun t u ht hu => ?_, hinv.printed, hinv.checks⟩
  exact hinv.held.eq_of_pos (Core.taken_pos (.inl ht)) (Core.taken_pos (.inl hu))

end

/-- Two threads: one marks itself and takes the lock, the other checks, and is told. -/
theorem checks_exact_two :
    ∃ s : Core Bool (.counting Bool),
      ((coreSystem Bool (.counting Bool)).restrict Nesting).Reachable s ∧
      s.checks = [⟨false, 0, true, ["Function called without core lock"]⟩, ⟨true, 1, true, []⟩] ∧
      (∀ t u, 0 < s.nest t → 0 < s.nest u → t = u) ∧ ∀ c ∈ s.checks, c.Exact := by
  have hstart : ((coreSystem Bool (.counting Bool)).restrict Nesting).Reachable
      (Core.start Bool (.counting Bool)) :=
    .init ⟨rfl, rfl, rfl, fun _ => rfl, fun _ => rfl, rfl, rfl⟩
  have hlocked := ((hstart.step ⟨.markTcpipThread true rfl, trivial⟩).step
    ⟨.lock true rfl, show (0 : ℕ) < 255 by decide⟩).step ⟨.lockTake true rfl rfl, trivial⟩
  have hheld := ((hlocked.step ⟨.lockTest true rfl, trivial⟩).step
    ⟨.lockMark true rfl, trivial⟩).step ⟨.lockCount true rfl, trivial⟩
  have hother := ((hheld.step ⟨.check false rfl, trivial⟩).step
    ⟨.checkThread false rfl, trivial⟩).step ⟨.checkHolder false rfl, trivial⟩
  have hown := ((hother.step ⟨.check true rfl, trivial⟩).step
    ⟨.checkThread true rfl, trivial⟩).step ⟨.checkHolder true rfl, trivial⟩
  have hdone := hown.step ⟨.checkCount true rfl, trivial⟩
  have hexact := checks_exact (.counting Bool)
  exact ⟨_, hdone, rfl, (hexact.1 _ hdone.of_restrict).1, hexact.2.1 _ hdone⟩

end Stm32Eth.Sys
