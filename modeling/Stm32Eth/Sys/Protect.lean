import Stm32Eth.Lib.Transition
import Stm32Eth.Sys.Kernel
import Mathlib.Data.BitVec
import Mathlib.Logic.Function.Basic

/-!
# The sanity check of the protected regions

`sys_arch_protect` and `sys_arch_unprotect` of `sys_arch.c`, in any number of threads and in any
interleaving of their statements, as they are compiled with
`LWIP_FREERTOS_SYS_ARCH_PROTECT_SANITY_CHECK` and critical sections. A critical section is a
recursive mutex that also keeps every other thread from running (`Prot.Runs`).

The check is there to tell that the two functions "are called matching". Threads call them as they
like. Up to its first complaint it is right about every call (`sanityCheck_exact`): a call that is
not matched never returns silently, and one that is does not complain.
-/

namespace Stm32Eth.Sys

open Transition

/-! ## The machine -/

/-- Where a thread is in the two functions: about to execute a statement. -/
inductive ProtPc
  /-- in none of them -/
  | outside
  /-- `taskENTER_CRITICAL()` -/
  | enter
  /-- `ret = sys_arch_protect_nesting` -/
  | read
  /-- `sys_arch_protect_nesting++` -/
  | count (ret : BitVec 32)
  /-- `sys_arch_protect_nesting > ret` -/
  | checkOverflow (ret : BitVec 32)
  /-- `return ret` -/
  | returns (ret : BitVec 32)
  /-- `sys_arch_protect_nesting > 0` -/
  | checkPositive (pval : BitVec 32)
  /-- `sys_arch_protect_nesting--` -/
  | uncount (pval : BitVec 32)
  /-- `sys_arch_protect_nesting == pval` -/
  | checkLevel (pval : BitVec 32)
  /-- `taskEXIT_CRITICAL()` -/
  | exit (pval : BitVec 32)
  deriving DecidableEq, Repr

/-- A call: of `sys_arch_protect`, in how many protected regions its thread was and what it returns,
or of `sys_arch_unprotect`, the value that the call of `sys_arch_protect` it ends has returned, if
there is one, and the value it was passed. -/
inductive ProtCall (T : Type*)
  | protect (t : T) (level : ℕ) (ret : BitVec 32)
  | unprotect (t : T) (matching : Option (BitVec 32)) (pval : BitVec 32)

/-- The nesting, where each thread is, what the calls of `sys_arch_protect` that it has not ended
yet returned, innermost first, the calls that have returned, and those that complained. -/
structure Prot (T : Type*) (mutex : RecursiveMutex T) where
  critical : mutex.Carrier
  sysArchProtectNesting : BitVec 32
  pc : T → ProtPc
  levels : T → List (BitVec 32)
  returned : List (ProtCall T)
  complaints : List (ProtCall T × String)

/-- The steps, by what happens. -/
inductive ProtEvent (T : Type*)
  | protect (t : T)
  | unprotect (t : T) (pval : BitVec 32)
  | statement (t : T)

section

variable {T : Type*} {mutex : RecursiveMutex T}

/-- A thread can run: no other one is in a critical section. -/
def Prot.Runs (s : Prot T mutex) (t : T) : Prop :=
  ∀ o n, mutex.owner s.critical = some (o, n) → o = t

/-- A thread can run while nobody is in a critical section. -/
theorem Prot.runs_of_free {s : Prot T mutex} {t : T} (h : mutex.owner s.critical = none) :
    s.Runs t := by
  intro o n howner
  rw [h] at howner
  exact absurd howner.symm (Option.some_ne_none _)

/-- A thread can run while it is in a critical section. -/
theorem Prot.runs_of_owner {s : Prot T mutex} {t : T} {n : ℕ}
    (h : mutex.owner s.critical = some (t, n)) : s.Runs t := by
  intro o m howner
  exact (Prod.mk.inj (Option.some.inj (howner.symm.trans h))).1

variable [DecidableEq T]

/-- A thread goes on. -/
def Prot.goto (s : Prot T mutex) (t : T) (pc : ProtPc) : Prot T mutex :=
  { s with pc := Function.update s.pc t pc }

/-- `LWIP_ASSERT` in a call: it may complain, and the thread goes on. -/
def Prot.asserted (s : Prot T mutex) (t : T) (pc : ProtPc) (call : ProtCall T) (message : String)
    (assertion : Bool) : Prot T mutex :=
  { s.goto t pc with
    complaints := s.complaints ++ (lwipAssert message assertion).map (Prod.mk call) }

/-- The steps of the threads. -/
inductive ProtStep : Prot T mutex → ProtEvent T → Prot T mutex → Prop
  /-- A thread calls `sys_arch_protect`. -/
  | protect {s : Prot T mutex} (t : T) (runs : s.Runs t) (outside : s.pc t = .outside) :
      ProtStep s (.protect t) (s.goto t .enter)
  /-- A thread calls `sys_arch_unprotect`, matched or not. -/
  | unprotect {s : Prot T mutex} (t : T) (pval : BitVec 32) (runs : s.Runs t)
      (outside : s.pc t = .outside) :
      ProtStep s (.unprotect t pval) (s.goto t (.checkPositive pval))
  | enter {s : Prot T mutex} {m : mutex.Carrier} (t : T) (runs : s.Runs t)
      (pc : s.pc t = .enter) (take : mutex.take t s.critical = some m) :
      ProtStep s (.statement t) { s.goto t .read with critical := m }
  | read {s : Prot T mutex} (t : T) (runs : s.Runs t) (pc : s.pc t = .read) :
      ProtStep s (.statement t) (s.goto t (.count s.sysArchProtectNesting))
  | count {s : Prot T mutex} {ret : BitVec 32} (t : T) (runs : s.Runs t)
      (pc : s.pc t = .count ret) :
      ProtStep s (.statement t)
        { s.goto t (.checkOverflow ret) with
          sysArchProtectNesting := s.sysArchProtectNesting + 1 }
  | checkOverflow {s : Prot T mutex} {ret : BitVec 32} (t : T) (runs : s.Runs t)
      (pc : s.pc t = .checkOverflow ret) :
      ProtStep s (.statement t)
        (s.asserted t (.returns ret) (.protect t (s.levels t).length ret)
          "sys_arch_protect overflow" (ret < s.sysArchProtectNesting))
  | returns {s : Prot T mutex} {ret : BitVec 32} (t : T) (runs : s.Runs t)
      (pc : s.pc t = .returns ret) :
      ProtStep s (.statement t)
        { s.goto t .outside with
          levels := Function.update s.levels t (ret :: s.levels t)
          returned := s.returned ++ [.protect t (s.levels t).length ret] }
  | checkPositive {s : Prot T mutex} {pval : BitVec 32} (t : T) (runs : s.Runs t)
      (pc : s.pc t = .checkPositive pval) :
      ProtStep s (.statement t)
        (s.asserted t (.uncount pval) (.unprotect t (s.levels t).head? pval)
          "unexpected sys_arch_protect_nesting" (0 < s.sysArchProtectNesting))
  | uncount {s : Prot T mutex} {pval : BitVec 32} (t : T) (runs : s.Runs t)
      (pc : s.pc t = .uncount pval) :
      ProtStep s (.statement t)
        { s.goto t (.checkLevel pval) with
          sysArchProtectNesting := s.sysArchProtectNesting - 1 }
  | checkLevel {s : Prot T mutex} {pval : BitVec 32} (t : T) (runs : s.Runs t)
      (pc : s.pc t = .checkLevel pval) :
      ProtStep s (.statement t)
        (s.asserted t (.exit pval) (.unprotect t (s.levels t).head? pval)
          "unexpected sys_arch_protect_nesting" (s.sysArchProtectNesting = pval))
  | exit {s : Prot T mutex} {pval : BitVec 32} (t : T) (runs : s.Runs t)
      (pc : s.pc t = .exit pval) :
      ProtStep s (.statement t)
        { s.goto t .outside with
          critical := (mutex.give t s.critical).2
          levels := Function.update s.levels t (s.levels t).tail
          returned := s.returned ++ [.unprotect t (s.levels t).head? pval] }

/-- The threads, before any of them has called. -/
def protSystem (T : Type*) [DecidableEq T] (mutex : RecursiveMutex T) :
    System (Prot T mutex) (ProtEvent T) where
  init s := mutex.owner s.critical = none ∧ s.sysArchProtectNesting = 0 ∧
    (∀ t, s.pc t = .outside) ∧ (∀ t, s.levels t = []) ∧ s.returned = [] ∧ s.complaints = []
  step := ProtStep

end

/-! ## What the nesting is -/

/-- A call that is as it should be: `sys_arch_protect` returns how many regions there were, and one
more can be counted in 32 bits; `sys_arch_unprotect` is passed the value of the call it ends. -/
def ProtCall.Sane {T : Type*} : ProtCall T → Prop
  | .protect _ level ret => ret.toNat = level ∧ level + 1 < 2 ^ 32
  | .unprotect _ matching pval => matching = some pval

/-- What the calls return that a thread has not ended: how many there were before each. -/
def Levels : List (BitVec 32) → Prop
  | [] => True
  | level :: levels => level.toNat = levels.length ∧ levels.length + 1 < 2 ^ 32 ∧ Levels levels

theorem Levels.length_lt {levels : List (BitVec 32)} (h : Levels levels) :
    levels.length < 2 ^ 32 := by
  cases levels with
  | nil => exact Nat.two_pow_pos 32
  | cons level levels => exact h.2.1

/-- How many more critical sections a thread is in than regions it has been told of. -/
def ProtPc.inside : ProtPc → ℕ
  | .read | .count _ | .checkOverflow _ | .returns _ => 1
  | _ => 0

/-- What a thread with these levels has counted. -/
def ProtPc.counted (n : ℕ) : ProtPc → ℕ
  | .checkOverflow _ | .returns _ => n + 1
  | .checkLevel _ | .exit _ => n - 1
  | _ => n

/-- What a thread knows at each point, as long as nobody has complained. -/
def ProtPc.Knows (levels : List (BitVec 32)) : ProtPc → Prop
  | .count ret | .checkOverflow ret => ret.toNat = levels.length
  | .returns ret => (ProtCall.protect () levels.length ret).Sane
  | .uncount _ | .checkLevel _ => levels ≠ []
  | .exit pval => (ProtCall.unprotect () levels.head? pval).Sane
  | _ => True

/-- A thread that is in no region has counted none. -/
theorem ProtPc.counted_eq_zero {n : ℕ} {pc : ProtPc} (h : n + pc.inside = 0) :
    pc.counted n = 0 := by
  cases pc <;> simp_all [ProtPc.inside, ProtPc.counted]

section

variable {T : Type*} {mutex : RecursiveMutex T}

/-- How many critical sections a thread is in. -/
def Prot.taken (s : Prot T mutex) (t : T) : ℕ := (s.levels t).length + (s.pc t).inside

/-- What holds in every state reached before or at the first complaint. -/
structure ProtInv (s : Prot T mutex) : Prop where
  held : mutex.Held s.critical s.taken
  nesting : ∀ t, s.Runs t →
    s.sysArchProtectNesting = BitVec.ofNat 32 ((s.pc t).counted (s.levels t).length)
  levels : ∀ t, Levels (s.levels t)
  knows : s.complaints = [] → ∀ t, (s.pc t).Knows (s.levels t)
  returned : ∀ c ∈ s.returned, c.Sane
  complaints : ∀ c ∈ s.complaints, ¬ c.1.Sane

/-- Nobody has complained yet. -/
def Silent (s : Prot T mutex) : ProtEvent T → Prop := fun _ => s.complaints = []

/-- While a thread runs, the others are in no critical section. -/
theorem Prot.Runs.taken_eq_zero {s : Prot T mutex} {t u : T} (runs : s.Runs t)
    (h : mutex.Held s.critical s.taken) (hne : u ≠ t) : s.taken u = 0 := by
  by_contra hu
  exact hne (runs u _ (h.owner_eq (Nat.pos_of_ne_zero hu)))

/-- A thread that is in no critical section while another one runs has counted no region. -/
theorem Prot.counted_eq_zero {s : Prot T mutex} {t : T} (h : s.taken t = 0) :
    (s.pc t).counted (s.levels t).length = 0 :=
  ProtPc.counted_eq_zero h

/-! ## One step -/

/-- **Frame.** A step of a thread that runs. -/
theorem ProtInv.alone {s s' : Prot T mutex} (h : ProtInv s) (hsilent : s.complaints = []) {t : T}
    (runs : s.Runs t) (hother : ∀ u, u ≠ t → s'.pc u = s.pc u ∧ s'.levels u = s.levels u)
    (hheld : mutex.Held s'.critical s'.taken)
    (hnesting : s'.sysArchProtectNesting =
      BitVec.ofNat 32 ((s'.pc t).counted (s'.levels t).length))
    (hlevels : Levels (s'.levels t))
    (hknows : s'.complaints = [] → (s'.pc t).Knows (s'.levels t))
    (hreturned : ∀ c ∈ s'.returned, c.Sane) (hcomplaints : ∀ c ∈ s'.complaints, ¬ c.1.Sane) :
    ProtInv s' := by
  refine ⟨hheld, fun u hruns => ?_, fun u => ?_, fun hsilent' u => ?_, hreturned, hcomplaints⟩
  · by_cases hu : u = t
    · rw [hu]
      exact hnesting
    · -- `t` has left the last region, and `u` is in none
      have hzero : s'.taken u = 0 := by
        have hzero := runs.taken_eq_zero h.held hu
        rwa [Prot.taken, (hother u hu).1, (hother u hu).2]
      rw [hnesting, Prot.counted_eq_zero (hruns.taken_eq_zero hheld (Ne.symm hu)),
        Prot.counted_eq_zero hzero]
  · by_cases hu : u = t
    · rw [hu]
      exact hlevels
    · rw [(hother u hu).2]
      exact h.levels u
  · by_cases hu : u = t
    · rw [hu]
      exact hknows hsilent'
    · rw [(hother u hu).1, (hother u hu).2]
      exact h.knows hsilent u

variable [DecidableEq T]

/-- **Step.** A thread that stays in as many critical sections goes on. -/
theorem ProtInv.goto {s s' : Prot T mutex} (h : ProtInv s) (hsilent : s.complaints = []) {t : T}
    {pc pc' : ProtPc} (runs : s.Runs t) (hpc : s.pc t = pc)
    (hgoto : s' = { s.goto t pc' with
      sysArchProtectNesting := s'.sysArchProtectNesting, complaints := s'.complaints })
    (hinside : pc'.inside = pc.inside)
    (hnesting : s.sysArchProtectNesting = BitVec.ofNat 32 (pc.counted (s.levels t).length) →
      s'.sysArchProtectNesting = BitVec.ofNat 32 (pc'.counted (s.levels t).length))
    (hknows : s'.complaints = [] → pc'.Knows (s.levels t))
    (hcomplaints : ∀ c ∈ s'.complaints, ¬ c.1.Sane) : ProtInv s' := by
  subst hpc
  have hcritical : s'.critical = s.critical := by rw [hgoto]; rfl
  have hlevels : s'.levels = s.levels := by rw [hgoto]; rfl
  have hreturned : s'.returned = s.returned := by rw [hgoto]; rfl
  have hpc' : s'.pc t = pc' := by rw [hgoto]; exact Function.update_self t pc' s.pc
  have hother : ∀ u, u ≠ t → s'.pc u = s.pc u := fun u hu => by
    rw [hgoto]
    exact Function.update_of_ne hu pc' s.pc
  have htaken : s'.taken = s.taken := by
    funext u
    rw [Prot.taken, Prot.taken, hlevels]
    by_cases hu : u = t
    · rw [hu, hpc', hinside]
    · rw [hother u hu]
  refine h.alone hsilent runs (fun u hu => ⟨hother u hu, congrFun hlevels u⟩) ?_ ?_ ?_ ?_ ?_
    hcomplaints
  · rw [hcritical, htaken]
    exact h.held
  · rw [hpc', hlevels]
    exact hnesting (h.nesting t runs)
  · rw [hlevels]
    exact h.levels t
  · rw [hpc', hlevels]
    exact hknows
  · rw [hreturned]
    exact h.returned

/-- **Step.** An assertion that complains exactly when the call is not as it should be. -/
theorem ProtInv.asserted {s : Prot T mutex} (h : ProtInv s) (hsilent : s.complaints = []) {t : T}
    {pc pc' : ProtPc} (runs : s.Runs t) (hpc : s.pc t = pc) (hinside : pc'.inside = pc.inside)
    (hcounted : pc'.counted (s.levels t).length = pc.counted (s.levels t).length)
    {call : ProtCall T} {message : String} {assertion : Bool}
    (hfails : assertion = false → ¬ call.Sane)
    (hholds : assertion = true → pc'.Knows (s.levels t)) :
    ProtInv (s.asserted t pc' call message assertion) := by
  refine h.goto hsilent runs hpc rfl hinside (fun hnesting => hnesting.trans (by rw [hcounted]))
    (fun hsilent' => hholds ?_) ?_
  · by_contra hfalse
    rw [Bool.not_eq_true] at hfalse
    simp [Prot.asserted, lwipAssert, hfalse] at hsilent'
  · cases assertion with
    | true => simp [Prot.asserted, lwipAssert, hsilent]
    | false => simpa [Prot.asserted, lwipAssert, hsilent] using hfails rfl

/-- **Step.** A thread enters its critical section. -/
theorem ProtInv.enter {s : Prot T mutex} (h : ProtInv s) (hsilent : s.complaints = []) {t : T}
    {m : mutex.Carrier} (runs : s.Runs t) (hpc : s.pc t = .enter)
    (htake : mutex.take t s.critical = some m) : ProtInv { s.goto t .read with critical := m } := by
  refine h.alone hsilent runs (fun u hu => ⟨Function.update_of_ne hu _ _, rfl⟩)
    (h.held.take htake ?_ fun u hu => ?_) ?_ (h.levels t) (fun _ => ?_) h.returned h.complaints
  · simp [Prot.taken, Prot.goto, hpc, ProtPc.inside]
  · simp [Prot.taken, Prot.goto, Function.update_of_ne hu]
  · simpa [Prot.goto, hpc, ProtPc.counted] using h.nesting t runs
  · simp [Prot.goto, ProtPc.Knows]

/-- **Step.** A call of `sys_arch_protect` returns. -/
theorem ProtInv.returns {s : Prot T mutex} (h : ProtInv s) (hsilent : s.complaints = []) {t : T}
    {ret : BitVec 32} (runs : s.Runs t) (hpc : s.pc t = .returns ret) :
    ProtInv { s.goto t .outside with
      levels := Function.update s.levels t (ret :: s.levels t)
      returned := s.returned ++ [.protect t (s.levels t).length ret] } := by
  have hsane := h.knows hsilent t
  rw [hpc] at hsane
  have htaken : ∀ u, Prot.taken { s.goto t .outside with
      levels := Function.update s.levels t (ret :: s.levels t)
      returned := s.returned ++ [.protect t (s.levels t).length ret] } u = s.taken u := fun u => by
    by_cases hu : u = t
    · simp [hu, Prot.taken, Prot.goto, hpc, ProtPc.inside]
    · simp [Prot.taken, Prot.goto, Function.update_of_ne hu]
  refine h.alone hsilent runs
    (fun u hu => ⟨Function.update_of_ne hu _ _, Function.update_of_ne hu _ _⟩) ?_ ?_ ?_
    (fun _ => ?_) ?_ h.complaints
  · rw [funext htaken]
    exact h.held
  · simpa [Prot.goto, hpc, ProtPc.counted] using h.nesting t runs
  · simp only [Function.update_self]
    exact ⟨hsane.1, hsane.2, h.levels t⟩
  · simp [Prot.goto, ProtPc.Knows]
  · exact List.forall_mem_append.mpr ⟨h.returned, List.forall_mem_singleton.mpr hsane⟩

/-- **Step.** A call of `sys_arch_unprotect` returns. -/
theorem ProtInv.exit {s : Prot T mutex} (h : ProtInv s) (hsilent : s.complaints = []) {t : T}
    {pval : BitVec 32} (runs : s.Runs t) (hpc : s.pc t = .exit pval) :
    ProtInv { s.goto t .outside with
      critical := (mutex.give t s.critical).2
      levels := Function.update s.levels t (s.levels t).tail
      returned := s.returned ++ [.unprotect t (s.levels t).head? pval] } := by
  have hsane := h.knows hsilent t
  rw [hpc] at hsane
  obtain ⟨levels, hlevels⟩ : ∃ levels, s.levels t = pval :: levels :=
    List.head?_eq_some_iff.mp hsane
  have htaken : s.taken t = levels.length + 1 := by
    rw [Prot.taken, hpc, hlevels]
    rfl
  refine h.alone hsilent runs
    (fun u hu => ⟨Function.update_of_ne hu _ _, Function.update_of_ne hu _ _⟩)
    (h.held.give (by omega) ?_ fun u hu => ?_).2 ?_ ?_ (fun _ => ?_) ?_ h.complaints
  · rw [htaken]
    simp [Prot.taken, Prot.goto, hlevels, ProtPc.inside]
  · simp [Prot.taken, Prot.goto, Function.update_of_ne hu]
  · simpa [Prot.goto, hpc, hlevels, ProtPc.counted] using h.nesting t runs
  · have hall := h.levels t
    rw [hlevels] at hall
    simp only [Function.update_self, hlevels]
    exact hall.2.2
  · simp [Prot.goto, ProtPc.Knows]
  · exact List.forall_mem_append.mpr ⟨h.returned, List.forall_mem_singleton.mpr hsane⟩

/-- **Step.** A call of `sys_arch_protect` finds the nesting greater exactly when it is still
counted in 32 bits. -/
theorem ProtInv.checkOverflow {s : Prot T mutex} (h : ProtInv s) (hsilent : s.complaints = [])
    {t : T} {ret : BitVec 32} (runs : s.Runs t) (hpc : s.pc t = .checkOverflow ret) :
    ProtInv (s.asserted t (.returns ret) (.protect t (s.levels t).length ret)
      "sys_arch_protect overflow" (ret < s.sysArchProtectNesting)) := by
  have hret := h.knows hsilent t
  rw [hpc] at hret
  replace hret : ret.toNat = (s.levels t).length := hret
  have hlength := (h.levels t).length_lt
  have hgreater : ret < s.sysArchProtectNesting ↔ (s.levels t).length + 1 < 2 ^ 32 := by
    have hnesting := h.nesting t runs
    simp only [hpc, ProtPc.counted] at hnesting
    rw [hnesting, BitVec.lt_def, hret, BitVec.toNat_ofNat]
    omega
  refine h.asserted hsilent runs hpc ?_ ?_ (fun hfails hsane => ?_) fun hholds => ?_
  · rfl
  · rfl
  · exact of_decide_eq_false hfails (hgreater.mpr hsane.2)
  · exact ⟨hret, hgreater.mp (of_decide_eq_true hholds)⟩

/-- **Step.** A call of `sys_arch_unprotect` finds the nesting positive exactly when its thread is
in a region. -/
theorem ProtInv.checkPositive {s : Prot T mutex} (h : ProtInv s) (hsilent : s.complaints = [])
    {t : T} {pval : BitVec 32} (runs : s.Runs t) (hpc : s.pc t = .checkPositive pval) :
    ProtInv (s.asserted t (.uncount pval) (.unprotect t (s.levels t).head? pval)
      "unexpected sys_arch_protect_nesting" (0 < s.sysArchProtectNesting)) := by
  have hlength := (h.levels t).length_lt
  have hpositive : 0 < s.sysArchProtectNesting ↔ s.levels t ≠ [] := by
    have hnesting := h.nesting t runs
    simp only [hpc, ProtPc.counted] at hnesting
    rw [hnesting, BitVec.lt_def, BitVec.toNat_ofNat, Nat.mod_eq_of_lt hlength,
      ← List.length_pos_iff]
    rfl
  refine h.asserted hsilent runs hpc ?_ ?_ (fun hfails hsane => ?_) fun hholds => ?_
  · rfl
  · rfl
  · have hnil : s.levels t = [] := by
      by_contra hne
      exact of_decide_eq_false hfails (hpositive.mpr hne)
    rw [hnil] at hsane
    exact Option.some_ne_none pval hsane.symm
  · exact hpositive.mp (of_decide_eq_true hholds)

/-- **Step.** A call of `sys_arch_unprotect` finds the nesting that the call it ends found. -/
theorem ProtInv.checkLevel {s : Prot T mutex} (h : ProtInv s) (hsilent : s.complaints = [])
    {t : T} {pval : BitVec 32} (runs : s.Runs t) (hpc : s.pc t = .checkLevel pval) :
    ProtInv (s.asserted t (.exit pval) (.unprotect t (s.levels t).head? pval)
      "unexpected sys_arch_protect_nesting" (s.sysArchProtectNesting = pval)) := by
  have hne := h.knows hsilent t
  rw [hpc] at hne
  obtain ⟨level, levels, hlevels⟩ := List.exists_cons_of_ne_nil hne
  have hsame : s.sysArchProtectNesting = level := by
    have hall := h.levels t
    have hnesting := h.nesting t runs
    rw [hlevels] at hall
    simp only [hpc, hlevels, ProtPc.counted, List.length_cons, Nat.add_sub_cancel] at hnesting
    rw [hnesting]
    refine BitVec.eq_of_toNat_eq ?_
    rw [BitVec.toNat_ofNat, Nat.mod_eq_of_lt hall.2.2.length_lt, hall.1]
  have hsane : (s.sysArchProtectNesting = pval) ↔
      (ProtCall.unprotect t (s.levels t).head? pval).Sane := by
    rw [hsame, hlevels]
    exact (Option.some_inj (a := level) (b := pval)).symm
  refine h.asserted hsilent runs hpc ?_ ?_ (fun hfails hmatch => ?_) fun hholds => ?_
  · rfl
  · rfl
  · exact of_decide_eq_false hfails (hsane.mpr hmatch)
  · exact hsane.mp (of_decide_eq_true hholds)

/-- **Step.** Every step before the first complaint preserves the invariant. -/
theorem ProtInv.step {s s' : Prot T mutex} {e : ProtEvent T} (h : ProtInv s)
    (hs : ProtStep s e s') (hsilent : Silent s e) : ProtInv s' := by
  cases hs with
  | protect t runs outside =>
      exact h.goto hsilent runs outside rfl rfl id (fun _ => trivial) h.complaints
  | unprotect t pval runs outside =>
      exact h.goto hsilent runs outside rfl rfl id (fun _ => trivial) h.complaints
  | enter t runs pc take => exact h.enter hsilent runs pc take
  | read t runs pc =>
      refine h.goto hsilent runs pc rfl rfl id (fun _ => ?_) h.complaints
      have hnesting := h.nesting t runs
      simp only [pc, ProtPc.counted] at hnesting
      show s.sysArchProtectNesting.toNat = (s.levels t).length
      rw [hnesting, BitVec.toNat_ofNat]
      exact Nat.mod_eq_of_lt (h.levels t).length_lt
  | @count ret t runs pc =>
      have hret := h.knows hsilent t
      rw [pc] at hret
      refine h.goto hsilent runs pc rfl rfl (fun hnesting => ?_) (fun _ => hret) h.complaints
      show s.sysArchProtectNesting + 1 = BitVec.ofNat 32 ((s.levels t).length + 1)
      rw [hnesting]
      exact (BitVec.ofNat_add _ _).symm
  | checkOverflow t runs pc => exact h.checkOverflow hsilent runs pc
  | returns t runs pc => exact h.returns hsilent runs pc
  | checkPositive t runs pc => exact h.checkPositive hsilent runs pc
  | @uncount pval t runs pc =>
      have hne := h.knows hsilent t
      rw [pc] at hne
      refine h.goto hsilent runs pc rfl rfl (fun hnesting => ?_) (fun _ => hne) h.complaints
      obtain ⟨level, levels, hlevels⟩ := List.exists_cons_of_ne_nil hne
      show s.sysArchProtectNesting - 1 = BitVec.ofNat 32 ((s.levels t).length - 1)
      simp only [ProtPc.counted, hlevels, List.length_cons, Nat.add_sub_cancel] at hnesting ⊢
      rw [hnesting, BitVec.ofNat_add]
      exact BitVec.add_sub_cancel _ _
  | checkLevel t runs pc => exact h.checkLevel hsilent runs pc
  | exit t runs pc => exact h.exit hsilent runs pc

/-- **Run.** -/
theorem protInv_of_reachable {s : Prot T mutex}
    (h : ((protSystem T mutex).restrict Silent).Reachable s) : ProtInv s := by
  refine h.invariant (fun s hinit => ?_) fun s e s' _ hinv hs => hinv.step hs.1 hs.2
  obtain ⟨howner, hnesting, hpc, hlevels, hreturned, hcomplaints⟩ := hinit
  have hzero : ∀ t, s.taken t = 0 := fun t => by
    simp [Prot.taken, hpc, hlevels, ProtPc.inside]
  refine ⟨RecursiveMutex.held_of_free howner hzero, fun t _ => ?_, fun t => ?_, fun _ t => ?_,
    by simp [hreturned], by simp [hcomplaints]⟩
  · rw [hnesting, Prot.counted_eq_zero (hzero t)]
    rfl
  · rw [hlevels]
    trivial
  · rw [hpc]
    trivial

/-! ## The result -/

/-- **Matching.** With any number of threads, in every interleaving of their calls and statements,
up to the first complaint: the protected regions exclude each other, a call that returns was as it
should be, and a call that complains was not. So `sys_arch_protect` returns how many regions its
thread was in, and `sys_arch_unprotect` complains exactly when it is not passed the value of the
innermost call of `sys_arch_protect` that its thread has not ended. -/
theorem sanityCheck_exact (mutex : RecursiveMutex T) {s : Prot T mutex}
    (h : ((protSystem T mutex).restrict Silent).Reachable s) :
    (∀ t u, s.levels t ≠ [] → s.levels u ≠ [] → t = u) ∧ (∀ c ∈ s.returned, c.Sane) ∧
      ∀ c ∈ s.complaints, ¬ c.1.Sane := by
  have hinv := protInv_of_reachable h
  have hpos : ∀ t, s.levels t ≠ [] → 0 < s.taken t := fun t ht => by
    have hlength := List.length_pos_iff.mpr ht
    rw [Prot.taken]
    omega
  exact ⟨fun t u ht hu => hinv.held.eq_of_pos (hpos t ht) (hpos u hu), hinv.returned,
    hinv.complaints⟩

end

/-- A thread that is in two regions and leaves the inner one with the value of the outer one. -/
theorem sanityCheck_exact_crossed :
    ∃ s : Prot Bool (.counting Bool),
      ((protSystem Bool (.counting Bool)).restrict Silent).Reachable s ∧
      s.complaints =
        [(.unprotect true (some 1) 0, "unexpected sys_arch_protect_nesting")] ∧
      (∀ c ∈ s.returned, c.Sane) ∧ ∀ c ∈ s.complaints, ¬ c.1.Sane := by
  have hfree {s : Prot Bool (.counting Bool)} (h : s.critical = none) : s.Runs true :=
    Prot.runs_of_free (by rw [h]; rfl)
  have howner {s : Prot Bool (.counting Bool)} {n : ℕ} (h : s.critical = some (true, n)) :
      s.Runs true := Prot.runs_of_owner (n := n + 1) (by rw [h]; rfl)
  have hstart : ((protSystem Bool (.counting Bool)).restrict Silent).Reachable
      ⟨none, 0, fun _ => .outside, fun _ => [], [], []⟩ :=
    .init ⟨rfl, rfl, fun _ => rfl, fun _ => rfl, rfl, rfl⟩
  have hcounted := (((hstart.step ⟨.protect true (hfree rfl) rfl, rfl⟩).step
    ⟨.enter true (hfree rfl) rfl rfl, rfl⟩).step ⟨.read true (howner rfl) rfl, rfl⟩).step
    ⟨.count true (howner rfl) rfl, rfl⟩
  have houter := (hcounted.step ⟨.checkOverflow true (howner rfl) rfl, rfl⟩).step
    ⟨.returns true (howner rfl) rfl, rfl⟩
  have hcounted' := (((houter.step ⟨.protect true (howner rfl) rfl, rfl⟩).step
    ⟨.enter true (howner rfl) rfl rfl, rfl⟩).step ⟨.read true (howner rfl) rfl, rfl⟩).step
    ⟨.count true (howner rfl) rfl, rfl⟩
  have hinner := (hcounted'.step ⟨.checkOverflow true (howner rfl) rfl, rfl⟩).step
    ⟨.returns true (howner rfl) rfl, rfl⟩
  have hcrossed := (((hinner.step ⟨.unprotect true 0 (howner rfl) rfl, rfl⟩).step
    ⟨.checkPositive true (howner rfl) rfl, rfl⟩).step ⟨.uncount true (howner rfl) rfl, rfl⟩).step
    ⟨.checkLevel true (howner rfl) rfl, rfl⟩
  exact ⟨_, hcrossed, rfl, (sanityCheck_exact (.counting Bool) hcrossed).2⟩

end Stm32Eth.Sys
