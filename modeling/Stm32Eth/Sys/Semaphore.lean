import Stm32Eth.Lib.Transition
import Stm32Eth.Sys.Kernel
import Mathlib.Logic.Function.Basic

/-!
# Semaphores

`sys_sem_new`, `sys_sem_signal` and `sys_arch_sem_wait` of `sys_arch.c`, on one semaphore, called by
any number of threads. The kernel's binary semaphore is a queue for one message without content.

Abstractly the semaphore is its history: which signals came and which waits succeeded. A wait
succeeds exactly when there has been a signal since the last one that did (`sem_exact`). No signal
is lost to a later wait, none wakes two, and signals without a wait between them count once.
-/

namespace Stm32Eth.Sys

open Transition

variable {queue : BoundedQueue Unit}

/-! ## The functions -/

/-- `sys_sem_new`, with the semaphore `xSemaphoreCreateBinary` returns, if any: its result, the
semaphore, and what it prints. -/
def sysSemNew (queue : BoundedQueue Unit) (created : Option queue.Carrier)
    (initialCount : BitVec 8) : SysErr × Option queue.Carrier × List String :=
  match created with
  | none =>
      (.errMem, none, lwipAssert "initial_count invalid (not 0 or 1)"
        (initialCount = 0 ∨ initialCount = 1))
  | some sem =>
      if initialCount = 1 then
        match queue.send () sem with
        | some sem =>
            (.errOk, some sem, lwipAssert "initial_count invalid (not 0 or 1)"
                (initialCount = 0 ∨ initialCount = 1) ++
              lwipAssert "sys_sem_new: initial give failed" (pdTrue = pdTrue))
        | none =>
            (.errOk, some sem, lwipAssert "initial_count invalid (not 0 or 1)"
                (initialCount = 0 ∨ initialCount = 1) ++
              lwipAssert "sys_sem_new: initial give failed" (errQueueFull = pdTrue))
      else
        (.errOk, some sem, lwipAssert "initial_count invalid (not 0 or 1)"
          (initialCount = 0 ∨ initialCount = 1))

/-- `sys_sem_signal` after `xSemaphoreGive` has returned: what it prints. -/
def sysSemSignal (ret : ℤ) : List String :=
  -- a full queue is no failure
  lwipAssert "sys_sem_signal: sane return value" (ret = pdTrue ∨ ret = errQueueFull)

/-- `sys_arch_sem_wait` after `xSemaphoreTake` has returned: its result, and what it prints. -/
def sysArchSemWait (timeoutMs : BitVec 32) (ret : ℤ) : BitVec 32 × List String :=
  if timeoutMs = 0 then (1, lwipAssert "taking semaphore failed" (ret = pdTrue))
  else if ret = errQueueEmpty then (sysArchTimeout, [])
  else (1, lwipAssert "taking semaphore failed" (ret = pdTrue))

/-! ## The machine -/

/-- What has happened to a semaphore: a signal, or a wait that succeeded. -/
inductive Signal
  | signalled
  | taken
  deriving DecidableEq, Repr

/-- A finished call of `sys_arch_sem_wait`. -/
structure Waited (T : Type*) where
  thread : T
  timeoutMs : BitVec 32
  ret : BitVec 32
  printed : List String

/-- A semaphore: the timeout of the wait each thread is in, its history, the finished waits, and what
the signals printed. -/
structure Sem (T : Type*) (queue : BoundedQueue Unit) where
  sem : queue.Carrier
  waiting : T → Option (BitVec 32)
  history : List Signal
  waits : List (Waited T)
  printed : List String

/-- The steps, by what happens: a thread signals or waits, or the kernel lets it return. -/
inductive SemEvent (T : Type*)
  | signal (t : T)
  | wait (t : T) (timeoutMs : BitVec 32)
  | return (t : T)

section

variable {T : Type*} [DecidableEq T]

/-- A wait returns. -/
def Sem.return (s : Sem T queue) (t : T) (timeoutMs : BitVec 32) (ret : ℤ) : Sem T queue :=
  { s with
    waiting := Function.update s.waiting t none
    waits := s.waits ++
      [⟨t, timeoutMs, (sysArchSemWait timeoutMs ret).1, (sysArchSemWait timeoutMs ret).2⟩] }

/-- The steps of the threads. A wait that cannot take the semaphore gives up, unless it waits without
end. -/
inductive SemStep : Sem T queue → SemEvent T → Sem T queue → Prop
  | give {s : Sem T queue} {q : queue.Carrier} (t : T) (idle : s.waiting t = none)
      (send : queue.send () s.sem = some q) :
      SemStep s (.signal t)
        { s with
          sem := q
          history := s.history ++ [.signalled]
          printed := s.printed ++ sysSemSignal pdTrue }
  | giveFull {s : Sem T queue} (t : T) (idle : s.waiting t = none)
      (full : queue.send () s.sem = none) :
      SemStep s (.signal t)
        { s with
          history := s.history ++ [.signalled]
          printed := s.printed ++ sysSemSignal errQueueFull }
  | wait {s : Sem T queue} (t : T) (timeoutMs : BitVec 32) (idle : s.waiting t = none) :
      SemStep s (.wait t timeoutMs)
        { s with waiting := Function.update s.waiting t (some timeoutMs) }
  | take {s : Sem T queue} {timeoutMs : BitVec 32} {q : queue.Carrier} (t : T)
      (waiting : s.waiting t = some timeoutMs) (receive : queue.receive s.sem = some ((), q)) :
      SemStep s (.return t)
        { s.return t timeoutMs pdTrue with
          sem := q
          history := s.history ++ [.taken] }
  | giveUp {s : Sem T queue} {timeoutMs : BitVec 32} (t : T)
      (waiting : s.waiting t = some timeoutMs) (empty : queue.receive s.sem = none)
      (ticks : timeoutTicks timeoutMs ≠ portMaxDelay) :
      SemStep s (.return t) (s.return t timeoutMs errQueueEmpty)

/-- The threads, from `sys_sem_new` on. An initial count of 1 is a first signal. -/
def semSystem (T : Type*) [DecidableEq T] (queue : BoundedQueue Unit) :
    System (Sem T queue) (SemEvent T) where
  init s := ∃ initialCount : BitVec 8, (initialCount = 0 ∨ initialCount = 1) ∧
    sysSemNew queue (some queue.empty) initialCount = (.errOk, some s.sem, s.printed) ∧
    s.history = (if initialCount = 1 then [.signalled] else []) ∧
    (∀ t, s.waiting t = none) ∧ s.waits = []
  step := SemStep

end

/-! ## The invariant -/

/-- The queue of a semaphore with this history. -/
def stored (history : List Signal) : List Unit :=
  if history.getLast? = some .signalled then [()] else []

@[simp] theorem stored_concat_signalled (history : List Signal) :
    stored (history ++ [.signalled]) = [()] := by
  simp [stored]

@[simp] theorem stored_concat_taken (history : List Signal) :
    stored (history ++ [.taken]) = [] := by
  simp [stored]

/-- Every successful wait comes right after a signal. -/
def Alternates (history : List Signal) : Prop :=
  ∀ before after, history = before ++ .taken :: after → before.getLast? = some .signalled

/-- The history goes on: a wait only succeeds right after a signal. -/
theorem Alternates.concat {history : List Signal} (h : Alternates history) {a : Signal}
    (ha : a = .taken → history.getLast? = some .signalled) : Alternates (history ++ [a]) := by
  intro before after heq
  rcases List.eq_nil_or_concat after with rfl | ⟨after, b, rfl⟩
  · obtain ⟨rfl, hlast⟩ := List.append_inj' heq rfl
    exact ha (List.head_eq_of_cons_eq hlast)
  · rw [List.concat_eq_append, ← List.cons_append, ← List.append_assoc] at heq
    obtain ⟨rfl, -⟩ := List.append_inj' heq rfl
    exact h before after rfl

/-- A finished wait reports the truth: 1 when it took the semaphore, and otherwise a timeout, which
it had. -/
def Waited.Ok {T : Type*} (c : Waited T) : Prop :=
  c.printed = [] ∧ (c.ret = 1 ∨ c.ret = sysArchTimeout ∧ timeoutTicks c.timeoutMs ≠ portMaxDelay)

/-- The waits that reported that they took the semaphore. -/
def successes {T : Type*} (waits : List (Waited T)) : ℕ := waits.countP fun c => c.ret = 1

/-- A wait that took the semaphore returns 1. -/
theorem sysArchSemWait_pdTrue (timeoutMs : BitVec 32) :
    sysArchSemWait timeoutMs pdTrue = (1, []) := by
  rw [sysArchSemWait]
  split
  · rfl
  · rfl

/-- A wait that gave up returns `SYS_ARCH_TIMEOUT`. -/
theorem sysArchSemWait_errQueueEmpty {timeoutMs : BitVec 32}
    (h : timeoutTicks timeoutMs ≠ portMaxDelay) :
    sysArchSemWait timeoutMs errQueueEmpty = (sysArchTimeout, []) := by
  have hne : timeoutMs ≠ 0 := by
    rintro rfl
    exact h rfl
  rw [sysArchSemWait, if_neg hne]
  rfl

section

variable {T : Type*}

/-- What holds in every reachable state. -/
structure SemInv (s : Sem T queue) : Prop where
  contents : queue.contents s.sem = stored s.history
  alternates : Alternates s.history
  successes : successes s.waits = s.history.count .taken
  waits : ∀ c ∈ s.waits, c.Ok
  printed : s.printed = []

variable [DecidableEq T]

/-- **Step.** -/
theorem SemInv.step (hlength : queue.length = 1) {s s' : Sem T queue} {e : SemEvent T}
    (h : SemInv s) (hs : SemStep s e s') : SemInv s' := by
  cases hs with
  | @give q t idle send =>
      obtain ⟨hcontents, hroom⟩ := queue.contents_of_send send
      have hnil : queue.contents s.sem = [] := by
        rw [hlength] at hroom
        exact List.length_eq_zero_iff.mp (by omega)
      refine ⟨?_, h.alternates.concat (by simp), ?_, h.waits, ?_⟩
      · rw [stored_concat_signalled, hcontents, hnil]
        rfl
      · simpa using h.successes
      · rw [h.printed]
        rfl
  | giveFull t idle full =>
      refine ⟨?_, h.alternates.concat (by simp), ?_, h.waits, ?_⟩
      · -- the semaphore was signalled already
        have hfull := queue.full_of_send full
        show queue.contents s.sem = _
        rw [hlength, h.contents] at hfull
        rw [stored_concat_signalled, h.contents]
        unfold stored at hfull ⊢
        split
        · rfl
        · rename_i hlast
          rw [if_neg hlast] at hfull
          exact absurd hfull (by simp)
      · simpa using h.successes
      · rw [h.printed]
        rfl
  | wait t timeoutMs idle => exact ⟨h.contents, h.alternates, h.successes, h.waits, h.printed⟩
  | @take timeoutMs q t waiting receive =>
      have hcontents := queue.contents_of_receive receive
      rw [h.contents] at hcontents
      obtain ⟨hlast, hnil⟩ : s.history.getLast? = some .signalled ∧ queue.contents q = [] := by
        unfold stored at hcontents
        split at hcontents
        · rename_i hlast
          exact ⟨hlast, (List.tail_eq_of_cons_eq hcontents).symm⟩
        · exact absurd hcontents (by simp)
      refine ⟨?_, h.alternates.concat fun _ => hlast, ?_, ?_, h.printed⟩
      · show queue.contents q = _
        rw [stored_concat_taken, hnil]
      · show Sys.successes (s.waits ++ [_]) = _
        rw [Sys.successes, List.countP_append, ← Sys.successes, h.successes, List.count_append,
          sysArchSemWait_pdTrue]
        rfl
      · show ∀ c ∈ s.waits ++ [_], c.Ok
        rw [sysArchSemWait_pdTrue]
        exact List.forall_mem_append.mpr
          ⟨h.waits, List.forall_mem_singleton.mpr ⟨rfl, .inl rfl⟩⟩
  | @giveUp timeoutMs t waiting empty ticks =>
      refine ⟨h.contents, h.alternates, ?_, ?_, h.printed⟩
      · show Sys.successes (s.waits ++ [_]) = _
        rw [Sys.successes, List.countP_append, ← Sys.successes, h.successes,
          sysArchSemWait_errQueueEmpty ticks]
        rfl
      · show ∀ c ∈ s.waits ++ [_], c.Ok
        rw [sysArchSemWait_errQueueEmpty ticks]
        exact List.forall_mem_append.mpr
          ⟨h.waits, List.forall_mem_singleton.mpr ⟨rfl, .inr ⟨rfl, ticks⟩⟩⟩

omit [DecidableEq T] in
/-- A new semaphore, without a signal or with a first one. -/
theorem sysSemNew_contents (hlength : queue.length = 1) {initialCount : BitVec 8}
    (hcount : initialCount = 0 ∨ initialCount = 1) {sem : queue.Carrier} {printed : List String}
    (h : sysSemNew queue (some queue.empty) initialCount = (.errOk, some sem, printed)) :
    queue.contents sem = stored (if initialCount = 1 then [.signalled] else []) ∧ printed = [] := by
  have hempty := queue.contents_empty
  rcases hcount with rfl | rfl
  · simp only [sysSemNew] at h
    obtain ⟨hsem, hprinted⟩ := Prod.mk.inj (Prod.mk.inj h).2
    obtain rfl := Option.some.inj hsem
    exact ⟨hempty, hprinted.symm⟩
  · obtain ⟨q, hsend, hcontents⟩ := queue.send_room () queue.empty (by rw [hempty, hlength]; simp)
    simp only [sysSemNew, hsend] at h
    obtain ⟨hsem, hprinted⟩ := Prod.mk.inj (Prod.mk.inj h).2
    obtain rfl := Option.some.inj hsem
    rw [hempty] at hcontents
    exact ⟨hcontents, hprinted.symm⟩

/-- **Run.** -/
theorem semInv_of_reachable (hlength : queue.length = 1) {s : Sem T queue}
    (h : (semSystem T queue).Reachable s) : SemInv s := by
  refine h.invariant (fun s hinit => ?_) fun s e s' _ hinv hs => hinv.step hlength hs
  obtain ⟨initialCount, hcount, hnew, hhistory, -, hwaits⟩ := hinit
  obtain ⟨hcontents, hprinted⟩ := sysSemNew_contents hlength hcount hnew
  rw [← hhistory] at hcontents
  have htaken : .taken ∉ s.history := by
    rw [hhistory]
    split <;> simp
  refine ⟨hcontents, fun before after heq => ?_, ?_, by simp [hwaits], hprinted⟩
  · exact absurd (heq ▸ List.mem_append_right _ List.mem_cons_self) htaken
  · rw [hwaits, List.count_eq_zero_of_not_mem htaken]
    rfl

/-! ## The result -/

/-- **Semaphores.** In every interleaving of the calls of any number of threads: a thread can take
the semaphore exactly when the last thing that happened to it is a signal, and every wait that
succeeded came right after one. The waits that returned 1 are as many as those that took it; the
others had a finite timeout and returned `SYS_ARCH_TIMEOUT`. No assertion is printed. -/
theorem sem_exact (queue : BoundedQueue Unit) (hlength : queue.length = 1) (s : Sem T queue)
    (h : (semSystem T queue).Reachable s) :
    ((∃ q, queue.receive s.sem = some ((), q)) ↔ s.history.getLast? = some .signalled) ∧
      (∀ before after, s.history = before ++ .taken :: after →
        before.getLast? = some .signalled) ∧
      successes s.waits = s.history.count .taken ∧ (∀ c ∈ s.waits, c.Ok) ∧ s.printed = [] := by
  have hinv := semInv_of_reachable hlength h
  refine ⟨?_, hinv.alternates, hinv.successes, hinv.waits, hinv.printed⟩
  have hcontents := hinv.contents
  rw [stored] at hcontents
  constructor
  · rintro ⟨q, hq⟩
    by_contra hlast
    rw [if_neg hlast, queue.contents_of_receive hq] at hcontents
    exact absurd hcontents (by simp)
  · intro hlast
    rw [if_pos hlast] at hcontents
    obtain ⟨q, hq, -⟩ := queue.receive_cons s.sem () [] hcontents
    exact ⟨q, hq⟩

end

/-- A semaphore that is signalled twice wakes one wait; the other one times out. -/
theorem sem_exact_one :
    ∃ s : Sem Bool (.list Unit 1), (semSystem Bool (.list Unit 1)).Reachable s ∧
      s.history = [.signalled, .signalled, .taken] ∧ s.waits.map Waited.ret = [1, sysArchTimeout] ∧
      successes s.waits = s.history.count .taken := by
  have hstart : (semSystem Bool (.list Unit 1)).Reachable ⟨[], fun _ => none, [], [], []⟩ :=
    .init ⟨0, .inl rfl, rfl, rfl, fun _ => rfl, rfl⟩
  have hsignalled := (hstart.step (.give true rfl rfl)).step (.giveFull true rfl rfl)
  have htaken := (hsignalled.step (.wait false 0 rfl)).step (.take false rfl rfl)
  have htimedOut := (htaken.step (.wait false 10 rfl)).step (.giveUp false rfl rfl (by decide))
  exact ⟨_, htimedOut, rfl, rfl, (sem_exact _ rfl _ htimedOut).2.2.1⟩

end Stm32Eth.Sys
