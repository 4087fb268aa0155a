import Stm32Eth.Lib.Transition
import Stm32Eth.Sys.Kernel
import Mathlib.Logic.Function.Basic

/-!
# Mailboxes

`sys_mbox_post`, `sys_mbox_trypost`, `sys_mbox_trypost_fromisr`, `sys_arch_mbox_fetch` and
`sys_arch_mbox_tryfetch` of `sys_arch.c`, on one mailbox, called by any number of threads and
interrupts. A call waits in the kernel until it gets through or gives up.

The callers see the queue through the return values alone. They tell the truth: the messages of the
calls that reported success come out of the calls that reported a message, once each and in order,
and a sender and a receiver never wait for each other (`mbox_exactlyOnce`).
-/

namespace Stm32Eth.Sys

open Transition

/-! ## The functions -/

/-- `SYS_MBOX_EMPTY`. -/
def sysMboxEmpty : BitVec 32 := sysArchTimeout

/-- `sys_mbox_post` after `xQueueSendToBack` has returned: what it prints. -/
def sysMboxPost (ret : ℤ) : List String := lwipAssert "mbox post failed" (ret = pdTrue)

/-- `sys_mbox_trypost` after `xQueueSendToBack` has returned. -/
def sysMboxTrypost (ret : ℤ) : SysErr × List String :=
  if ret = pdTrue then (.errOk, [])
  else (.errMem, lwipAssert "mbox trypost failed" (ret = errQueueFull))

/-- `sys_mbox_trypost_fromisr` after `xQueueSendToBackFromISR` has returned. -/
def sysMboxTrypostFromisr (ret : ℤ) (higherPriorityTaskWoken : Bool) : SysErr × List String :=
  if ret = pdTrue then
    if higherPriorityTaskWoken then (.errNeedSched, []) else (.errOk, [])
  else (.errMem, lwipAssert "mbox trypost failed" (ret = errQueueFull))

/-- `sys_arch_mbox_fetch` after `xQueueReceive` has returned and stored `received` in `*msg`: its
result, `*msg`, and what it prints. -/
def sysArchMboxFetch (timeoutMs : BitVec 32) (ret : ℤ) (received : Addr) :
    BitVec 32 × Addr × List String :=
  if timeoutMs = 0 then (1, received, lwipAssert "mbox fetch failed" (ret = pdTrue))
  else if ret = errQueueEmpty then (sysArchTimeout, NULL, [])
  else (1, received, lwipAssert "mbox fetch failed" (ret = pdTrue))

/-- `sys_arch_mbox_tryfetch`, likewise. -/
def sysArchMboxTryfetch (ret : ℤ) (received : Addr) : BitVec 32 × Addr × List String :=
  if ret = errQueueEmpty then (sysMboxEmpty, NULL, [])
  else (0, received, lwipAssert "mbox fetch failed" (ret = pdTrue))

/-! ## The machine -/

/-- A call that puts a message in. -/
inductive Post
  | post
  | trypost
  | trypostFromisr
  deriving DecidableEq, Repr

/-- A call that takes a message out. -/
inductive Fetch
  | fetch (timeoutMs : BitVec 32)
  | tryfetch
  deriving DecidableEq, Repr

/-- `xTicksToWait`. An interrupt does not wait. -/
def Post.ticks : Post → BitVec 32
  | .post => portMaxDelay
  | .trypost | .trypostFromisr => 0

def Fetch.ticks : Fetch → BitVec 32
  | .fetch timeoutMs => timeoutTicks timeoutMs
  | .tryfetch => 0

/-- A finished call that puts a message in: its result, of a function that has one, and what it
printed. -/
structure Posted (T : Type*) where
  thread : T
  call : Post
  msg : Addr
  ret : Option SysErr
  printed : List String

/-- A finished call that takes a message out: its result, `*msg`, and what it printed. -/
structure Fetched (T : Type*) where
  thread : T
  call : Fetch
  ret : BitVec 32
  msg : Addr
  printed : List String

/-- The return of a call that puts a message in. -/
def Post.return {T : Type*} (call : Post) (t : T) (msg : Addr) (ret : ℤ) (woken : Bool) :
    Posted T :=
  match call with
  | .post => ⟨t, call, msg, none, sysMboxPost ret⟩
  | .trypost => ⟨t, call, msg, some (sysMboxTrypost ret).1, (sysMboxTrypost ret).2⟩
  | .trypostFromisr =>
      ⟨t, call, msg, some (sysMboxTrypostFromisr ret woken).1, (sysMboxTrypostFromisr ret woken).2⟩

/-- The return of a call that takes a message out. -/
def Fetch.return {T : Type*} (call : Fetch) (t : T) (ret : ℤ) (received : Addr) : Fetched T :=
  match call with
  | .fetch timeoutMs =>
      ⟨t, call, (sysArchMboxFetch timeoutMs ret received).1,
        (sysArchMboxFetch timeoutMs ret received).2.1,
        (sysArchMboxFetch timeoutMs ret received).2.2⟩
  | .tryfetch =>
      ⟨t, call, (sysArchMboxTryfetch ret received).1, (sysArchMboxTryfetch ret received).2.1,
        (sysArchMboxTryfetch ret received).2.2⟩

/-- A call that is in the kernel. -/
inductive Pending
  | post (call : Post) (msg : Addr)
  | fetch (call : Fetch)
  deriving DecidableEq, Repr

/-- A mailbox: its queue, the call each thread is in, and the finished calls. -/
structure Mbox (T : Type*) (queue : BoundedQueue Addr) where
  mbx : queue.Carrier
  pending : T → Option Pending
  posted : List (Posted T)
  fetched : List (Fetched T)

/-- The steps, by what happens: a thread calls, or the kernel lets it return. -/
inductive MboxEvent (T : Type*)
  | call (t : T) (call : Pending)
  | return (t : T)

section

variable {T : Type*} [DecidableEq T] {queue : BoundedQueue Addr}

/-- A thread leaves the kernel. -/
def Mbox.leave (s : Mbox T queue) (t : T) : Mbox T queue :=
  { s with pending := Function.update s.pending t none }

/-- The steps of the threads and interrupts. A call that cannot get through gives up, unless it waits
without end. What a failed `xQueueReceive` leaves in `*msg` is arbitrary. -/
inductive MboxStep : Mbox T queue → MboxEvent T → Mbox T queue → Prop
  | call {s : Mbox T queue} (t : T) (call : Pending) (idle : s.pending t = none) :
      MboxStep s (.call t call) { s with pending := Function.update s.pending t (some call) }
  | send {s : Mbox T queue} {call : Post} {msg : Addr} {q : queue.Carrier} (t : T) (woken : Bool)
      (pending : s.pending t = some (.post call msg)) (send : queue.send msg s.mbx = some q) :
      MboxStep s (.return t)
        { s.leave t with
          mbx := q
          posted := s.posted ++ [call.return t msg pdTrue woken] }
  | full {s : Mbox T queue} {call : Post} {msg : Addr} (t : T) (woken : Bool)
      (pending : s.pending t = some (.post call msg)) (full : queue.send msg s.mbx = none)
      (ticks : call.ticks ≠ portMaxDelay) :
      MboxStep s (.return t)
        { s.leave t with posted := s.posted ++ [call.return t msg errQueueFull woken] }
  | receive {s : Mbox T queue} {call : Fetch} {msg : Addr} {q : queue.Carrier} (t : T)
      (pending : s.pending t = some (.fetch call)) (receive : queue.receive s.mbx = some (msg, q)) :
      MboxStep s (.return t)
        { s.leave t with
          mbx := q
          fetched := s.fetched ++ [call.return t pdTrue msg] }
  | empty {s : Mbox T queue} {call : Fetch} (t : T) (garbage : Addr)
      (pending : s.pending t = some (.fetch call)) (empty : queue.receive s.mbx = none)
      (ticks : call.ticks ≠ portMaxDelay) :
      MboxStep s (.return t)
        { s.leave t with fetched := s.fetched ++ [call.return t errQueueEmpty garbage] }

/-- The threads and interrupts, from a new mailbox on. -/
def mboxSystem (T : Type*) [DecidableEq T] (queue : BoundedQueue Addr) :
    System (Mbox T queue) (MboxEvent T) where
  init s := queue.contents s.mbx = [] ∧ (∀ t, s.pending t = none) ∧ s.posted = [] ∧ s.fetched = []
  step := MboxStep

end

/-! ## What the callers see -/

/-- The message of a call that reported that it got in. -/
def Posted.accepted {T : Type*} (c : Posted T) : Option Addr :=
  if c.ret = some .errMem then none else some c.msg

/-- The message of a call that reported one. -/
def Fetched.delivered {T : Type*} (c : Fetched T) : Option Addr :=
  if c.ret = sysArchTimeout then none else some c.msg

/-- What a call reports when its message got in. -/
theorem Post.return_pdTrue {T : Type*} (call : Post) (t : T) (msg : Addr) (woken : Bool) :
    (call.return t msg pdTrue woken).accepted = some msg ∧
      (call.return t msg pdTrue woken).printed = [] := by
  cases call with
  | post => exact ⟨rfl, rfl⟩
  | trypost => exact ⟨rfl, rfl⟩
  | trypostFromisr => cases woken <;> exact ⟨rfl, rfl⟩

/-- What a call that does not wait without end reports when it gives up. -/
theorem Post.return_errQueueFull {T : Type*} {call : Post} (h : call.ticks ≠ portMaxDelay) (t : T)
    (msg : Addr) (woken : Bool) :
    (call.return t msg errQueueFull woken).accepted = none ∧
      (call.return t msg errQueueFull woken).printed = [] := by
  cases call with
  | post => exact absurd rfl h
  | trypost => exact ⟨rfl, rfl⟩
  | trypostFromisr => exact ⟨rfl, rfl⟩

/-- What a call reports when it got a message. -/
theorem Fetch.return_pdTrue {T : Type*} (call : Fetch) (t : T) (msg : Addr) :
    (call.return t pdTrue msg).delivered = some msg ∧
      (call.return t pdTrue msg).printed = [] := by
  cases call with
  | fetch timeoutMs =>
      rw [Fetch.return, sysArchMboxFetch]
      split
      · exact ⟨rfl, rfl⟩
      · exact ⟨rfl, rfl⟩
  | tryfetch => exact ⟨rfl, rfl⟩

/-- A call that gives up has a timeout, reports it and stores a null pointer. -/
def Fetched.TimedOut {T : Type*} (c : Fetched T) : Prop :=
  c.msg = NULL ∧ c.call.ticks ≠ portMaxDelay

/-- What a call that does not wait without end reports when it gives up. -/
theorem Fetch.return_errQueueEmpty {T : Type*} {call : Fetch} (h : call.ticks ≠ portMaxDelay)
    (t : T) (garbage : Addr) :
    (call.return t errQueueEmpty garbage).delivered = none ∧
      (call.return t errQueueEmpty garbage).printed = [] ∧
      (call.return t errQueueEmpty garbage).TimedOut := by
  cases call with
  | fetch timeoutMs =>
      have hne : timeoutMs ≠ 0 := by
        rintro rfl
        exact h rfl
      rw [Fetch.return, sysArchMboxFetch, if_neg hne]
      exact ⟨rfl, rfl, rfl, h⟩
  | tryfetch => exact ⟨rfl, rfl, rfl, h⟩

/-! ## The invariant -/

section

variable {T : Type*} {queue : BoundedQueue Addr}

/-- What holds in every reachable state. -/
structure MboxInv (s : Mbox T queue) : Prop where
  fifo : s.posted.filterMap Posted.accepted =
    s.fetched.filterMap Fetched.delivered ++ queue.contents s.mbx
  posted_quiet : ∀ c ∈ s.posted, c.printed = []
  fetched_quiet : ∀ c ∈ s.fetched, c.printed = []
  timedOut : ∀ c ∈ s.fetched, c.delivered = none → c.TimedOut

variable [DecidableEq T]

/-- **Step.** -/
theorem MboxInv.step {s s' : Mbox T queue} {e : MboxEvent T} (h : MboxInv s)
    (hs : MboxStep s e s') : MboxInv s' := by
  cases hs with
  | call t call idle => exact ⟨h.fifo, h.posted_quiet, h.fetched_quiet, h.timedOut⟩
  | @send call msg q t woken pending send =>
      obtain ⟨haccepted, hquiet⟩ := call.return_pdTrue t msg woken
      have hcontents := (queue.contents_of_send send).1
      refine ⟨?_, List.forall_mem_append.mpr ⟨h.posted_quiet, List.forall_mem_singleton.mpr hquiet⟩,
        h.fetched_quiet, h.timedOut⟩
      show (s.posted ++ [_]).filterMap _ = s.fetched.filterMap _ ++ queue.contents q
      rw [List.filterMap_append, h.fifo, hcontents, List.append_assoc]
      simp [haccepted]
  | @full call msg t woken pending full ticks =>
      obtain ⟨haccepted, hquiet⟩ := Post.return_errQueueFull ticks t msg woken
      refine ⟨?_, List.forall_mem_append.mpr ⟨h.posted_quiet, List.forall_mem_singleton.mpr hquiet⟩,
        h.fetched_quiet, h.timedOut⟩
      show (s.posted ++ [_]).filterMap _ = s.fetched.filterMap _ ++ queue.contents s.mbx
      rw [List.filterMap_append, h.fifo]
      simp [haccepted]
  | @receive call msg q t pending receive =>
      obtain ⟨hdelivered, hquiet⟩ := call.return_pdTrue t msg
      have hcontents := queue.contents_of_receive receive
      refine ⟨?_, h.posted_quiet,
        List.forall_mem_append.mpr ⟨h.fetched_quiet, List.forall_mem_singleton.mpr hquiet⟩,
        List.forall_mem_append.mpr ⟨h.timedOut, List.forall_mem_singleton.mpr fun hnone => ?_⟩⟩
      · have hfifo := h.fifo
        rw [hcontents] at hfifo
        show s.posted.filterMap _ = (s.fetched ++ [_]).filterMap _ ++ queue.contents q
        rw [hfifo, List.filterMap_append, List.append_assoc]
        simp [hdelivered]
      · rw [hdelivered] at hnone
        exact absurd hnone (Option.some_ne_none _)
  | @empty call t garbage pending empty ticks =>
      obtain ⟨hdelivered, hquiet, htimedOut⟩ := Fetch.return_errQueueEmpty ticks t garbage
      refine ⟨?_, h.posted_quiet,
        List.forall_mem_append.mpr ⟨h.fetched_quiet, List.forall_mem_singleton.mpr hquiet⟩,
        List.forall_mem_append.mpr
          ⟨h.timedOut, List.forall_mem_singleton.mpr fun _ => htimedOut⟩⟩
      show s.posted.filterMap _ = (s.fetched ++ [_]).filterMap _ ++ queue.contents s.mbx
      rw [List.filterMap_append, h.fifo]
      simp [hdelivered]

/-- **Run.** -/
theorem mboxInv_of_reachable {s : Mbox T queue} (h : (mboxSystem T queue).Reachable s) :
    MboxInv s := by
  refine h.invariant (fun s hinit => ?_) fun s e s' _ hinv hs => hinv.step hs
  obtain ⟨hcontents, -, hposted, hfetched⟩ := hinit
  exact ⟨by simp [hcontents, hposted, hfetched], by simp [hposted], by simp [hfetched],
    by simp [hfetched]⟩

/-! ## The results -/

/-- While one thread waits to put a message in and another one to take one out, one of them can
return, unless the mailbox was created without room. -/
theorem exists_return (hlength : 0 < queue.length) {s : Mbox T queue} {t u : T} {p : Post}
    {msg : Addr} {f : Fetch} (hpost : s.pending t = some (.post p msg))
    (hfetch : s.pending u = some (.fetch f)) :
    ∃ s', MboxStep s (.return t) s' ∨ MboxStep s (.return u) s' := by
  rcases queue.exists_send_or_receive hlength msg s.mbx with ⟨q, hq⟩ | ⟨m, q, hq⟩
  · exact ⟨_, .inl (.send t false hpost hq)⟩
  · exact ⟨_, .inr (.receive u hfetch hq)⟩

/-- **Mailboxes.** In every interleaving of the calls of any number of threads and interrupts: the
messages of the calls that reported success are those of the calls that reported a message, once
each and in the same order, followed by what is left in the queue. A call that reports no message
has a finite timeout and stores a null pointer, and no call prints an assertion. A thread that waits
to put a message in and one that waits to take one out do not wait for each other. -/
theorem mbox_exactlyOnce (queue : BoundedQueue Addr) (hlength : 0 < queue.length)
    (s : Mbox T queue) (h : (mboxSystem T queue).Reachable s) :
    s.posted.filterMap Posted.accepted =
        s.fetched.filterMap Fetched.delivered ++ queue.contents s.mbx ∧
      (∀ c ∈ s.fetched, c.delivered = none → c.msg = NULL ∧ c.call.ticks ≠ portMaxDelay) ∧
      (∀ c ∈ s.posted, c.printed = []) ∧ (∀ c ∈ s.fetched, c.printed = []) ∧
      ∀ t u p msg f, s.pending t = some (.post p msg) → s.pending u = some (.fetch f) →
        ∃ s', MboxStep s (.return t) s' ∨ MboxStep s (.return u) s' := by
  have hinv := mboxInv_of_reachable h
  exact ⟨hinv.fifo, hinv.timedOut, hinv.posted_quiet, hinv.fetched_quiet,
    fun _ _ _ _ _ hpost hfetch => exists_return hlength hpost hfetch⟩

end

/-- A mailbox for one message: the second one is refused, and the first one comes out. -/
theorem mbox_exactlyOnce_one :
    ∃ s : Mbox Bool (.list Addr 1), (mboxSystem Bool (.list Addr 1)).Reachable s ∧
      s.posted.map Posted.ret = [none, some .errMem] ∧
      s.fetched.map Fetched.ret = [1] ∧
      s.posted.filterMap Posted.accepted = s.fetched.filterMap Fetched.delivered ++ [] := by
  have hstart : (mboxSystem Bool (.list Addr 1)).Reachable ⟨[], fun _ => none, [], []⟩ :=
    .init ⟨rfl, fun _ => rfl, rfl, rfl⟩
  have hposted := (hstart.step (.call true (.post .post 0x20000000) rfl)).step
    (.send true false rfl rfl)
  have hrefused := (hposted.step (.call true (.post .trypost 0x20000100) rfl)).step
    (.full true false rfl rfl (by decide))
  have hfetched := (hrefused.step (.call false (.fetch (.fetch 0)) rfl)).step
    (.receive false rfl rfl)
  exact ⟨_, hfetched, rfl, rfl, (mbox_exactlyOnce _ Nat.one_pos _ hfetched).1⟩

end Stm32Eth.Sys
