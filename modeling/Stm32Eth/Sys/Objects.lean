import Stm32Eth.Lib.Holders
import Stm32Eth.Sys.Semaphore

/-!
# Handles of kernel objects

lwIP keeps a mutex, a semaphore or a mailbox in a handle, a structure with one pointer to the
kernel's object. `sys_mutex_new`, `sys_sem_new` and `sys_mbox_new` of `sys_arch.c` create the
object, which may fail, `sys_*_free` deletes it, and `sys_*_valid` and `sys_*_set_invalid` of
`sys_arch.h` test and clear the pointer. `ObjStep` runs them on any number of handles, as lwIP does:
an object is created or a handle invalidated only where no object would be lost, and an object is
freed only through a handle that tests valid.

`sys_mutex_free` and `sys_sem_free` clear the pointer, and `sys_mbox_free` does not. A mailbox that
was freed therefore still tests valid, and its pointer may by now be that of somebody else's object.
Freeing it again is the only way to delete an object that is not the handle's own
(`objects_sound`).
-/

namespace Stm32Eth.Sys

open Holders Transition

/-! ## The functions -/

/-- The kind of a handle. -/
inductive ObjKind
  | mutex
  | sem
  | mbox
  deriving DecidableEq, Repr

/-- What was last done with a handle. -/
inductive ObjCall
  | new
  | free
  | setInvalid
  deriving DecidableEq, Repr

/-- A `sys_*_new` function that prints `asserts`, with the object the kernel has created, `NULL` if
none: its result, the handle's pointer, and what it prints. -/
def sysNew (asserts : List String) (created : Addr) : SysErr × Addr × List String :=
  (if created = NULL then .errMem else .errOk, created, asserts)

/-- `sys_mutex_new`. -/
def sysMutexNew (mutex created : Addr) : SysErr × Addr × List String :=
  sysNew (lwipAssert "mutex != NULL" (mutex ≠ NULL)) created

/-- `sys_mbox_new`. -/
def sysMboxNew (mbox : Addr) (size : ℤ) (created : Addr) : SysErr × Addr × List String :=
  sysNew (lwipAssert "mbox != NULL" (mbox ≠ NULL) ++ lwipAssert "size > 0" (0 < size)) created

/-- `sys_sem_new` on the handle `sem`. What it does to the semaphore is `sysSemNew`. -/
def sysSemNewHandle (queue : BoundedQueue Unit) (sem : Addr) (initialCount : BitVec 8)
    (created : Addr) : SysErr × Addr × List String :=
  let new := sysSemNew queue (if created = NULL then none else some queue.empty) initialCount
  (new.1, created, lwipAssert "sem != NULL" (sem ≠ NULL) ++ new.2.2)

/-- A `sys_*_free` function with these messages, on the handle `p` with the pointer `handle`: what
it prints, and the pointer when it has deleted the object, which it clears or not. -/
def sysFree (notNull memberNotNull : String) (clears : Bool) (p handle : Addr) :
    List String × Addr :=
  (lwipAssert notNull (p ≠ NULL) ++ lwipAssert memberNotNull (handle ≠ NULL),
    if clears then NULL else handle)

/-- `sys_mutex_free`. -/
def sysMutexFree (mutex handle : Addr) : List String × Addr :=
  sysFree "mutex != NULL" "mutex->mut != NULL" true mutex handle

/-- `sys_sem_free`. -/
def sysSemFree (sem handle : Addr) : List String × Addr :=
  sysFree "sem != NULL" "sem->sem != NULL" true sem handle

/-- `sys_mbox_free`. With `LWIP_FREERTOS_CHECK_QUEUE_EMPTY_ON_FREE` it looks at the messages that
wait. -/
def sysMboxFree (msgsWaiting : Option ℕ) (mbox handle : Addr) : List String × Addr :=
  let free := sysFree "mbox != NULL" "mbox->mbx != NULL" false mbox handle
  (free.1 ++ msgsWaiting.elim [] fun n => lwipAssert "mbox quence not empty" (n = 0), free.2)

/-- `sys_mutex_valid`, `sys_sem_valid` and `sys_mbox_valid`. -/
def sysValid (mem : Addr → Addr) (p : Addr) : Bool := p ≠ NULL ∧ mem p ≠ NULL

/-- A call of a `sys_*_new` function. -/
inductive NewCall
  | mutex
  | sem (initialCount : BitVec 8)
  | mbox (size : ℤ)
  deriving DecidableEq, Repr

/-- Its kind. -/
def NewCall.kind : NewCall → ObjKind
  | .mutex => .mutex
  | .sem _ => .sem
  | .mbox _ => .mbox

/-- Its result, the handle's pointer, and what it prints. -/
def NewCall.run (queue : BoundedQueue Unit) (p created : Addr) :
    NewCall → SysErr × Addr × List String
  | .mutex => sysMutexNew p created
  | .sem initialCount => sysSemNewHandle queue p initialCount created
  | .mbox size => sysMboxNew p size created

/-- The arguments the functions do not accept. -/
def NewCall.bad : NewCall → Bool
  | .mutex => false
  | .sem initialCount => initialCount ≠ 0 ∧ initialCount ≠ 1
  | .mbox size => size ≤ 0

/-- A call of a `sys_*_free` function. -/
inductive FreeCall
  | mutex
  | sem
  | mbox (msgsWaiting : Option ℕ)
  deriving DecidableEq, Repr

/-- Its kind. -/
def FreeCall.kind : FreeCall → ObjKind
  | .mutex => .mutex
  | .sem => .sem
  | .mbox _ => .mbox

/-- What it prints, and the handle's pointer after it. -/
def FreeCall.run (p handle : Addr) : FreeCall → List String × Addr
  | .mutex => sysMutexFree p handle
  | .sem => sysSemFree p handle
  | .mbox msgsWaiting => sysMboxFree msgsWaiting p handle

/-- A mailbox with messages is not to be freed. -/
def FreeCall.bad : FreeCall → Bool
  | .mbox (some n) => n ≠ 0
  | _ => false

/-! ## The machine -/

/-- An address, unless it is null. -/
def ofAddr (a : Addr) : Option Addr := if a = NULL then none else some a

theorem ofAddr_of_ne {a : Addr} (h : a ≠ NULL) : ofAddr a = some a := if_neg h

theorem ofAddr_of_eq {a : Addr} (h : a = NULL) : ofAddr a = none := if_pos h

theorem ofAddr_eq_some {a b : Addr} : ofAddr a = some b ↔ a = b ∧ b ≠ NULL := by
  by_cases h : a = NULL
  · rw [ofAddr_of_eq h]
    refine iff_of_false (by simp) ?_
    rintro ⟨rfl, hne⟩
    exact hne h
  · rw [ofAddr_of_ne h, Option.some.injEq]
    constructor
    · rintro rfl
      exact ⟨rfl, h⟩
    · exact And.left

/-- The pointers of the handles, the kernel's objects, the last call on each handle that is one,
and what was printed. Of the history: whether every object that was deleted was the handle's own,
whether a mailbox was freed right after it was freed, and whether a call had bad arguments. -/
structure Objects where
  mem : Addr → Addr
  live : Finset Addr
  last : Addr → Option (ObjKind × ObjCall)
  printed : List String
  sound : Bool
  again : Bool
  bad : Bool

/-- The object that was created for a handle, when nothing was done with the handle since. -/
def Objects.owned (s : Objects) (p : Addr) : Option Addr :=
  match s.last p with
  | some (_, .new) => ofAddr (s.mem p)
  | _ => none

/-- The steps, by the handle and the call. -/
inductive ObjEvent
  | call (p : Addr) (kind : ObjKind) (call : ObjCall)
  | other (p : Addr)
  deriving DecidableEq, Repr

/-- The calls on the handles. -/
inductive ObjStep (queue : BoundedQueue Unit) : Objects → ObjEvent → Objects → Prop
  /-- An object is created, or `created` is `NULL`. -/
  | new {s : Objects} {p created : Addr} (c : NewCall) (ne : p ≠ NULL) (unowned : s.owned p = none)
      (answer : created = NULL ∨ created ∉ s.live) :
      ObjStep queue s (.call p c.kind .new)
        { s with
          mem := Function.update s.mem p (c.run queue p created).2.1
          live := if created = NULL then s.live else insert created s.live
          last := Function.update s.last p (some (c.kind, .new))
          printed := s.printed ++ (c.run queue p created).2.2
          bad := s.bad || c.bad }
  /-- The object a valid handle points to is deleted. -/
  | free {s : Objects} {p : Addr} {call : ObjCall} (c : FreeCall)
      (known : s.last p = some (c.kind, call)) (valid : sysValid s.mem p) :
      ObjStep queue s (.call p c.kind .free)
        { s with
          mem := Function.update s.mem p (c.run p (s.mem p)).2
          live := s.live.erase (s.mem p)
          last := Function.update s.last p (some (c.kind, .free))
          printed := s.printed ++ (c.run p (s.mem p)).1
          sound := s.sound && decide (s.owned p = some (s.mem p))
          again := s.again || decide (s.last p = some (.mbox, .free))
          bad := s.bad || c.bad }
  /-- The pointer is cleared. -/
  | setInvalid {s : Objects} {p : Addr} (kind : ObjKind) (ne : p ≠ NULL)
      (unowned : s.owned p = none) :
      ObjStep queue s (.call p kind .setInvalid)
        { s with
          mem := Function.update s.mem p NULL
          last := Function.update s.last p (some (kind, .setInvalid)) }
  /-- lwIP uses the memory of the handle for something else. -/
  | other {s : Objects} {p : Addr} (a : Addr) (unowned : s.owned p = none) :
      ObjStep queue s (.other p)
        { s with
          mem := Function.update s.mem p a
          last := Function.update s.last p none }

/-- The handles, from a memory without handles on. -/
def objectSystem (queue : BoundedQueue Unit) : System Objects ObjEvent where
  init s := s.live = ∅ ∧ (∀ p, s.last p = none) ∧ s.printed = [] ∧ s.sound = true ∧
    s.again = false ∧ s.bad = false
  step := ObjStep queue

/-! ## What is printed -/

/-- An assertion that holds prints nothing. -/
theorem lwipAssert_of (message : String) {p : Prop} [Decidable p] (h : p) :
    lwipAssert message p = [] := by
  rw [decide_eq_true h]
  rfl

/-- An assertion that fails prints its message. -/
theorem lwipAssert_of_not (message : String) {p : Prop} [Decidable p] (h : ¬ p) :
    lwipAssert message p = [message] := by
  rw [decide_eq_false h]
  rfl

/-- An assertion prints nothing exactly when it holds. -/
theorem lwipAssert_eq_nil (message : String) {p : Prop} [Decidable p] :
    lwipAssert message p = [] ↔ p := by
  by_cases h : p
  · rw [lwipAssert_of message h]
    exact iff_of_true rfl h
  · rw [lwipAssert_of_not message h]
    exact iff_of_false (by simp) h

variable {queue : BoundedQueue Unit}

/-- `sys_sem_new` complains exactly about an initial count other than 0 and 1. -/
theorem sysSemNew_printed (hlength : queue.length = 1) (created : Option queue.Carrier)
    (hcreated : created = none ∨ created = some queue.empty) (initialCount : BitVec 8) :
    (sysSemNew queue created initialCount).2.2 = [] ↔ initialCount = 0 ∨ initialCount = 1 := by
  rcases hcreated with rfl | rfl
  · exact lwipAssert_eq_nil _
  · by_cases hone : initialCount = 1
    · obtain ⟨q, hsend, -⟩ := queue.send_room () queue.empty (by
        rw [queue.contents_empty, hlength]
        exact Nat.one_pos)
      simp only [sysSemNew, if_pos hone, hsend]
      rw [lwipAssert_of _ (.inr hone)]
      exact iff_of_true rfl (.inr hone)
    · simp only [sysSemNew, if_neg hone]
      exact lwipAssert_eq_nil _

/-- `sys_*_new` on a handle complains exactly about bad arguments. -/
theorem NewCall.printed_eq_nil (hlength : queue.length = 1) (c : NewCall) {p : Addr} (ne : p ≠ NULL)
    (created : Addr) : (c.run queue p created).2.2 = [] ↔ c.bad = false := by
  cases c with
  | mutex =>
      show lwipAssert "mutex != NULL" (p ≠ NULL) = [] ↔ false = false
      rw [lwipAssert_eq_nil]
      exact iff_of_true ne rfl
  | sem initialCount =>
      show lwipAssert "sem != NULL" (p ≠ NULL) ++ (sysSemNew queue _ initialCount).2.2 = [] ↔
        decide (initialCount ≠ 0 ∧ initialCount ≠ 1) = false
      rw [lwipAssert_of _ ne, List.nil_append, sysSemNew_printed hlength, decide_eq_false_iff_not]
      · tauto
      · by_cases hnull : created = NULL
        · exact .inl (if_pos hnull)
        · exact .inr (if_neg hnull)
  | mbox size =>
      show lwipAssert "mbox != NULL" (p ≠ NULL) ++ lwipAssert "size > 0" (0 < size) = [] ↔
        decide (size ≤ 0) = false
      rw [lwipAssert_of _ ne, List.nil_append, lwipAssert_eq_nil, decide_eq_false_iff_not, not_le]

/-- `sys_*_free` on a valid handle complains exactly about a mailbox with messages. -/
theorem FreeCall.printed_eq_nil (c : FreeCall) {p handle : Addr} (ne : p ≠ NULL)
    (hne : handle ≠ NULL) : (c.run p handle).1 = [] ↔ c.bad = false := by
  cases c with
  | mutex =>
      show lwipAssert _ (p ≠ NULL) ++ lwipAssert _ (handle ≠ NULL) = [] ↔ false = false
      rw [lwipAssert_of _ ne, lwipAssert_of _ hne]
      exact iff_of_true rfl rfl
  | sem =>
      show lwipAssert _ (p ≠ NULL) ++ lwipAssert _ (handle ≠ NULL) = [] ↔ false = false
      rw [lwipAssert_of _ ne, lwipAssert_of _ hne]
      exact iff_of_true rfl rfl
  | mbox msgsWaiting =>
      show lwipAssert _ (p ≠ NULL) ++ lwipAssert _ (handle ≠ NULL) ++ msgsWaiting.elim [] _ = [] ↔ _
      rw [lwipAssert_of _ ne, lwipAssert_of _ hne]
      cases msgsWaiting with
      | none => exact iff_of_true rfl rfl
      | some n =>
          show lwipAssert "mbox quence not empty" (n = 0) = [] ↔ decide (n ≠ 0) = false
          rw [lwipAssert_eq_nil, decide_eq_false_iff_not, not_not]

/-- A call prints, or its arguments are fine. -/
theorem printed_append_of_iff {printed new : List String} {bad bad' : Bool}
    (h : printed = [] ↔ bad = false) (hnew : new = [] ↔ bad' = false) :
    printed ++ new = [] ↔ (bad || bad') = false := by
  rw [List.append_eq_nil_iff, h, hnew, Bool.or_eq_false_iff]

/-! ## The invariant -/

/-- What holds in every reachable state. As long as only own objects were deleted, the kernel's
objects are exactly those the handles own; and a handle that tests valid without owning an object is
a mailbox that was freed last. -/
structure ObjInv (s : Objects) : Prop where
  ne : ∀ p kind call, s.last p = some (kind, call) → p ≠ NULL
  freed : ∀ p, s.last p = some (.mbox, .free) → s.mem p ≠ NULL
  sound : s.sound = true ↔ s.again = false
  owned : s.sound = true → Exactly s.owned (s.live : Set Addr)
  stale : ∀ p kind call, s.last p = some (kind, call) → s.mem p ≠ NULL →
    s.owned p = some (s.mem p) ∨ kind = .mbox ∧ call = .free
  printed : s.printed = [] ↔ s.bad = false

/-- The other handles own what they owned. -/
theorem Objects.owned_of_ne {s s' : Objects} {p : Addr}
    (hmem : ∀ q, q ≠ p → s'.mem q = s.mem q) (hlast : ∀ q, q ≠ p → s'.last q = s.last q) (q : Addr)
    (hq : q ≠ p) : s'.owned q = s.owned q := by
  unfold Objects.owned
  rw [hmem q hq, hlast q hq]

/-- What a handle owns is its pointer. -/
theorem Objects.owned_eq {s : Objects} {p a : Addr} (h : s.owned p = some a) :
    s.mem p = a ∧ a ≠ NULL := by
  unfold Objects.owned at h
  split at h
  · exact ofAddr_eq_some.mp h
  · exact absurd h (by simp)

/-- The pointer after a `sys_*_new` call. -/
theorem NewCall.run_handle (c : NewCall) (p created : Addr) :
    (c.run queue p created).2.1 = created := by
  cases c with
  | mutex => rfl
  | sem initialCount => rfl
  | mbox size => rfl

/-- The pointer after a `sys_*_free` call: `sys_mbox_free` leaves it. -/
theorem FreeCall.run_handle (c : FreeCall) (p handle : Addr) :
    (c.run p handle).2 = if c.kind = .mbox then handle else NULL := by
  cases c with
  | mutex => rfl
  | sem => rfl
  | mbox msgsWaiting => rfl

namespace ObjInv

variable {s s' : Objects} {p : Addr}

/-- A call on a handle that keeps the others, by what holds of this handle after it. -/
theorem of_call (h : ObjInv s) (hmem : ∀ q, q ≠ p → s'.mem q = s.mem q)
    (hlast : ∀ q, q ≠ p → s'.last q = s.last q)
    (hp : ∀ kind call, s'.last p = some (kind, call) → p ≠ NULL ∧
      (kind = .mbox ∧ call = .free → s'.mem p ≠ NULL) ∧
      (s'.mem p ≠ NULL → s'.owned p = some (s'.mem p) ∨ kind = .mbox ∧ call = .free))
    (hsound : s'.sound = true ↔ s'.again = false)
    (howned : s'.sound = true → Exactly s'.owned (s'.live : Set Addr))
    (hprinted : s'.printed = [] ↔ s'.bad = false) : ObjInv s' where
  ne q kind call hq := by
    by_cases hqp : q = p
    · rw [hqp] at hq ⊢
      exact (hp kind call hq).1
    · exact h.ne q kind call ((hlast q hqp).symm.trans hq)
  freed q hq := by
    by_cases hqp : q = p
    · rw [hqp] at hq ⊢
      exact (hp _ _ hq).2.1 ⟨rfl, rfl⟩
    · rw [hmem q hqp]
      exact h.freed q ((hlast q hqp).symm.trans hq)
  sound := hsound
  owned := howned
  stale q kind call hq hne := by
    by_cases hqp : q = p
    · rw [hqp] at hq hne ⊢
      exact (hp kind call hq).2.2 hne
    · rw [hmem q hqp] at hne ⊢
      rw [Objects.owned_of_ne hmem hlast q hqp]
      exact h.stale q kind call ((hlast q hqp).symm.trans hq) hne
  printed := hprinted

/-- A handle that owns nothing changes, and owns nothing. -/
theorem forget (h : ObjInv s) (hmem : ∀ q, q ≠ p → s'.mem q = s.mem q)
    (hlast : ∀ q, q ≠ p → s'.last q = s.last q) (unowned : s.owned p = none)
    (howned : s'.owned p = none) (hlive : s'.live = s.live) (hsound : s'.sound = s.sound) :
    s'.sound = true → Exactly s'.owned (s'.live : Set Addr) := by
  intro hs
  rw [hlive]
  apply (h.owned (hsound ▸ hs)).congr
  intro q
  by_cases hqp : q = p
  · rw [hqp, howned, unowned]
  · exact Objects.owned_of_ne hmem hlast q hqp

/-- An object is created for a handle. -/
theorem new (h : ObjInv s) (hlength : queue.length = 1) {created : Addr} (c : NewCall)
    (ne : p ≠ NULL) (unowned : s.owned p = none) (answer : created = NULL ∨ created ∉ s.live)
    (hs' : s' = { s with
      mem := Function.update s.mem p (c.run queue p created).2.1
      live := if created = NULL then s.live else insert created s.live
      last := Function.update s.last p (some (c.kind, .new))
      printed := s.printed ++ (c.run queue p created).2.2
      bad := s.bad || c.bad }) : ObjInv s' := by
  have hmemp : s'.mem p = created := by
    rw [hs']
    exact (Function.update_self p _ s.mem).trans (c.run_handle p created)
  have hlastp : s'.last p = some (c.kind, .new) := by
    rw [hs']
    exact Function.update_self p _ s.last
  have hownedp : s'.owned p = ofAddr created := by
    unfold Objects.owned
    rw [hlastp, hmemp]
  have hmem : ∀ q, q ≠ p → s'.mem q = s.mem q := by
    intro q hq
    rw [hs']
    exact Function.update_of_ne hq _ _
  have hlast : ∀ q, q ≠ p → s'.last q = s.last q := by
    intro q hq
    rw [hs']
    exact Function.update_of_ne hq _ _
  have hlive : s'.live = if created = NULL then s.live else insert created s.live := by rw [hs']
  have hsound : s'.sound = s.sound := by rw [hs']
  apply h.of_call hmem hlast
  · intro kind call hcall
    obtain ⟨rfl, rfl⟩ := Prod.mk.inj (Option.some.inj (hlastp.symm.trans hcall))
    refine ⟨ne, fun hfree => absurd hfree.2 (by simp), fun hne => .inl ?_⟩
    rw [hmemp] at hne ⊢
    rw [hownedp]
    exact ofAddr_of_ne hne
  · rw [hs']
    exact h.sound
  · by_cases hnull : created = NULL
    · rw [if_pos hnull] at hlive
      apply h.forget hmem hlast unowned _ hlive hsound
      rw [hownedp]
      exact ofAddr_of_eq hnull
    · intro hs
      rw [hlive, if_neg hnull, Finset.coe_insert]
      apply (h.owned (hsound ▸ hs)).acquire unowned
      · exact fun hmem => answer.elim hnull fun hfresh => hfresh hmem
      · rw [hownedp]
        exact ofAddr_of_ne hnull
      · exact Objects.owned_of_ne hmem hlast
  · rw [hs']
    exact printed_append_of_iff h.printed (c.printed_eq_nil hlength ne created)

/-- The object a handle points to is deleted. -/
theorem free (h : ObjInv s) {call : ObjCall} (c : FreeCall)
    (known : s.last p = some (c.kind, call)) (valid : sysValid s.mem p)
    (hs' : s' = { s with
      mem := Function.update s.mem p (c.run p (s.mem p)).2
      live := s.live.erase (s.mem p)
      last := Function.update s.last p (some (c.kind, .free))
      printed := s.printed ++ (c.run p (s.mem p)).1
      sound := s.sound && decide (s.owned p = some (s.mem p))
      again := s.again || decide (s.last p = some (.mbox, .free))
      bad := s.bad || c.bad }) : ObjInv s' := by
  obtain ⟨ne, hne⟩ : p ≠ NULL ∧ s.mem p ≠ NULL := of_decide_eq_true valid
  have hmemp : s'.mem p = if c.kind = .mbox then s.mem p else NULL := by
    rw [hs']
    exact (Function.update_self p _ s.mem).trans (c.run_handle p (s.mem p))
  have hlastp : s'.last p = some (c.kind, .free) := by
    rw [hs']
    exact Function.update_self p _ s.last
  have hownedp : s'.owned p = none := by
    unfold Objects.owned
    rw [hlastp]
  have hmem : ∀ q, q ≠ p → s'.mem q = s.mem q := by
    intro q hq
    rw [hs']
    exact Function.update_of_ne hq _ _
  have hlast : ∀ q, q ≠ p → s'.last q = s.last q := by
    intro q hq
    rw [hs']
    exact Function.update_of_ne hq _ _
  have hsound : s'.sound = (s.sound && decide (s.owned p = some (s.mem p))) := by rw [hs']
  -- the object is the handle's own, unless the handle is a mailbox that was freed last
  have hiff : s.owned p = some (s.mem p) ↔ s.last p ≠ some (.mbox, .free) := by
    constructor
    · intro howned hfreed
      unfold Objects.owned at howned
      rw [hfreed] at howned
      exact absurd howned (by simp)
    · intro hnot
      refine (h.stale p _ _ known hne).resolve_right ?_
      rintro ⟨hkind, rfl⟩
      rw [hkind] at known
      exact hnot known
  apply h.of_call hmem hlast
  · intro kind call' hcall
    obtain ⟨rfl, rfl⟩ := Prod.mk.inj (Option.some.inj (hlastp.symm.trans hcall))
    refine ⟨ne, fun hmbox => ?_, fun hvalid => .inr ⟨?_, rfl⟩⟩
    · rw [hmemp, if_pos hmbox.1]
      exact hne
    · by_contra hmbox
      rw [hmemp, if_neg hmbox] at hvalid
      exact hvalid rfl
  · rw [hs']
    simp only [Bool.and_eq_true, decide_eq_true_eq, Bool.or_eq_false_iff, decide_eq_false_iff_not]
    rw [h.sound, hiff]
  · intro hs
    rw [hsound, Bool.and_eq_true] at hs
    have hlive : s'.live = s.live.erase (s.mem p) := by rw [hs']
    rw [hlive, Finset.coe_erase]
    exact (h.owned hs.1).release (of_decide_eq_true hs.2) hownedp (Objects.owned_of_ne hmem hlast)
  · rw [hs']
    exact printed_append_of_iff h.printed (c.printed_eq_nil ne hne)

/-- **Step.** -/
theorem step (h : ObjInv s) (hlength : queue.length = 1) {e : ObjEvent}
    (hs : ObjStep queue s e s') : ObjInv s' := by
  cases hs with
  | new c ne unowned answer => exact h.new hlength c ne unowned answer rfl
  | free c known valid => exact h.free c known valid rfl
  | @setInvalid p kind ne unowned =>
      have hmem : ∀ q, q ≠ p → Function.update s.mem p NULL q = s.mem q := fun q hq =>
        Function.update_of_ne hq _ _
      have hlast : ∀ q, q ≠ p → Function.update s.last p (some (kind, .setInvalid)) q = s.last q :=
        fun q hq => Function.update_of_ne hq _ _
      refine h.of_call hmem hlast ?_ h.sound (h.forget hmem hlast unowned ?_ rfl rfl) h.printed
      · intro kind' call hcall
        simp only [Function.update_self, Option.some.injEq, Prod.mk.injEq] at hcall
        obtain ⟨rfl, rfl⟩ := hcall
        refine ⟨ne, fun hfree => absurd hfree.2 (by simp), fun hne => ?_⟩
        exact absurd (Function.update_self _ _ _) hne
      · simp [Objects.owned]
  | @other p a unowned =>
      have hmem : ∀ q, q ≠ p → Function.update s.mem p a q = s.mem q := fun q hq =>
        Function.update_of_ne hq _ _
      have hlast : ∀ q, q ≠ p → Function.update s.last p none q = s.last q := fun q hq =>
        Function.update_of_ne hq _ _
      refine h.of_call hmem hlast ?_ h.sound (h.forget hmem hlast unowned ?_ rfl rfl) h.printed
      · intro kind call hcall
        simp at hcall
      · simp [Objects.owned]

end ObjInv

/-! ## Every run -/

/-- **Run.** The invariant holds in every reachable state. -/
theorem objInv_of_reachable (hlength : queue.length = 1) {s : Objects}
    (h : (objectSystem queue).Reachable s) : ObjInv s := by
  apply h.invariant (P := ObjInv)
  · rintro s ⟨hlive, hlast, hprinted, hsound, hagain, hbad⟩
    have hnone : ∀ p, s.owned p = none := by
      intro p
      unfold Objects.owned
      rw [hlast p]
    refine ⟨?_, ?_, ?_, ?_, ?_, ?_⟩
    · intro p kind call hp
      exact absurd ((hlast p).symm.trans hp) (by simp)
    · intro p hp
      exact absurd ((hlast p).symm.trans hp) (by simp)
    · simp [hsound, hagain]
    · intro _
      rw [hlive, Finset.coe_empty]
      exact .empty hnone
    · intro p kind call hp
      exact absurd ((hlast p).symm.trans hp) (by simp)
    · simp [hprinted, hbad]
  · exact fun s e t _ hs hstep => hs.step hlength hstep

/-- **Handles of kernel objects.** In every run of `sys_*_new`, `sys_*_free` and
`sys_*_set_invalid` on any handles, whichever creations fail and however the kernel reuses
addresses: every object that was deleted was the handle's own exactly when no mailbox was freed
right after it had been freed. As long as that is so, a handle tests valid exactly when it owns an
object of the kernel or is a mailbox that was freed last, and every object of the kernel has exactly
one handle: none is lost. And an assertion has failed exactly when a call had bad arguments. -/
theorem objects_sound (queue : BoundedQueue Unit) (hlength : queue.length = 1) (s : Objects)
    (h : (objectSystem queue).Reachable s) :
    (s.sound = true ↔ s.again = false) ∧
      (s.sound = true →
        (∀ p kind call, s.last p = some (kind, call) → (sysValid s.mem p = true ↔
          (∃ a ∈ s.live, s.owned p = some a) ∨ kind = .mbox ∧ call = .free)) ∧
        ∀ a ∈ s.live, ∃! p, s.owned p = some a) ∧
      (s.printed = [] ↔ s.bad = false) := by
  have hinv := objInv_of_reachable hlength h
  refine ⟨hinv.sound, fun hsound => ⟨fun p kind call hp => ?_, fun a ha => ?_⟩, hinv.printed⟩
  · have howned := hinv.owned hsound
    unfold sysValid
    rw [decide_eq_true_eq]
    constructor
    · rintro ⟨-, hne⟩
      rcases hinv.stale p kind call hp hne with hown | hfreed
      · exact .inl ⟨_, howned.mem hown, hown⟩
      · exact .inr hfreed
    · rintro (⟨a, -, hown⟩ | ⟨rfl, rfl⟩)
      · obtain ⟨heq, hne⟩ := Objects.owned_eq hown
        exact ⟨hinv.ne p kind call hp, heq ▸ hne⟩
      · exact ⟨hinv.ne p _ _ hp, hinv.freed p hp⟩
  · exact (hinv.owned hsound).existsUnique ha

/-- A mailbox is freed twice, and the second time it takes the queue of another one. -/
theorem objects_sound_freedTwice : ∃ s : Objects,
    (objectSystem (.list Unit 1)).Reachable s ∧ s.owned 0x20000200 = some 0x20001000 ∧
      (0x20001000 : Addr) ∉ s.live ∧ s.again = true ∧ s.sound = false := by
  have hstart : (objectSystem (.list Unit 1)).Reachable
      ⟨fun _ => NULL, ∅, fun _ => none, [], true, false, false⟩ :=
    .init ⟨rfl, fun _ => rfl, rfl, rfl, rfl, rfl⟩
  have hnew := hstart.step (.new (.mbox 6) (by decide : (0x20000100 : Addr) ≠ NULL) rfl
    (.inr (by decide : (0x20001000 : Addr) ∉ (∅ : Finset Addr))))
  have hfree := hnew.step (.free (p := 0x20000100) (.mbox none) rfl rfl)
  -- another mailbox gets a queue at the same address
  have hnew' := hfree.step (.new (.mbox 6) (by decide : (0x20000200 : Addr) ≠ NULL) rfl
    (.inr (by decide : (0x20001000 : Addr) ∉ _)))
  have hfree' := hnew'.step (.free (p := 0x20000100) (.mbox none) rfl rfl)
  refine ⟨_, hfree', rfl, by decide, rfl, ?_⟩
  have hiff := (objects_sound _ rfl _ hfree').1
  exact Bool.eq_false_of_not_eq_true fun hsound => absurd (hiff.mp hsound) (by decide)

end Stm32Eth.Sys
