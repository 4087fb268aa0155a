import Stm32Eth.Sys.Objects

/-!
# One semaphore for each thread

`sys_arch_netconn_sem_alloc`, `sys_arch_netconn_sem_get` and `sys_arch_netconn_sem_free` of
`sys_arch.c`, statement by statement, in any number of threads. A thread's semaphore is a
`sys_sem_t` from `mem_malloc`, found through slot 0 of the thread's local storage, with a kernel
semaphore in it. Either allocation may fail, and everybody else uses the two heaps as well.

`sys_arch_netconn_sem_free` clears the slot last. Between `mem_free` and that store another thread
may be given the very block the slot still points to. Still no two threads ever get one semaphore,
none is lost or freed twice, and an assertion fails exactly when an allocation has
(`netconnSem_own`).
-/

namespace Stm32Eth.Sys

open Holders Transition

variable {T : Type*} {queue : BoundedQueue Unit}

/-! ## The machine -/

/-- Where a thread is in the functions. -/
inductive NetconnPc
  /-- in none of them -/
  | outside
  /-- in `sys_arch_netconn_sem_alloc`, about to call `mem_malloc` -/
  | malloc
  /-- about to call `sys_sem_new` on `sem` -/
  | semNew (sem : Addr)
  /-- about to store `sem` in the slot -/
  | setSlot (sem : Addr)
  /-- in `sys_arch_netconn_sem_free`, in `sys_sem_free`, about to call `vSemaphoreDelete` -/
  | semDelete (sem : Addr)
  /-- about to store `NULL` in `sem->sem` -/
  | setNull (sem : Addr)
  /-- about to call `mem_free` -/
  | memFree (sem : Addr)
  /-- about to store `NULL` in the slot -/
  | clearSlot
  /-- after a store of `created` through a null pointer -/
  | undefined (created : Addr)
  /-- `configASSERT` in `vSemaphoreDelete` has stopped the program -/
  | halted (sem : Addr)
  deriving DecidableEq, Repr

/-- The threads' slots and program counters, the member `sem` of the `sys_sem_t` at each address,
the blocks `mem_malloc` has given to the functions and what everybody else has from the two heaps,
the kernel's semaphores, what was printed, and whether an allocation has failed. -/
structure NetconnSems (T : Type*) (queue : BoundedQueue Unit) where
  slot : T → Addr
  pc : T → NetconnPc
  mem : Addr → Addr
  blocks : Finset Addr
  others : Finset Addr
  kernel : Addr → Option queue.Carrier
  printed : List String
  failed : Bool

/-- `sys_arch_netconn_sem_get`. -/
def NetconnSems.sysArchNetconnSemGet (s : NetconnSems T queue) (t : T) : Addr := s.slot t

/-- What `sys_arch_netconn_sem_alloc` prints after `sys_sem_new`. -/
def allocAsserts (mem : Addr → Addr) (sem : Addr) (err : SysErr) : List String :=
  lwipAssert "err == ERR_OK" (err = .errOk) ++ lwipAssert "sem invalid" (sysValid mem sem)

/-- The steps, by who takes them. -/
inductive NetconnEvent (T : Type*)
  | alloc (t : T)
  | free (t : T)
  | statement (t : T)
  | other
  deriving DecidableEq, Repr

section

variable [DecidableEq T]

/-- The thread `t` goes on to `pc`. -/
def NetconnSems.goto (s : NetconnSems T queue) (t : T) (pc : NetconnPc) : NetconnSems T queue :=
  { s with pc := Function.update s.pc t pc }

/-- The statements of the threads, and what everybody else does. The current task's handle is never
null, so `LWIP_ASSERT("task != NULL", ..)` prints nothing. -/
inductive NetconnStep : NetconnSems T queue → NetconnEvent T → NetconnSems T queue → Prop
  /-- `sys_arch_netconn_sem_alloc` finds the slot set, and returns. -/
  | allocFound {s : NetconnSems T queue} (t : T) (outside : s.pc t = .outside)
      (found : s.slot t ≠ NULL) : NetconnStep s (.alloc t) s
  | alloc {s : NetconnSems T queue} (t : T) (outside : s.pc t = .outside)
      (null : s.slot t = NULL) : NetconnStep s (.alloc t) (s.goto t .malloc)
  | malloc {s : NetconnSems T queue} {sem : Addr} (t : T) (malloc : s.pc t = .malloc)
      (ne : sem ≠ NULL) (fresh : sem ∉ s.blocks) (fresh' : sem ∉ s.others) :
      NetconnStep s (.statement t)
        { s.goto t (.semNew sem) with
          blocks := insert sem s.blocks
          printed := s.printed ++ lwipAssert "sem != NULL" (sem ≠ NULL) }
  /-- `mem_malloc` returns `NULL`. -/
  | mallocNull {s : NetconnSems T queue} (t : T) (malloc : s.pc t = .malloc) :
      NetconnStep s (.statement t)
        { s.goto t (.semNew NULL) with
          printed := s.printed ++ lwipAssert "sem != NULL" (NULL ≠ NULL)
          failed := true }
  | semNew {s : NetconnSems T queue} {sem k : Addr} {err : SysErr} {q : queue.Carrier}
      {printed : List String} (t : T) (new : s.pc t = .semNew sem) (ne : sem ≠ NULL)
      (kne : k ≠ NULL) (fresh : s.kernel k = none) (fresh' : k ∉ s.others)
      (call : sysSemNew queue (some queue.empty) 0 = (err, some q, printed)) :
      NetconnStep s (.statement t)
        { s.goto t (.setSlot sem) with
          mem := Function.update s.mem sem k
          kernel := Function.update s.kernel k (some q)
          printed := s.printed ++ (printed ++ allocAsserts (Function.update s.mem sem k) sem err) }
  /-- `xSemaphoreCreateBinary` returns `NULL`. -/
  | semNewNull {s : NetconnSems T queue} {sem : Addr} {err : SysErr} {q : Option queue.Carrier}
      {printed : List String} (t : T) (new : s.pc t = .semNew sem) (ne : sem ≠ NULL)
      (call : sysSemNew queue none 0 = (err, q, printed)) :
      NetconnStep s (.statement t)
        { s.goto t (.setSlot sem) with
          mem := Function.update s.mem sem NULL
          printed := s.printed ++
            (printed ++ allocAsserts (Function.update s.mem sem NULL) sem err)
          failed := true }
  /-- `sys_sem_new` stores the new semaphore through the null pointer. -/
  | semNewUndefined {s : NetconnSems T queue} {k : Addr} (t : T) (new : s.pc t = .semNew NULL)
      (kne : k ≠ NULL) (fresh : s.kernel k = none) (fresh' : k ∉ s.others) :
      NetconnStep s (.statement t)
        { s.goto t (.undefined k) with
          kernel := Function.update s.kernel k (some queue.empty)
          printed := s.printed ++ lwipAssert "sem != NULL" (NULL ≠ NULL) }
  /-- It stores `NULL` through the null pointer. -/
  | semNewUndefinedNull {s : NetconnSems T queue} (t : T) (new : s.pc t = .semNew NULL) :
      NetconnStep s (.statement t)
        { s.goto t (.undefined NULL) with
          printed := s.printed ++ lwipAssert "sem != NULL" (NULL ≠ NULL)
          failed := true }
  | setSlot {s : NetconnSems T queue} {sem : Addr} (t : T) (set : s.pc t = .setSlot sem) :
      NetconnStep s (.statement t)
        { s.goto t .outside with slot := Function.update s.slot t sem }
  /-- `sys_arch_netconn_sem_free` finds the slot null, and returns. -/
  | freeNone {s : NetconnSems T queue} (t : T) (outside : s.pc t = .outside)
      (null : s.slot t = NULL) : NetconnStep s (.free t) s
  | free {s : NetconnSems T queue} (t : T) (outside : s.pc t = .outside)
      (found : s.slot t ≠ NULL) : NetconnStep s (.free t) (s.goto t (.semDelete (s.slot t)))
  | semDelete {s : NetconnSems T queue} {sem : Addr} (t : T) (delete : s.pc t = .semDelete sem)
      (ne : s.mem sem ≠ NULL) :
      NetconnStep s (.statement t)
        { s.goto t (.setNull sem) with
          kernel := Function.update s.kernel (s.mem sem) none
          printed := s.printed ++ (sysSemFree sem (s.mem sem)).1 }
  /-- `vSemaphoreDelete` is called on `NULL`. -/
  | semDeleteNull {s : NetconnSems T queue} {sem : Addr} (t : T)
      (delete : s.pc t = .semDelete sem) (null : s.mem sem = NULL) :
      NetconnStep s (.statement t)
        { s.goto t (.halted sem) with printed := s.printed ++ (sysSemFree sem (s.mem sem)).1 }
  | setNull {s : NetconnSems T queue} {sem : Addr} (t : T) (deleted : s.pc t = .setNull sem) :
      NetconnStep s (.statement t)
        { s.goto t (.memFree sem) with mem := Function.update s.mem sem NULL }
  | memFree {s : NetconnSems T queue} {sem : Addr} (t : T) (free : s.pc t = .memFree sem) :
      NetconnStep s (.statement t)
        { s.goto t .clearSlot with blocks := s.blocks.erase sem }
  | clearSlot {s : NetconnSems T queue} (t : T) (clear : s.pc t = .clearSlot) :
      NetconnStep s (.statement t)
        { s.goto t .outside with slot := Function.update s.slot t NULL }
  /-- Others allocate. -/
  | otherAlloc {s : NetconnSems T queue} (a : Addr) (fresh : a ∉ s.blocks)
      (fresh' : s.kernel a = none) :
      NetconnStep s .other { s with others := insert a s.others }
  | otherFree {s : NetconnSems T queue} (a : Addr) :
      NetconnStep s .other { s with others := s.others.erase a }
  /-- Others write, not to the blocks of the functions. -/
  | otherWrite {s : NetconnSems T queue} (mem : Addr → Addr)
      (frame : ∀ a ∈ s.blocks, mem a = s.mem a) : NetconnStep s .other { s with mem := mem }
  /-- Somebody signals or takes a semaphore. -/
  | use {s : NetconnSems T queue} {q : queue.Carrier} (k : Addr) (q' : queue.Carrier)
      (live : s.kernel k = some q) :
      NetconnStep s .other { s with kernel := Function.update s.kernel k (some q') }

/-- The threads, from empty slots on. -/
def netconnSystem (T : Type*) [DecidableEq T] (queue : BoundedQueue Unit) :
    System (NetconnSems T queue) (NetconnEvent T) where
  init s := (∀ t, s.slot t = NULL ∧ s.pc t = .outside) ∧ s.blocks = ∅ ∧ (∀ k, s.kernel k = none) ∧
    s.printed = [] ∧ s.failed = false
  step := NetconnStep

end

/-! ## Who holds what -/

/-- The block a thread holds. When `mem_free` has returned it is no longer the thread's, although
the slot still points to it. -/
def NetconnSems.block (s : NetconnSems T queue) (t : T) : Option Addr :=
  match s.pc t with
  | .outside => ofAddr (s.slot t)
  | .semNew sem => ofAddr sem
  | .setSlot sem | .semDelete sem | .setNull sem | .memFree sem | .halted sem => some sem
  | .malloc | .clearSlot | .undefined _ => none

/-- The kernel semaphore a thread holds, in its block or, after a store through a null pointer, in
none. -/
def NetconnSems.semaphore (s : NetconnSems T queue) (t : T) : Option Addr :=
  match s.pc t with
  | .outside => (ofAddr (s.slot t)).bind fun sem => ofAddr (s.mem sem)
  | .setSlot sem | .semDelete sem => ofAddr (s.mem sem)
  | .undefined created => ofAddr created
  | _ => none

/-- Outside the functions the slot points to it. -/
theorem NetconnSems.block_outside (s : NetconnSems T queue) {t : T} (ht : s.pc t = .outside)
    (ne : s.slot t ≠ NULL) : s.block t = some (s.slot t) := by
  unfold NetconnSems.block
  rw [ht]
  exact ofAddr_of_ne ne

/-- The kernel semaphore of a thread outside the functions. -/
theorem NetconnSems.semaphore_outside (s : NetconnSems T queue) {t : T} (ht : s.pc t = .outside)
    (ne : s.slot t ≠ NULL) : s.semaphore t = ofAddr (s.mem (s.slot t)) := by
  unfold NetconnSems.semaphore
  rw [ht, ofAddr_of_ne ne]
  rfl

/-- The kernel's semaphores. -/
def NetconnSems.live (s : NetconnSems T queue) : Set Addr := {k | (s.kernel k).isSome}

/-- A semaphore is created. -/
theorem live_update_some (kernel : Addr → Option queue.Carrier) (k : Addr) (q : queue.Carrier) :
    {a | (Function.update kernel k (some q) a).isSome} = insert k {a | (kernel a).isSome} := by
  ext a
  by_cases ha : a = k
  · simp [ha]
  · simp [ha]

/-- A semaphore is deleted. -/
theorem live_update_none (kernel : Addr → Option queue.Carrier) (k : Addr) :
    {a | (Function.update kernel k none a).isSome} = {a | (kernel a).isSome} \ {k} := by
  ext a
  by_cases ha : a = k
  · simp [ha]
  · simp [ha]

/-- An address without a semaphore. -/
theorem notMem_live {s : NetconnSems T queue} {k : Addr} (h : s.kernel k = none) : k ∉ s.live := by
  intro hk
  have hsome : (s.kernel k).isSome := hk
  rw [h] at hsome
  exact absurd hsome (by simp)

/-- A thread has a semaphore in its block as soon as the block is its own. -/
def NetconnSems.Whole (s : NetconnSems T queue) (t : T) : Prop :=
  match s.pc t with
  | .outside => s.slot t ≠ NULL → s.mem (s.slot t) ≠ NULL
  | .semNew sem => sem ≠ NULL
  | .setSlot sem | .semDelete sem => s.mem sem ≠ NULL
  | .undefined _ | .halted _ => False
  | _ => True

/-- What holds in every reachable state. -/
structure NetconnInv (s : NetconnSems T queue) : Prop where
  blocks : Exactly s.block (s.blocks : Set Addr)
  semaphores : Exactly s.semaphore s.live
  null : NULL ∉ s.blocks
  whole : s.failed = false → ∀ t, s.Whole t
  printed : s.printed = [] ↔ s.failed = false

/-- A thread that has not moved, and whose block nobody has written to, holds what it held. -/
theorem NetconnSems.holds_eq {s s' : NetconnSems T queue} {t : T} (hpc : s'.pc t = s.pc t)
    (hslot : s'.slot t = s.slot t) (hmem : ∀ sem, s.block t = some sem → s'.mem sem = s.mem sem) :
    s'.block t = s.block t ∧ s'.semaphore t = s.semaphore t ∧ (s.Whole t → s'.Whole t) := by
  unfold NetconnSems.block NetconnSems.semaphore NetconnSems.Whole at *
  rw [hpc, hslot]
  cases h : s.pc t with
  | outside =>
      simp only [h] at hmem
      by_cases hnull : s.slot t = NULL
      · refine ⟨rfl, ?_, fun _ hne => absurd hnull hne⟩
        rw [ofAddr_of_eq hnull]
        rfl
      · have hsem := hmem _ (ofAddr_of_ne hnull)
        simp [ofAddr_of_ne hnull, hsem]
  | setSlot sem =>
      simp only [h] at hmem
      simp [hmem sem rfl]
  | semDelete sem =>
      simp only [h] at hmem
      simp [hmem sem rfl]
  | _ => simp

/-! ## One step -/

/-- What a step of the thread `t` leaves alone: the other threads' program counters and slots, and
what is in their blocks. -/
structure Moves (s s' : NetconnSems T queue) (t : T) : Prop where
  pc : ∀ u, u ≠ t → s'.pc u = s.pc u
  slot : ∀ u, u ≠ t → s'.slot u = s.slot u
  mem : ∀ a, s.block t ≠ some a → s'.mem a = s.mem a

namespace Moves

variable {s s' : NetconnSems T queue} {t : T}

/-- The others hold what they held. -/
theorem others (h : Moves s s' t) (hinv : NetconnInv s) (u : T) (hu : u ≠ t) :
    s'.block u = s.block u ∧ s'.semaphore u = s.semaphore u ∧ (s.Whole u → s'.Whole u) := by
  refine NetconnSems.holds_eq (h.pc u hu) (h.slot u hu) fun sem hsem => h.mem sem ?_
  intro ht
  exact hu (hinv.blocks.unique u t sem hsem ht)

/-- What is whole stays whole, when it is for the thread itself. -/
theorem whole (h : Moves s s' t) (hinv : NetconnInv s)
    (hfailed : s'.failed = false → s.failed = false) (ht : s'.failed = false → s'.Whole t) :
    s'.failed = false → ∀ u, s'.Whole u := by
  intro hok u
  by_cases hu : u = t
  · rw [hu]
    exact ht hok
  · exact (h.others hinv u hu).2.2 (hinv.whole (hfailed hok) u)

/-- A step that keeps what the thread holds. -/
theorem blocks_congr (h : Moves s s' t) (hinv : NetconnInv s) (ht : s'.block t = s.block t) :
    Exactly s'.block (s.blocks : Set Addr) := by
  apply hinv.blocks.congr
  intro u
  by_cases hu : u = t
  · rw [hu, ht]
  · exact (h.others hinv u hu).1

/-- A step that keeps the semaphore the thread holds. -/
theorem semaphores_congr (h : Moves s s' t) (hinv : NetconnInv s)
    (ht : s'.semaphore t = s.semaphore t) : Exactly s'.semaphore s.live := by
  apply hinv.semaphores.congr
  intro u
  by_cases hu : u = t
  · rw [hu, ht]
  · exact (h.others hinv u hu).2.1

end Moves

section

variable [DecidableEq T]

/-- A statement that only moves the thread on. -/
theorem Moves.goto (s : NetconnSems T queue) (t : T) (pc : NetconnPc) :
    Moves s (s.goto t pc) t where
  pc _ hu := Function.update_of_ne hu _ _
  slot _ _ := rfl
  mem _ _ := rfl

theorem NetconnSems.goto_pc (s : NetconnSems T queue) (t : T) (pc : NetconnPc) :
    (s.goto t pc).pc t = pc := Function.update_self _ _ _

end

/-- Nothing is printed when `sys_sem_new` has succeeded. -/
theorem allocAsserts_errOk {mem : Addr → Addr} {sem : Addr} (ne : sem ≠ NULL)
    (created : mem sem ≠ NULL) : allocAsserts mem sem .errOk = [] := by
  have hvalid : sysValid mem sem = true := decide_eq_true ⟨ne, created⟩
  unfold allocAsserts
  rw [hvalid]
  rfl

/-- Something is printed when it has not. -/
theorem allocAsserts_ne_nil {mem : Addr → Addr} {sem : Addr} {err : SysErr} (herr : err ≠ .errOk) :
    allocAsserts mem sem err ≠ [] := by
  unfold allocAsserts
  rw [lwipAssert_of_not _ herr]
  simp

/-- One more message is printed, or none. -/
theorem printed_append {printed new : List String} {failed failed' : Bool}
    (h : printed = [] ↔ failed = false) (hnew : failed' = false → failed = false ∧ new = [])
    (hfailed : failed' = true → failed = true ∨ new ≠ []) :
    printed ++ new = [] ↔ failed' = false := by
  rw [List.append_eq_nil_iff, h]
  constructor
  · rintro ⟨hok, hnil⟩
    cases hcase : failed' with
    | false => rfl
    | true =>
        rcases hfailed hcase with hbad | hbad
        · exact absurd (hok.symm.trans hbad) (by simp)
        · exact absurd hnil hbad
  · exact hnew

namespace NetconnInv

variable {s s' : NetconnSems T queue} {t : T}

/-- A step after which the thread holds what it held. -/
theorem keep (h : NetconnInv s) (hmoves : Moves s s' t) (hblocks : s'.blocks = s.blocks)
    (hkernel : s'.kernel = s.kernel) (hblock : s'.block t = s.block t)
    (hsem : s'.semaphore t = s.semaphore t) (hfailed : s'.failed = false → s.failed = false)
    (hwhole : s'.failed = false → s'.Whole t)
    (hprinted : s'.printed = [] ↔ s'.failed = false) : NetconnInv s' where
  blocks := by
    rw [hblocks]
    exact hmoves.blocks_congr h hblock
  semaphores := by
    unfold NetconnSems.live
    rw [hkernel]
    exact hmoves.semaphores_congr h hsem
  null := by
    rw [hblocks]
    exact h.null
  whole := hmoves.whole h hfailed hwhole
  printed := hprinted

/-- Others write, not to the blocks. -/
theorem otherWrite (h : NetconnInv s) {mem : Addr → Addr}
    (frame : ∀ a ∈ s.blocks, mem a = s.mem a) : NetconnInv { s with mem := mem } := by
  have hsame : ∀ u, NetconnSems.block { s with mem := mem } u = s.block u ∧
      NetconnSems.semaphore { s with mem := mem } u = s.semaphore u ∧
      (s.Whole u → NetconnSems.Whole { s with mem := mem } u) := fun u =>
    NetconnSems.holds_eq rfl rfl fun a ha => frame a (h.blocks.mem ha)
  exact ⟨h.blocks.congr fun u => (hsame u).1, h.semaphores.congr fun u => (hsame u).2.1, h.null,
    fun hok u => (hsame u).2.2 (h.whole hok u), h.printed⟩

/-- A thread gets to `sys_sem_new` with a null pointer only after a failure. -/
theorem failed_of_semNew_null (h : NetconnInv s) (new : s.pc t = .semNew NULL) :
    s.failed = true := by
  by_contra hok
  have hwhole := h.whole (Bool.eq_false_of_not_eq_true hok) t
  unfold NetconnSems.Whole at hwhole
  rw [new] at hwhole
  exact hwhole rfl

/-- Two threads have different blocks with different semaphores. -/
theorem distinct (h : NetconnInv s) {u : T} (htu : t ≠ u) (ht : s.pc t = .outside)
    (hu : s.pc u = .outside) (htne : s.slot t ≠ NULL) (hune : s.slot u ≠ NULL) :
    s.slot t ≠ s.slot u ∧ (s.mem (s.slot t) ≠ NULL → s.mem (s.slot t) ≠ s.mem (s.slot u)) := by
  refine ⟨h.blocks.ne htu (s.block_outside ht htne) (s.block_outside hu hune), fun hk heq => ?_⟩
  have ht' := (s.semaphore_outside ht htne).trans (ofAddr_of_ne hk)
  have hu' := (s.semaphore_outside hu hune).trans (ofAddr_of_ne (heq ▸ hk))
  exact h.semaphores.ne htu ht' hu' heq

/-- When no thread has a semaphore any more, nothing is left. -/
theorem nothing_left (h : NetconnInv s) (hnull : ∀ t, s.pc t = .outside ∧ s.slot t = NULL) :
    s.blocks = ∅ ∧ ∀ k, s.kernel k = none := by
  constructor
  · apply Finset.coe_eq_empty.mp
    apply h.blocks.eq_empty
    intro t
    unfold NetconnSems.block
    rw [(hnull t).1]
    exact ofAddr_of_eq (hnull t).2
  · intro k
    have hempty : s.live = ∅ := by
      apply h.semaphores.eq_empty
      intro t
      unfold NetconnSems.semaphore
      rw [(hnull t).1, ofAddr_of_eq (hnull t).2]
      rfl
    have hk : k ∉ s.live := by
      rw [hempty]
      exact Set.notMem_empty k
    exact Option.not_isSome_iff_eq_none.mp hk

/-- `vSemaphoreDelete` deletes a semaphore that is there. -/
theorem deletes (h : NetconnInv s) {sem : Addr} (ht : s.pc t = .semDelete sem)
    (ne : s.mem sem ≠ NULL) : (s.kernel (s.mem sem)).isSome := by
  apply h.semaphores.mem (t := t)
  unfold NetconnSems.semaphore
  rw [ht]
  exact ofAddr_of_ne ne

/-- `mem_free` frees a block that is allocated. -/
theorem frees (h : NetconnInv s) {sem : Addr} (ht : s.pc t = .memFree sem) : sem ∈ s.blocks := by
  apply h.blocks.mem (t := t)
  unfold NetconnSems.block
  rw [ht]

/-- Without a failure no thread stores through a null pointer. -/
theorem ne_undefined (h : NetconnInv s) (hok : s.failed = false) (t : T) (k : Addr) :
    s.pc t ≠ .undefined k := by
  intro ht
  have hwhole := h.whole hok t
  unfold NetconnSems.Whole at hwhole
  rw [ht] at hwhole
  exact hwhole

/-- Without a failure `configASSERT` stops no thread. -/
theorem ne_halted (h : NetconnInv s) (hok : s.failed = false) (t : T) (sem : Addr) :
    s.pc t ≠ .halted sem := by
  intro ht
  have hwhole := h.whole hok t
  unfold NetconnSems.Whole at hwhole
  rw [ht] at hwhole
  exact hwhole

/-- Without a failure a thread's block has a kernel semaphore. -/
theorem exists_semaphore (h : NetconnInv s) (hok : s.failed = false) (ht : s.pc t = .outside)
    (ne : s.slot t ≠ NULL) : (s.kernel (s.mem (s.slot t))).isSome := by
  have hwhole := h.whole hok t
  unfold NetconnSems.Whole at hwhole
  rw [ht] at hwhole
  exact h.semaphores.mem ((s.semaphore_outside ht ne).trans (ofAddr_of_ne (hwhole ne)))

variable [DecidableEq T]

/-- `sys_arch_netconn_sem_alloc` goes on. -/
theorem alloc (h : NetconnInv s) (outside : s.pc t = .outside) (null : s.slot t = NULL) :
    NetconnInv (s.goto t .malloc) := by
  have hpc := s.goto_pc t .malloc
  apply h.keep (.goto s t _) rfl rfl
  · unfold NetconnSems.block
    rw [hpc, outside]
    exact (ofAddr_of_eq null).symm
  · unfold NetconnSems.semaphore
    rw [hpc, outside, ofAddr_of_eq null]
    rfl
  · exact id
  · intro _
    unfold NetconnSems.Whole
    rw [hpc]
    trivial
  · exact h.printed

/-- `sys_arch_netconn_sem_free` goes on. -/
theorem free (h : NetconnInv s) (outside : s.pc t = .outside) (found : s.slot t ≠ NULL) :
    NetconnInv (s.goto t (.semDelete (s.slot t))) := by
  have hpc := s.goto_pc t (.semDelete (s.slot t))
  apply h.keep (.goto s t _) rfl rfl
  · unfold NetconnSems.block
    rw [hpc, outside]
    exact (ofAddr_of_ne found).symm
  · unfold NetconnSems.semaphore
    rw [hpc, outside, ofAddr_of_ne found]
    rfl
  · exact id
  · intro hok
    have hwhole := h.whole hok t
    unfold NetconnSems.Whole at hwhole ⊢
    rw [outside] at hwhole
    rw [hpc]
    exact hwhole found
  · exact h.printed

/-- The block `mem_malloc` returns is the thread's. -/
theorem malloc (h : NetconnInv s) {sem : Addr} (malloc : s.pc t = .malloc) (ne : sem ≠ NULL)
    (fresh : sem ∉ s.blocks)
    (hs' : s' = { s.goto t (.semNew sem) with
      blocks := insert sem s.blocks
      printed := s.printed ++ lwipAssert "sem != NULL" (sem ≠ NULL) }) : NetconnInv s' := by
  have hpc : s'.pc t = .semNew sem := by
    rw [hs']
    exact s.goto_pc t _
  have hmoves : Moves s s' t := by
    rw [hs']
    exact ⟨(Moves.goto s t (.semNew sem)).pc, fun _ _ => rfl, fun _ _ => rfl⟩
  have hblocks : s'.blocks = insert sem s.blocks := by rw [hs']
  refine ⟨?_, ?_, ?_, hmoves.whole h ?_ ?_, ?_⟩
  · rw [hblocks, Finset.coe_insert]
    apply h.blocks.acquire (t := t)
    · unfold NetconnSems.block
      rw [malloc]
    · exact fresh
    · unfold NetconnSems.block
      rw [hpc]
      exact ofAddr_of_ne ne
    · exact fun u hu => (hmoves.others h u hu).1
  · have hlive : s'.live = s.live := by
      rw [hs']
      rfl
    rw [hlive]
    apply hmoves.semaphores_congr h
    unfold NetconnSems.semaphore
    rw [hpc, malloc]
  · rw [hblocks, Finset.mem_insert, not_or]
    exact ⟨ne.symm, h.null⟩
  · rw [hs']
    exact id
  · intro _
    unfold NetconnSems.Whole
    rw [hpc]
    exact ne
  · rw [hs']
    exact printed_append h.printed (fun hok => ⟨hok, lwipAssert_of _ ne⟩) .inl

/-- `mem_malloc` has returned `NULL`. -/
theorem mallocNull (h : NetconnInv s) (malloc : s.pc t = .malloc)
    (hs' : s' = { s.goto t (.semNew NULL) with
      printed := s.printed ++ lwipAssert "sem != NULL" (NULL ≠ NULL)
      failed := true }) : NetconnInv s' := by
  have hpc : s'.pc t = .semNew NULL := by
    rw [hs']
    exact s.goto_pc t _
  have hfailed : s'.failed ≠ false := by
    rw [hs']
    simp
  apply h.keep (t := t)
  · rw [hs']
    exact ⟨(Moves.goto s t (.semNew NULL)).pc, fun _ _ => rfl, fun _ _ => rfl⟩
  · rw [hs']
    rfl
  · rw [hs']
    rfl
  · unfold NetconnSems.block
    rw [hpc, malloc]
    rfl
  · unfold NetconnSems.semaphore
    rw [hpc, malloc]
  · exact fun hok => absurd hok hfailed
  · exact fun hok => absurd hok hfailed
  · rw [hs']
    exact printed_append h.printed (by simp) fun _ => .inr (by decide)

/-- The semaphore `xSemaphoreCreateBinary` returns is the thread's. -/
theorem semNew (h : NetconnInv s) {sem k : Addr} {err : SysErr} {q : queue.Carrier}
    {printed : List String} (new : s.pc t = .semNew sem) (ne : sem ≠ NULL) (kne : k ≠ NULL)
    (fresh : s.kernel k = none)
    (call : sysSemNew queue (some queue.empty) 0 = (err, some q, printed))
    (hs' : s' = { s.goto t (.setSlot sem) with
      mem := Function.update s.mem sem k
      kernel := Function.update s.kernel k (some q)
      printed := s.printed ++
        (printed ++ allocAsserts (Function.update s.mem sem k) sem err) }) : NetconnInv s' := by
  have hpc : s'.pc t = .setSlot sem := by
    rw [hs']
    exact s.goto_pc t _
  have hmem : s'.mem sem = k := by
    rw [hs']
    exact Function.update_self _ _ _
  have hblock : s.block t = some sem := by
    unfold NetconnSems.block
    rw [new]
    exact ofAddr_of_ne ne
  have hmoves : Moves s s' t := by
    rw [hs']
    refine ⟨(Moves.goto s t (.setSlot sem)).pc, fun _ _ => rfl, fun a ha => ?_⟩
    apply Function.update_of_ne
    rintro rfl
    exact ha hblock
  have hblocks : s'.blocks = s.blocks := by
    rw [hs']
    rfl
  refine ⟨?_, ?_, ?_, hmoves.whole h ?_ ?_, ?_⟩
  · rw [hblocks]
    apply hmoves.blocks_congr h
    rw [hblock]
    unfold NetconnSems.block
    rw [hpc]
  · have hlive : s'.live = insert k s.live := by
      rw [hs']
      exact live_update_some s.kernel k q
    rw [hlive]
    apply h.semaphores.acquire (t := t)
    · unfold NetconnSems.semaphore
      rw [new]
    · exact notMem_live fresh
    · unfold NetconnSems.semaphore
      rw [hpc]
      show ofAddr (s'.mem sem) = some k
      rw [hmem]
      exact ofAddr_of_ne kne
    · exact fun u hu => (hmoves.others h u hu).2.1
  · rw [hblocks]
    exact h.null
  · rw [hs']
    exact id
  · intro _
    unfold NetconnSems.Whole
    rw [hpc]
    show s'.mem sem ≠ NULL
    rw [hmem]
    exact kne
  · -- `sys_sem_new` succeeds, and the block is valid
    have herr : err = .errOk := (congrArg Prod.fst call).symm
    have hprinted : printed = [] := (congrArg (fun r => r.2.2) call).symm
    have hcreated : Function.update s.mem sem k sem ≠ NULL := by
      rw [Function.update_self]
      exact kne
    rw [hs']
    refine printed_append h.printed (fun hok => ⟨hok, ?_⟩) .inl
    rw [herr, hprinted, allocAsserts_errOk ne hcreated]
    rfl

/-- `xSemaphoreCreateBinary` has returned `NULL`. -/
theorem semNewNull (h : NetconnInv s) {sem : Addr} {err : SysErr} {q : Option queue.Carrier}
    {printed : List String} (new : s.pc t = .semNew sem) (ne : sem ≠ NULL)
    (call : sysSemNew queue none 0 = (err, q, printed))
    (hs' : s' = { s.goto t (.setSlot sem) with
      mem := Function.update s.mem sem NULL
      printed := s.printed ++
        (printed ++ allocAsserts (Function.update s.mem sem NULL) sem err)
      failed := true }) : NetconnInv s' := by
  have hpc : s'.pc t = .setSlot sem := by
    rw [hs']
    exact s.goto_pc t _
  have hmem : s'.mem sem = NULL := by
    rw [hs']
    exact Function.update_self _ _ _
  have hfailed : s'.failed ≠ false := by
    rw [hs']
    simp
  have hblock : s.block t = some sem := by
    unfold NetconnSems.block
    rw [new]
    exact ofAddr_of_ne ne
  apply h.keep (t := t)
  · rw [hs']
    refine ⟨(Moves.goto s t (.setSlot sem)).pc, fun _ _ => rfl, fun a ha => ?_⟩
    apply Function.update_of_ne
    rintro rfl
    exact ha hblock
  · rw [hs']
    rfl
  · rw [hs']
    rfl
  · rw [hblock]
    unfold NetconnSems.block
    rw [hpc]
  · unfold NetconnSems.semaphore
    rw [hpc, new]
    exact ofAddr_of_eq hmem
  · exact fun hok => absurd hok hfailed
  · exact fun hok => absurd hok hfailed
  · have hmem : SysErr.errMem = err := congrArg Prod.fst call
    have herr : err ≠ .errOk := by
      rw [← hmem]
      simp
    rw [hs']
    refine printed_append h.printed (by simp) fun _ => .inr ?_
    exact fun hnil => allocAsserts_ne_nil herr (List.append_eq_nil_iff.mp hnil).2

/-- `sys_sem_new` has stored the new semaphore through the null pointer. -/
theorem semNewUndefined (h : NetconnInv s) {k : Addr} (new : s.pc t = .semNew NULL)
    (kne : k ≠ NULL) (fresh : s.kernel k = none)
    (hs' : s' = { s.goto t (.undefined k) with
      kernel := Function.update s.kernel k (some queue.empty)
      printed := s.printed ++ lwipAssert "sem != NULL" (NULL ≠ NULL) }) : NetconnInv s' := by
  have hpc : s'.pc t = .undefined k := by
    rw [hs']
    exact s.goto_pc t _
  have hmoves : Moves s s' t := by
    rw [hs']
    exact ⟨(Moves.goto s t (.undefined k)).pc, fun _ _ => rfl, fun _ _ => rfl⟩
  have hfailed : s'.failed = true := by
    rw [hs']
    exact h.failed_of_semNew_null new
  have hblocks : s'.blocks = s.blocks := by
    rw [hs']
    rfl
  refine ⟨?_, ?_, ?_, ?_, ?_⟩
  · rw [hblocks]
    apply hmoves.blocks_congr h
    unfold NetconnSems.block
    rw [hpc, new]
    rfl
  · have hlive : s'.live = insert k s.live := by
      rw [hs']
      exact live_update_some s.kernel k queue.empty
    rw [hlive]
    apply h.semaphores.acquire (t := t)
    · unfold NetconnSems.semaphore
      rw [new]
    · exact notMem_live fresh
    · unfold NetconnSems.semaphore
      rw [hpc]
      exact ofAddr_of_ne kne
    · exact fun u hu => (hmoves.others h u hu).2.1
  · rw [hblocks]
    exact h.null
  · exact fun hok => absurd (hfailed.symm.trans hok) (by simp)
  · rw [hs']
    refine printed_append h.printed (fun hok => ?_) .inl
    exact absurd ((h.failed_of_semNew_null new).symm.trans hok) (by simp)

/-- `sys_sem_new` has stored `NULL` through the null pointer. -/
theorem semNewUndefinedNull (h : NetconnInv s) (new : s.pc t = .semNew NULL)
    (hs' : s' = { s.goto t (.undefined NULL) with
      printed := s.printed ++ lwipAssert "sem != NULL" (NULL ≠ NULL)
      failed := true }) : NetconnInv s' := by
  have hpc : s'.pc t = .undefined NULL := by
    rw [hs']
    exact s.goto_pc t _
  have hfailed : s'.failed ≠ false := by
    rw [hs']
    simp
  apply h.keep (t := t)
  · rw [hs']
    exact ⟨(Moves.goto s t (.undefined NULL)).pc, fun _ _ => rfl, fun _ _ => rfl⟩
  · rw [hs']
    rfl
  · rw [hs']
    rfl
  · unfold NetconnSems.block
    rw [hpc, new]
    rfl
  · unfold NetconnSems.semaphore
    rw [hpc, new]
    rfl
  · exact fun hok => absurd hok hfailed
  · exact fun hok => absurd hok hfailed
  · rw [hs']
    exact printed_append h.printed (by simp) fun _ => .inr (by decide)

/-- The slot is set. -/
theorem setSlot (h : NetconnInv s) {sem : Addr} (set : s.pc t = .setSlot sem)
    (hs' : s' = { s.goto t .outside with slot := Function.update s.slot t sem }) :
    NetconnInv s' := by
  have hpc : s'.pc t = .outside := by
    rw [hs']
    exact s.goto_pc t _
  have hslot : s'.slot t = sem := by
    rw [hs']
    exact Function.update_self _ _ _
  have hmem : s'.mem = s.mem := by
    rw [hs']
    rfl
  have hblock : s.block t = some sem := by
    unfold NetconnSems.block
    rw [set]
  have hne : sem ≠ NULL := by
    rintro rfl
    exact h.null (h.blocks.mem hblock)
  apply h.keep (t := t)
  · rw [hs']
    exact ⟨(Moves.goto s t .outside).pc, fun _ hu => Function.update_of_ne hu _ _, fun _ _ => rfl⟩
  · rw [hs']
    rfl
  · rw [hs']
    rfl
  · rw [hblock]
    unfold NetconnSems.block
    rw [hpc, hslot]
    exact ofAddr_of_ne hne
  · unfold NetconnSems.semaphore
    rw [hpc, hslot, hmem, set, ofAddr_of_ne hne]
    rfl
  · rw [hs']
    exact id
  · intro hok
    rw [hs'] at hok
    have hwhole := h.whole hok t
    unfold NetconnSems.Whole at hwhole ⊢
    rw [set] at hwhole
    rw [hpc, hslot, hmem]
    exact fun _ => hwhole
  · rw [hs']
    exact h.printed

/-- `vSemaphoreDelete` has deleted the thread's semaphore. -/
theorem semDelete (h : NetconnInv s) {sem : Addr} (delete : s.pc t = .semDelete sem)
    (ne : s.mem sem ≠ NULL)
    (hs' : s' = { s.goto t (.setNull sem) with
      kernel := Function.update s.kernel (s.mem sem) none
      printed := s.printed ++ (sysSemFree sem (s.mem sem)).1 }) : NetconnInv s' := by
  have hpc : s'.pc t = .setNull sem := by
    rw [hs']
    exact s.goto_pc t _
  have hmoves : Moves s s' t := by
    rw [hs']
    exact ⟨(Moves.goto s t (.setNull sem)).pc, fun _ _ => rfl, fun _ _ => rfl⟩
  have hblock : s.block t = some sem := by
    unfold NetconnSems.block
    rw [delete]
  have hblocks : s'.blocks = s.blocks := by
    rw [hs']
    rfl
  refine ⟨?_, ?_, ?_, hmoves.whole h ?_ ?_, ?_⟩
  · rw [hblocks]
    apply hmoves.blocks_congr h
    rw [hblock]
    unfold NetconnSems.block
    rw [hpc]
  · have hlive : s'.live = s.live \ {s.mem sem} := by
      rw [hs']
      exact live_update_none s.kernel (s.mem sem)
    rw [hlive]
    apply h.semaphores.release (t := t)
    · unfold NetconnSems.semaphore
      rw [delete]
      exact ofAddr_of_ne ne
    · unfold NetconnSems.semaphore
      rw [hpc]
    · exact fun u hu => (hmoves.others h u hu).2.1
  · rw [hblocks]
    exact h.null
  · rw [hs']
    exact id
  · intro _
    unfold NetconnSems.Whole
    rw [hpc]
    trivial
  · have hsem : sem ≠ NULL := by
      rintro rfl
      exact h.null (h.blocks.mem hblock)
    rw [hs']
    refine printed_append h.printed (fun hok => ⟨hok, ?_⟩) .inl
    unfold sysSemFree sysFree
    rw [lwipAssert_of _ hsem, lwipAssert_of _ ne]
    rfl

/-- `configASSERT` has stopped the program. -/
theorem semDeleteNull (h : NetconnInv s) {sem : Addr} (delete : s.pc t = .semDelete sem)
    (null : s.mem sem = NULL)
    (hs' : s' = { s.goto t (.halted sem) with
      printed := s.printed ++ (sysSemFree sem (s.mem sem)).1 }) : NetconnInv s' := by
  have hpc : s'.pc t = .halted sem := by
    rw [hs']
    exact s.goto_pc t _
  have hfailed : s.failed = true := by
    by_contra hok
    have hwhole := h.whole (Bool.eq_false_of_not_eq_true hok) t
    unfold NetconnSems.Whole at hwhole
    rw [delete] at hwhole
    exact hwhole null
  have hfailed' : s'.failed = true := by
    rw [hs']
    exact hfailed
  apply h.keep (t := t)
  · rw [hs']
    exact ⟨(Moves.goto s t (.halted sem)).pc, fun _ _ => rfl, fun _ _ => rfl⟩
  · rw [hs']
    rfl
  · rw [hs']
    rfl
  · unfold NetconnSems.block
    rw [hpc, delete]
  · unfold NetconnSems.semaphore
    rw [hpc, delete]
    exact (ofAddr_of_eq null).symm
  · exact fun hok => absurd (hfailed'.symm.trans hok) (by simp)
  · exact fun hok => absurd (hfailed'.symm.trans hok) (by simp)
  · rw [hs']
    refine printed_append h.printed (fun hok => ?_) .inl
    exact absurd (hfailed.symm.trans hok) (by simp)

/-- `sem->sem` is null. -/
theorem setNull (h : NetconnInv s) {sem : Addr} (deleted : s.pc t = .setNull sem)
    (hs' : s' = { s.goto t (.memFree sem) with mem := Function.update s.mem sem NULL }) :
    NetconnInv s' := by
  have hpc : s'.pc t = .memFree sem := by
    rw [hs']
    exact s.goto_pc t _
  have hblock : s.block t = some sem := by
    unfold NetconnSems.block
    rw [deleted]
  apply h.keep (t := t)
  · rw [hs']
    refine ⟨(Moves.goto s t (.memFree sem)).pc, fun _ _ => rfl, fun a ha => ?_⟩
    apply Function.update_of_ne
    rintro rfl
    exact ha hblock
  · rw [hs']
    rfl
  · rw [hs']
    rfl
  · rw [hblock]
    unfold NetconnSems.block
    rw [hpc]
  · unfold NetconnSems.semaphore
    rw [hpc, deleted]
  · rw [hs']
    exact id
  · intro _
    unfold NetconnSems.Whole
    rw [hpc]
    trivial
  · rw [hs']
    exact h.printed

/-- `mem_free` has taken the block back. -/
theorem memFree (h : NetconnInv s) {sem : Addr} (free : s.pc t = .memFree sem)
    (hs' : s' = { s.goto t .clearSlot with blocks := s.blocks.erase sem }) : NetconnInv s' := by
  have hpc : s'.pc t = .clearSlot := by
    rw [hs']
    exact s.goto_pc t _
  have hmoves : Moves s s' t := by
    rw [hs']
    exact ⟨(Moves.goto s t .clearSlot).pc, fun _ _ => rfl, fun _ _ => rfl⟩
  have hblocks : s'.blocks = s.blocks.erase sem := by rw [hs']
  refine ⟨?_, ?_, ?_, hmoves.whole h ?_ ?_, ?_⟩
  · rw [hblocks, Finset.coe_erase]
    apply h.blocks.release (t := t)
    · unfold NetconnSems.block
      rw [free]
    · unfold NetconnSems.block
      rw [hpc]
    · exact fun u hu => (hmoves.others h u hu).1
  · have hlive : s'.live = s.live := by
      rw [hs']
      rfl
    rw [hlive]
    apply hmoves.semaphores_congr h
    unfold NetconnSems.semaphore
    rw [hpc, free]
  · rw [hblocks]
    exact fun hmem => h.null (Finset.mem_of_mem_erase hmem)
  · rw [hs']
    exact id
  · intro _
    unfold NetconnSems.Whole
    rw [hpc]
    trivial
  · rw [hs']
    exact h.printed

/-- The slot is cleared. -/
theorem clearSlot (h : NetconnInv s) (clear : s.pc t = .clearSlot)
    (hs' : s' = { s.goto t .outside with slot := Function.update s.slot t NULL }) :
    NetconnInv s' := by
  have hpc : s'.pc t = .outside := by
    rw [hs']
    exact s.goto_pc t _
  have hslot : s'.slot t = NULL := by
    rw [hs']
    exact Function.update_self _ _ _
  apply h.keep (t := t)
  · rw [hs']
    exact ⟨(Moves.goto s t .outside).pc, fun _ hu => Function.update_of_ne hu _ _, fun _ _ => rfl⟩
  · rw [hs']
    rfl
  · rw [hs']
    rfl
  · unfold NetconnSems.block
    rw [hpc, hslot, clear]
    rfl
  · unfold NetconnSems.semaphore
    rw [hpc, hslot, clear]
    rfl
  · rw [hs']
    exact id
  · intro _
    unfold NetconnSems.Whole
    rw [hpc, hslot]
    exact fun hne => absurd rfl hne
  · rw [hs']
    exact h.printed

/-- **Step.** -/
theorem step {e : NetconnEvent T} (h : NetconnInv s) (hs : NetconnStep s e s') :
    NetconnInv s' := by
  cases hs with
  | allocFound t outside found => exact h
  | alloc t outside null => exact h.alloc outside null
  | malloc t malloc ne fresh fresh' => exact h.malloc malloc ne fresh rfl
  | mallocNull t malloc => exact h.mallocNull malloc rfl
  | semNew t new ne kne fresh fresh' call => exact h.semNew new ne kne fresh call rfl
  | semNewNull t new ne call => exact h.semNewNull new ne call rfl
  | semNewUndefined t new kne fresh fresh' => exact h.semNewUndefined new kne fresh rfl
  | semNewUndefinedNull t new => exact h.semNewUndefinedNull new rfl
  | setSlot t set => exact h.setSlot set rfl
  | freeNone t outside null => exact h
  | free t outside found => exact h.free outside found
  | semDelete t delete ne => exact h.semDelete delete ne rfl
  | semDeleteNull t delete null => exact h.semDeleteNull delete null rfl
  | setNull t deleted => exact h.setNull deleted rfl
  | memFree t free => exact h.memFree free rfl
  | clearSlot t clear => exact h.clearSlot clear rfl
  | otherAlloc a fresh fresh' => exact ⟨h.blocks, h.semaphores, h.null, h.whole, h.printed⟩
  | otherFree a => exact ⟨h.blocks, h.semaphores, h.null, h.whole, h.printed⟩
  | otherWrite mem frame => exact h.otherWrite frame
  | @use q k q' live =>
      refine ⟨h.blocks, ?_, h.null, h.whole, h.printed⟩
      have hk : k ∈ s.live := by
        show (s.kernel k).isSome
        rw [live]
        rfl
      have hlive : NetconnSems.live { s with kernel := Function.update s.kernel k (some q') }
          = s.live := (live_update_some s.kernel k q').trans (Set.insert_eq_of_mem hk)
      rw [hlive]
      exact h.semaphores

end NetconnInv

/-! ## Every run -/

/-- **Run.** The invariant holds in every reachable state. -/
theorem netconnInv_of_reachable [DecidableEq T] {s : NetconnSems T queue}
    (h : (netconnSystem T queue).Reachable s) : NetconnInv s := by
  apply h.invariant (P := NetconnInv)
  · rintro s ⟨hthreads, hblocks, hkernel, hprinted, hfailed⟩
    have hblock : ∀ t, s.block t = none := by
      intro t
      unfold NetconnSems.block
      rw [(hthreads t).2, (hthreads t).1]
      rfl
    have hsem : ∀ t, s.semaphore t = none := by
      intro t
      unfold NetconnSems.semaphore
      rw [(hthreads t).2, (hthreads t).1]
      rfl
    have hlive : s.live = ∅ := by
      ext k
      simp [NetconnSems.live, hkernel k]
    refine ⟨?_, ?_, ?_, ?_, ?_⟩
    · rw [hblocks, Finset.coe_empty]
      exact .empty hblock
    · rw [hlive]
      exact .empty hsem
    · simp [hblocks]
    · intro _ t
      unfold NetconnSems.Whole
      rw [(hthreads t).2]
      exact fun hne => absurd (hthreads t).1 hne
    · simp [hprinted, hfailed]
  · exact fun s e t _ hs hstep => hs.step hstep

/-- **One semaphore for each thread.** In every interleaving of the statements of any number of
threads, whatever others do with the two heaps, and whichever allocations fail:
`sys_arch_netconn_sem_get` gives two threads different blocks, with different kernel semaphores.
Each block and each kernel semaphore has exactly one thread, and when every slot is null again
nothing is left. `vSemaphoreDelete` is never called on a semaphore that is not there, nor `mem_free`
on a block that is not allocated. And an assertion has failed exactly when an allocation has: until
then every thread with a slot has a kernel semaphore, and no thread has stored through a null
pointer or been stopped by `configASSERT`. -/
theorem netconnSem_own [DecidableEq T] (queue : BoundedQueue Unit) (s : NetconnSems T queue)
    (h : (netconnSystem T queue).Reachable s) :
    (∀ t u, t ≠ u → s.pc t = .outside → s.pc u = .outside →
      s.sysArchNetconnSemGet t ≠ NULL → s.sysArchNetconnSemGet u ≠ NULL →
        s.sysArchNetconnSemGet t ≠ s.sysArchNetconnSemGet u ∧
        (s.mem (s.sysArchNetconnSemGet t) ≠ NULL →
          s.mem (s.sysArchNetconnSemGet t) ≠ s.mem (s.sysArchNetconnSemGet u))) ∧
      (∀ sem ∈ s.blocks, ∃! t, s.block t = some sem) ∧
      (∀ k, (s.kernel k).isSome → ∃! t, s.semaphore t = some k) ∧
      ((∀ t, s.pc t = .outside ∧ s.slot t = NULL) → s.blocks = ∅ ∧ ∀ k, s.kernel k = none) ∧
      (∀ t sem, s.pc t = .semDelete sem → s.mem sem ≠ NULL → (s.kernel (s.mem sem)).isSome) ∧
      (∀ t sem, s.pc t = .memFree sem → sem ∈ s.blocks) ∧
      (s.printed = [] ↔ s.failed = false) ∧
      (s.failed = false → ∀ t, (∀ k, s.pc t ≠ .undefined k) ∧ (∀ sem, s.pc t ≠ .halted sem) ∧
        (s.pc t = .outside → s.sysArchNetconnSemGet t ≠ NULL →
          (s.kernel (s.mem (s.sysArchNetconnSemGet t))).isSome)) := by
  have hinv := netconnInv_of_reachable h
  exact ⟨fun t u htu ht hu htne hune => hinv.distinct htu ht hu htne hune,
    fun sem hmem => hinv.blocks.existsUnique hmem,
    fun k hk => hinv.semaphores.existsUnique hk,
    hinv.nothing_left,
    fun t sem ht hne => hinv.deletes ht hne,
    fun t sem ht => hinv.frees ht,
    hinv.printed,
    fun hok t => ⟨hinv.ne_undefined hok t, hinv.ne_halted hok t, hinv.exists_semaphore hok⟩⟩

/-- Two threads without semaphores. -/
def netconnStart : NetconnSems Bool (.list Unit 1) where
  slot _ := NULL
  pc _ := .outside
  mem _ := NULL
  blocks := ∅
  others := ∅
  kernel _ := none
  printed := []
  failed := false

/-- A thread gets the block of another one, whose slot still points to it. -/
theorem netconnSem_own_reused : ∃ s : NetconnSems Bool (.list Unit 1),
    (netconnSystem Bool (.list Unit 1)).Reachable s ∧ s.slot true = 0x20000100 ∧
      s.slot false = 0x20000100 ∧ s.sysArchNetconnSemGet false = 0x20000100 ∧
      ∃! t, s.block t = some 0x20000100 := by
  have hstart : (netconnSystem Bool (.list Unit 1)).Reachable netconnStart :=
    .init ⟨fun _ => ⟨rfl, rfl⟩, rfl, fun _ => rfl, rfl, rfl⟩
  -- the first thread gets a semaphore
  have halloc := hstart.step (.alloc true rfl rfl)
  have hmalloc := halloc.step (.malloc true rfl (by decide : (0x20000100 : Addr) ≠ NULL)
    (by decide) (by decide))
  have hnew := hmalloc.step (.semNew true rfl (by decide)
    (by decide : (0x20001000 : Addr) ≠ NULL) rfl (by decide) rfl)
  have hset := hnew.step (.setSlot true rfl)
  -- and frees it, all but the slot
  have hfree := hset.step (.free true rfl (by decide))
  have hdelete := hfree.step (.semDelete true rfl (by decide))
  have hnull := hdelete.step (.setNull true rfl)
  have hmemFree := hnull.step (.memFree true rfl)
  -- the second thread gets the block
  have halloc' := hmemFree.step (.alloc false rfl rfl)
  have hmalloc' := halloc'.step (.malloc false rfl (by decide : (0x20000100 : Addr) ≠ NULL)
    (by decide) (by decide))
  have hnew' := hmalloc'.step (.semNew false rfl (by decide)
    (by decide : (0x20001000 : Addr) ≠ NULL) rfl (by decide) rfl)
  have hset' := hnew'.step (.setSlot false rfl)
  exact ⟨_, hset', rfl, rfl, rfl, (netconnSem_own _ _ hset').2.1 _ (by decide)⟩

end Stm32Eth.Sys
