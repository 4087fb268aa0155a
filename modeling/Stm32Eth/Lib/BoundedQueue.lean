import Mathlib.Algebra.Order.Group.Nat

/-!
# Bounded queues

A queue of at most `length` messages by its laws: a message gets in at the back when there is room,
and the one at the front comes out.
-/

/-- A queue of at most `length` messages. `send` and `receive` are attempts, which do not get through
when they give `none`. -/
structure BoundedQueue (M : Type*) where
  Carrier : Type
  length : ℕ
  empty : Carrier
  contents : Carrier → List M
  send : M → Carrier → Option Carrier
  receive : Carrier → Option (M × Carrier)
  contents_empty : contents empty = []
  send_full : ∀ m q, length ≤ (contents q).length → send m q = none
  send_room : ∀ m q, (contents q).length < length →
    ∃ q', send m q = some q' ∧ contents q' = contents q ++ [m]
  receive_nil : ∀ q, contents q = [] → receive q = none
  receive_cons : ∀ q m l, contents q = m :: l → ∃ q', receive q = some (m, q') ∧ contents q' = l

namespace BoundedQueue

variable {M : Type*} (queue : BoundedQueue M) {m : M} {q q' : queue.Carrier}

/-- A message gets in at the back, when there is room. -/
theorem contents_of_send (h : queue.send m q = some q') :
    queue.contents q' = queue.contents q ++ [m] ∧ (queue.contents q).length < queue.length := by
  by_cases hroom : (queue.contents q).length < queue.length
  · obtain ⟨r, hr, hcontents⟩ := queue.send_room m q hroom
    obtain rfl := Option.some.inj (hr.symm.trans h)
    exact ⟨hcontents, hroom⟩
  · rw [queue.send_full m q (not_lt.mp hroom)] at h
    exact absurd h.symm (Option.some_ne_none _)

/-- A message that does not get in finds the queue full. -/
theorem full_of_send (h : queue.send m q = none) : queue.length ≤ (queue.contents q).length := by
  by_contra hroom
  obtain ⟨q', hq', -⟩ := queue.send_room m q (not_le.mp hroom)
  rw [h] at hq'
  exact absurd hq'.symm (Option.some_ne_none _)

/-- The message at the front comes out. -/
theorem contents_of_receive (h : queue.receive q = some (m, q')) :
    queue.contents q = m :: queue.contents q' := by
  cases hcontents : queue.contents q with
  | nil =>
      rw [queue.receive_nil q hcontents] at h
      exact absurd h.symm (Option.some_ne_none _)
  | cons m' l =>
      obtain ⟨r, hr, hl⟩ := queue.receive_cons q m' l hcontents
      obtain ⟨rfl, rfl⟩ := Prod.mk.inj (Option.some.inj (hr.symm.trans h))
      rw [hl]

/-- A queue with room for a message is never both full and empty. -/
theorem exists_send_or_receive (hlength : 0 < queue.length) (m : M) (q : queue.Carrier) :
    (∃ q', queue.send m q = some q') ∨ ∃ m' q', queue.receive q = some (m', q') := by
  cases hcontents : queue.contents q with
  | nil =>
      obtain ⟨q', hq', -⟩ := queue.send_room m q (by rw [hcontents]; exact hlength)
      exact .inl ⟨q', hq'⟩
  | cons m' l =>
      obtain ⟨q', hq', -⟩ := queue.receive_cons q m' l hcontents
      exact .inr ⟨m', q', hq'⟩

/-- A list of at most `length` messages. -/
def list (M : Type) (length : ℕ) : BoundedQueue M where
  Carrier := List M
  length := length
  empty := []
  contents q := q
  send m q := if q.length < length then some (q ++ [m]) else none
  receive q := match q with
    | [] => none
    | m :: l => some (m, l)
  contents_empty := rfl
  send_full _ _ h := if_neg (not_lt.mpr h)
  send_room _ _ h := ⟨_, if_pos h, rfl⟩
  receive_nil _ h := by
    subst h
    rfl
  receive_cons _ _ _ h := by
    subst h
    exact ⟨_, rfl, rfl⟩

end BoundedQueue
