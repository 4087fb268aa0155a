import Mathlib.Init

/-!
# Edge-latched status bits

A binary signal with two latches: every rising edge sets `rose`, every falling edge sets `fell`, and
a read clears both. What a reader learns about the edges since its last read is `Since`: the latches
tell the level unless both are set.
-/

namespace EdgeLatch

/-- A signal and the latches of its edges. -/
structure Latch where
  level : Bool
  rose : Bool
  fell : Bool
  deriving DecidableEq, Repr

namespace Latch

/-- An edge of the signal. -/
def toggle (l : Latch) : Latch where
  level := !l.level
  rose := l.rose || !l.level
  fell := l.fell || l.level

/-- The latches after a read. -/
def clear (l : Latch) : Latch := { l with rose := false, fell := false }

@[simp] theorem toggle_level (l : Latch) : l.toggle.level = !l.level := rfl

@[simp] theorem toggle_rose (l : Latch) : l.toggle.rose = (l.rose || !l.level) := rfl

@[simp] theorem toggle_fell (l : Latch) : l.toggle.fell = (l.fell || l.level) := rfl

@[simp] theorem clear_level (l : Latch) : l.clear.level = l.level := rfl

@[simp] theorem clear_rose (l : Latch) : l.clear.rose = false := rfl

@[simp] theorem clear_fell (l : Latch) : l.clear.fell = false := rfl

end Latch

/-- What the latches tell about the level, when it was `base` at the last read. -/
structure Since (base : Bool) (l : Latch) : Prop where
  quiet : l.rose = false → l.fell = false → l.level = base
  rose : l.rose = true → l.fell = false → base = false ∧ l.level = true
  fell : l.rose = false → l.fell = true → base = true ∧ l.level = false

/-- Nothing has happened right after a read. -/
theorem since_of_clear {l : Latch} (hrose : l.rose = false) (hfell : l.fell = false) :
    Since l.level l :=
  ⟨fun _ _ => rfl, fun h _ => absurd (hrose.symm.trans h) (by decide),
    fun _ h => absurd (hfell.symm.trans h) (by decide)⟩

/-- **Edges.** An edge preserves what the latches tell. -/
theorem Since.toggle {base : Bool} {l : Latch} (h : Since base l) : Since base l.toggle := by
  obtain ⟨hquiet, hrose, hfell⟩ := h
  obtain ⟨level, rose, fell⟩ := l
  refine ⟨?_, ?_, ?_⟩
  · -- the edge itself sets a latch
    cases level <;> simp
  · intro hr hf
    cases level with
    | true => simp at hf
    | false =>
        refine ⟨?_, rfl⟩
        cases rose with
        | true => exact absurd (hrose rfl (by simpa using hf)).2 Bool.false_ne_true
        | false => exact (hquiet rfl (by simpa using hf)).symm
  · intro hr hf
    cases level with
    | false => simp at hr
    | true =>
        refine ⟨?_, rfl⟩
        cases fell with
        | true => exact absurd (hfell (by simpa using hr) rfl).2 (Ne.symm Bool.false_ne_true)
        | false => exact (hquiet (by simpa using hr) rfl).symm

end EdgeLatch
