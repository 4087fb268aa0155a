import Mathlib.Data.List.Induction

/-!
# Cutting a stream into frames

A stream of items, some of which end a frame. `frames last l` are the complete frames of the stream
`l` and the items after the last complete one. No item is lost, duplicated or reordered, and each
complete frame ends with its only ending item.
-/

namespace Framing

variable {α : Type*} (last : α → Bool)

/-- One more item: it ends the frame under construction, or extends it. -/
def extend (s : List (List α) × List α) (a : α) : List (List α) × List α :=
  if last a then (s.1 ++ [s.2 ++ [a]], []) else (s.1, s.2 ++ [a])

/-- The complete frames of a stream, and the items after them. -/
def frames (l : List α) : List (List α) × List α := l.foldl (extend last) ([], [])

@[simp] theorem frames_nil : frames last ([] : List α) = ([], []) := rfl

/-- The stream grows by one item. -/
theorem frames_concat (l : List α) (a : α) :
    frames last (l ++ [a]) = extend last (frames last l) a := by
  rw [frames, List.foldl_append]
  rfl

/-- An ending item completes the frame under construction. -/
theorem frames_concat_last (l : List α) {a : α} (h : last a = true) :
    frames last (l ++ [a]) = ((frames last l).1 ++ [(frames last l).2 ++ [a]], []) := by
  rw [frames_concat, extend, if_pos h]

/-- Any other item extends it. -/
theorem frames_concat_of_not_last (l : List α) {a : α} (h : last a = false) :
    frames last (l ++ [a]) = ((frames last l).1, (frames last l).2 ++ [a]) := by
  rw [frames_concat, extend, if_neg (by simp [h])]

/-- **Nothing is lost, duplicated or reordered.** The frames and the rest are the stream. -/
theorem flatten_frames (l : List α) : (frames last l).1.flatten ++ (frames last l).2 = l := by
  induction l using List.reverseRecOn with
  | nil => rfl
  | append_singleton l a ih =>
      cases h : last a with
      | true =>
          rw [frames_concat_last last l h, List.flatten_append, List.append_nil,
            List.flatten_singleton, ← List.append_assoc, ih]
      | false => rw [frames_concat_of_not_last last l h, ← List.append_assoc, ih]

/-- **Frames end where they should.** Each complete frame ends with an ending item and has no other,
and the rest has none. -/
theorem frames_last (l : List α) :
    (∀ f ∈ (frames last l).1, ∃ init a, f = init ++ [a] ∧ last a = true ∧
      ∀ b ∈ init, last b = false) ∧ ∀ b ∈ (frames last l).2, last b = false := by
  induction l using List.reverseRecOn with
  | nil => simp
  | append_singleton l a ih =>
      obtain ⟨hframes, hrest⟩ := ih
      cases h : last a with
      | true =>
          rw [frames_concat_last last l h]
          refine ⟨fun f hf => ?_, by simp⟩
          rcases List.mem_append.mp hf with hf | hf
          · exact hframes f hf
          · obtain rfl := List.mem_singleton.mp hf
            exact ⟨_, a, rfl, h, hrest⟩
      | false =>
          rw [frames_concat_of_not_last last l h]
          refine ⟨hframes, fun b hb => ?_⟩
          rcases List.mem_append.mp hb with hb | hb
          · exact hrest b hb
          · obtain rfl := List.mem_singleton.mp hb
            exact h

end Framing
