import Mathlib.Data.List.Nodup
import Mathlib.Logic.Function.Basic

/-!
# Singly linked chains

A memory gives every address the address of its successor, and a distinguished address ends a
chain. `Chain next p l` says that following `next` from `p` visits exactly the addresses `l` and
then meets the end. The chain of an address is unique and acyclic, it depends only on the
successors of its own addresses, and appending a fresh address through the last one extends it.
-/

namespace Linked

variable {α : Type*} {null : α}

/-- Following `next` from an address visits exactly the listed addresses, none of them `null`,
and ends at `null`. -/
inductive Chain (null : α) (next : α → α) : α → List α → Prop
  | nil : Chain null next null []
  | cons {p : α} {l : List α} : p ≠ null → Chain null next (next p) l → Chain null next p (p :: l)

namespace Chain

variable {next next' : α → α} {p q : α} {l l' : List α}

/-- The chain of an address is unique. -/
theorem unique (h : Chain null next p l) (h' : Chain null next p l') : l = l' := by
  induction h generalizing l' with
  | nil =>
      cases h' with
      | nil => rfl
      | cons hne _ => exact absurd rfl hne
  | cons hp _ ih =>
      cases h' with
      | nil => exact absurd rfl hp
      | cons _ h' => rw [ih h']

/-- The chain from `null` is empty. -/
theorem eq_nil (h : Chain null next null l) : l = [] :=
  h.unique .nil

/-- A chain from anywhere else starts with its address. -/
theorem exists_cons (h : Chain null next p l) (hp : p ≠ null) :
    ∃ t, l = p :: t ∧ Chain null next (next p) t := by
  cases h with
  | nil => exact absurd rfl hp
  | cons _ ht => exact ⟨_, rfl, ht⟩

/-- A chain is empty exactly when it starts at `null`. -/
theorem eq_nil_iff (h : Chain null next p l) : l = [] ↔ p = null := by
  constructor
  · rintro rfl
    cases h
    rfl
  · rintro rfl
    exact h.eq_nil

/-- No address of a chain is `null`. -/
theorem ne_null (h : Chain null next p l) : ∀ a ∈ l, a ≠ null := by
  induction h with
  | nil => simp
  | cons hp _ ih => simpa [hp] using ih

/-- From any address of a chain on, the rest of the chain is that address's chain. -/
theorem suffix (h : Chain null next p l) :
    ∀ {pre suf : List α} {a : α}, l = pre ++ a :: suf → Chain null next a (a :: suf) := by
  induction h with
  | nil => simp
  | cons hp ht ih =>
      rintro (_ | ⟨b, pre⟩) suf a heq
      · obtain ⟨rfl, rfl⟩ := List.cons.inj heq
        exact .cons hp ht
      · obtain ⟨-, rfl⟩ := List.cons.inj heq
        exact ih rfl

/-- A chain never visits an address twice. -/
theorem nodup (h : Chain null next p l) : l.Nodup := by
  induction h with
  | nil => exact List.nodup_nil
  | @cons p l hp ht ih =>
      refine List.nodup_cons.mpr ⟨fun hmem => ?_, ih⟩
      -- a second visit of `p` would make its chain a proper suffix of itself
      obtain ⟨pre, suf, rfl⟩ := List.append_of_mem hmem
      have hlen := congrArg List.length ((ht.suffix rfl).unique (.cons hp ht))
      simp only [List.length_cons, List.length_append] at hlen
      omega

/-- **Frame.** A chain survives every change of the memory outside its addresses. -/
theorem frame (h : Chain null next p l) (heq : ∀ a ∈ l, next' a = next a) :
    Chain null next' p l := by
  induction h with
  | nil => exact .nil
  | @cons p l hp ht ih =>
      refine .cons hp ?_
      rw [heq p (by simp)]
      exact ih fun a ha => heq a (by simp [ha])

/-- The chain of a single address that ends there. -/
theorem singleton (hp : p ≠ null) (hnext : next p = null) : Chain null next p [p] :=
  .cons hp (hnext ▸ .nil)

/-- **Append.** Pointing the last address of a chain at a fresh address that ends there extends
the chain by that address. -/
theorem snoc {init : List α} {e : α} (h : Chain null next p (init ++ [e])) (hq : q ≠ null)
    (hfresh : q ∉ init ++ [e]) (hlast : next' e = q) (hend : next' q = null)
    (heq : ∀ a, a ≠ e → a ≠ q → next' a = next a) :
    Chain null next' p (init ++ [e] ++ [q]) := by
  induction init generalizing p with
  | nil =>
      cases h with
      | cons he _ =>
          refine .cons he ?_
          rw [hlast]
          exact singleton hq hend
  | cons a init ih =>
      have hnd := h.nodup
      cases h with
      | cons ha ht =>
          simp only [List.cons_append, List.nodup_cons, List.mem_append, List.mem_singleton,
            not_or] at hnd
          simp only [List.cons_append, List.mem_cons, not_or] at hfresh
          refine .cons ha ?_
          rw [heq a hnd.1.2 (Ne.symm hfresh.1)]
          exact ih ht hfresh.2

end Chain

open Classical in
/-- The chain of an address, empty when the address has none. -/
noncomputable def nodes (null : α) (next : α → α) (p : α) : List α :=
  if h : ∃ l, Chain null next p l then h.choose else []

/-- `nodes` is the chain when there is one. -/
theorem Chain.nodes_eq {next : α → α} {p : α} {l : List α} (h : Chain null next p l) :
    nodes null next p = l := by
  have hex : ∃ l, Chain null next p l := ⟨l, h⟩
  rw [nodes, dif_pos hex]
  exact hex.choose_spec.unique h

/-- The chain of `null` is empty. -/
theorem nodes_null (next : α → α) : nodes null next null = [] :=
  Chain.nil.nodes_eq

end Linked
