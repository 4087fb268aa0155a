import Mathlib.Algebra.Order.Group.Nat
import Mathlib.Data.Nat.Basic
import Mathlib.Data.Fintype.Defs
import Mathlib.Logic.Function.Basic

/-!
# Linker scripts

The part of the linker's command language that lays out output sections: the location counter moves
over the input sections of an output section, is aligned and skipped, and defines symbols. Each
output section takes its addresses from a memory region, and its load addresses from another one
when it is loaded there. A link fails when a region overflows.

Regions, classes of input sections and symbols are types of the script. The location counter never
moves back (`le_run`), so the sections of a region follow each other and, in a link that succeeds,
stay in it (`cursor_le_of_link`).
-/

namespace LinkerScript

variable {ρ κ σ : Type*}

/-! ## Alignment -/

/-- The first multiple of `n` from `a` on. -/
def alignUp (a n : ℕ) : ℕ := if n ≤ 1 then a else (a + n - 1) / n * n

/-- Aligning does not move the location counter back. -/
theorem le_alignUp (a n : ℕ) : a ≤ alignUp a n := by
  unfold alignUp
  split
  · exact le_rfl
  · have hdiv := Nat.div_add_mod (a + n - 1) n
    have hmod := Nat.mod_lt (a + n - 1) (show 0 < n by omega)
    rw [Nat.mul_comm] at hdiv
    omega

/-- An aligned address is a multiple. -/
theorem dvd_alignUp (a : ℕ) {n : ℕ} (hn : 0 < n) : n ∣ alignUp a n := by
  unfold alignUp
  split
  · obtain rfl : n = 1 := by omega
    exact Nat.one_dvd a
  · exact Nat.dvd_mul_left n _

/-- A multiple is aligned. -/
theorem alignUp_of_dvd {a n : ℕ} (h : n ∣ a) : alignUp a n = a := by
  unfold alignUp
  split
  · rfl
  · obtain ⟨k, rfl⟩ := h
    have hdiv : (n * k + n - 1) / n = k := by
      have hsum : n * k + n - 1 = n * k + (n - 1) := by omega
      rw [hsum, Nat.mul_add_div (by omega), Nat.div_eq_of_lt (by omega), Nat.add_zero]
    rw [hdiv, Nat.mul_comm]

/-- Aligning to a multiple of an alignment keeps it. -/
theorem dvd_alignUp_of_dvd {a n m : ℕ} (ha : n ∣ a) (hm : n ∣ m ∨ m ∣ n) (hm0 : 0 < m) :
    n ∣ alignUp a m := by
  rcases hm with hm | hm
  · exact Nat.dvd_trans hm (dvd_alignUp a hm0)
  · rw [alignUp_of_dvd (Nat.dvd_trans hm ha)]
    exact ha

/-! ## Scripts -/

/-- An input section: its size and the logarithm of its alignment. -/
structure Input where
  size : ℕ
  alignPower : ℕ

/-- A statement inside an output section. -/
inductive Stmt (κ σ : Type*)
  /-- `. = ALIGN(n);` -/
  | align (n : ℕ)
  /-- `symbol = .;` -/
  | symbol (s : σ)
  /-- `*(class)` -/
  | input (k : κ)
  /-- `. = . + n;` -/
  | skip (n : ℕ)

/-- An output section: its statements, the region of its addresses, the region it is loaded to if it
is another one, and the symbol assigned its load address. -/
structure Section (ρ κ σ : Type*) where
  body : List (Stmt κ σ)
  region : ρ
  loadRegion : Option ρ
  loadSymbol : Option σ

/-- A memory region. -/
structure Region where
  origin : ℕ
  length : ℕ

/-- The next free address of each region, and the symbols, 0 until they are defined. -/
structure Layout (ρ σ : Type*) where
  cursor : ρ → ℕ
  symbol : σ → ℕ

/-! ## Layout -/

/-- Place input sections one after the other, each aligned. -/
def placeInputs (dot : ℕ) (inputs : List Input) : ℕ :=
  inputs.foldl (fun dot i => alignUp dot (2 ^ i.alignPower) + i.size) dot

/-- Placing input sections does not move the location counter back. -/
theorem le_placeInputs (dot : ℕ) (inputs : List Input) : dot ≤ placeInputs dot inputs := by
  induction inputs generalizing dot with
  | nil => exact le_rfl
  | cons i inputs ih =>
      refine le_trans ?_ (ih _)
      exact (le_alignUp dot _).trans (Nat.le_add_right _ _)

variable (inputs : κ → List Input)

section

variable [DecidableEq σ]

/-- Execute a statement at a location counter. -/
def Stmt.run (dot : ℕ) (symbol : σ → ℕ) : Stmt κ σ → ℕ × (σ → ℕ)
  | .align n => (alignUp dot n, symbol)
  | .symbol s => (dot, Function.update symbol s dot)
  | .input k => (placeInputs dot (inputs k), symbol)
  | .skip n => (dot + n, symbol)

/-- Execute the statements of an output section. -/
def run : List (Stmt κ σ) → ℕ → (σ → ℕ) → ℕ × (σ → ℕ)
  | [], dot, symbol => (dot, symbol)
  | st :: body, dot, symbol =>
      run body (st.run inputs dot symbol).1 (st.run inputs dot symbol).2

/-- The location counter does not move back. -/
theorem le_run (body : List (Stmt κ σ)) (dot : ℕ) (symbol : σ → ℕ) :
    dot ≤ (run inputs body dot symbol).1 := by
  induction body generalizing dot symbol with
  | nil => exact le_rfl
  | cons st body ih =>
      refine le_trans ?_ (ih _ _)
      cases st with
      | align n => exact le_alignUp dot n
      | symbol s => exact le_rfl
      | input k => exact le_placeInputs dot _
      | skip n => exact Nat.le_add_right _ _

end

/-- The symbol a statement defines. -/
def Stmt.defines : Stmt κ σ → Option σ
  | .symbol s => some s
  | _ => none

/-- The symbols an output section defines. -/
def Section.defines (s : Section ρ κ σ) : List σ :=
  s.body.filterMap Stmt.defines ++ s.loadSymbol.toList

/-- Statements keep the symbols they do not define. -/
theorem run_symbol_of_notMem [DecidableEq σ] {body : List (Stmt κ σ)} {x : σ}
    (h : x ∉ body.filterMap Stmt.defines) (dot : ℕ) (symbol : σ → ℕ) :
    (run inputs body dot symbol).2 x = symbol x := by
  induction body generalizing dot symbol with
  | nil => rfl
  | cons st body ih =>
      cases st with
      | align n => exact ih h _ _
      | input k => exact ih h _ _
      | skip n => exact ih h _ _
      | symbol s =>
          have hne : x ≠ s ∧ x ∉ body.filterMap Stmt.defines := by
            simpa [List.filterMap_cons, Stmt.defines] using h
          refine (ih hne.2 _ _).trans ?_
          exact Function.update_of_ne hne.1 _ _

/-- The logarithm of the alignment of an output section: the largest of its input sections. -/
def alignPower (body : List (Stmt κ σ)) : ℕ :=
  body.foldl (fun p st =>
    match st with
    | .input k => (inputs k).foldl (fun p i => max p i.alignPower) p
    | _ => p) 0

variable [DecidableEq ρ] [DecidableEq σ]

/-- Where an output section starts. -/
def Section.start (s : Section ρ κ σ) (L : Layout ρ σ) : ℕ :=
  alignUp (L.cursor s.region) (2 ^ alignPower inputs s.body)

/-- Place an output section. -/
def Section.place (s : Section ρ κ σ) (L : Layout ρ σ) : Layout ρ σ :=
  let start := s.start inputs L
  let placed := run inputs s.body start L.symbol
  let cursor := Function.update L.cursor s.region placed.1
  match s.loadRegion with
  | none => ⟨cursor, placed.2⟩
  | some r =>
      -- the load address is the next free one of that region, without alignment
      { cursor := Function.update cursor r (cursor r + (placed.1 - start))
        symbol := match s.loadSymbol with
          | none => placed.2
          | some x => Function.update placed.2 x (cursor r) }

/-- The regions before the first section. -/
def Layout.initial (memory : ρ → Region) : Layout ρ σ := ⟨fun r => (memory r).origin, fun _ => 0⟩

/-- Place the output sections of a script, in order. -/
def layout (script : List (Section ρ κ σ)) (L : Layout ρ σ) : Layout ρ σ :=
  script.foldl (fun L s => s.place inputs L) L

/-- Link: `none` when a region overflows. -/
def link [Fintype ρ] (memory : ρ → Region) (script : List (Section ρ κ σ)) :
    Option (Layout ρ σ) :=
  if ∀ r, (layout inputs script (.initial memory)).cursor r
      ≤ (memory r).origin + (memory r).length then
    some (layout inputs script (.initial memory))
  else none

/-- Placing a section moves no region's cursor back. -/
theorem Section.cursor_le_place (s : Section ρ κ σ) (L : Layout ρ σ) (r : ρ) :
    L.cursor r ≤ (s.place inputs L).cursor r := by
  have hbody : L.cursor s.region ≤ (run inputs s.body (s.start inputs L) L.symbol).1 :=
    (le_alignUp _ _).trans (le_run _ _ _ _)
  have hupdate : L.cursor r ≤ Function.update L.cursor s.region
      (run inputs s.body (s.start inputs L) L.symbol).1 r := by
    by_cases hr : r = s.region
    · subst hr
      rwa [Function.update_self]
    · rw [Function.update_of_ne hr]
  unfold Section.place
  cases s.loadRegion with
  | none => exact hupdate
  | some r' =>
      by_cases hr : r = r'
      · subst hr
        simp only [Function.update_self]
        exact hupdate.trans (Nat.le_add_right _ _)
      · simp only [Function.update_of_ne hr]
        exact hupdate

/-- Nor does placing several. -/
theorem cursor_le_layout (script : List (Section ρ κ σ)) (L : Layout ρ σ) (r : ρ) :
    L.cursor r ≤ (layout inputs script L).cursor r := by
  induction script generalizing L with
  | nil => exact le_rfl
  | cons s script ih => exact (s.cursor_le_place inputs L r).trans (ih _)

/-- A region keeps its cursor while a section is placed elsewhere. -/
theorem Section.cursor_place_of_ne {s : Section ρ κ σ} {r : ρ} (hregion : s.region ≠ r)
    (hload : s.loadRegion ≠ some r) (L : Layout ρ σ) :
    (s.place inputs L).cursor r = L.cursor r := by
  unfold Section.place
  cases hs : s.loadRegion with
  | none => exact Function.update_of_ne hregion.symm _ _
  | some r' =>
      have hr' : r ≠ r' := by
        rintro rfl
        exact hload hs
      exact (Function.update_of_ne hr' _ _).trans (Function.update_of_ne hregion.symm _ _)

/-- The same for several sections. -/
theorem cursor_layout_of_ne {script : List (Section ρ κ σ)} {r : ρ}
    (h : ∀ s ∈ script, s.region ≠ r ∧ s.loadRegion ≠ some r) (L : Layout ρ σ) :
    (layout inputs script L).cursor r = L.cursor r := by
  induction script generalizing L with
  | nil => rfl
  | cons s script ih =>
      obtain ⟨hregion, hload⟩ := h s List.mem_cons_self
      show (layout inputs script (s.place inputs L)).cursor r = L.cursor r
      rw [ih fun s' hs' => h s' (List.mem_cons_of_mem _ hs')]
      exact Section.cursor_place_of_ne inputs hregion hload L

/-- A section keeps the symbols it does not define. -/
theorem Section.symbol_place_of_notMem {s : Section ρ κ σ} {x : σ} (h : x ∉ s.defines)
    (L : Layout ρ σ) : (s.place inputs L).symbol x = L.symbol x := by
  rw [Section.defines, List.mem_append, not_or] at h
  have hrun := run_symbol_of_notMem inputs h.1 (s.start inputs L) L.symbol
  unfold Section.place
  cases s.loadRegion with
  | none => exact hrun
  | some r =>
      cases hload : s.loadSymbol with
      | none => exact hrun
      | some y =>
          have hne : x ≠ y := by
            rintro rfl
            exact h.2 (by simp [hload])
          exact (Function.update_of_ne hne _ _).trans hrun

/-- The same for several sections. -/
theorem symbol_layout_of_notMem {script : List (Section ρ κ σ)} {x : σ}
    (h : ∀ s ∈ script, x ∉ s.defines) (L : Layout ρ σ) :
    (layout inputs script L).symbol x = L.symbol x := by
  induction script generalizing L with
  | nil => rfl
  | cons s script ih =>
      show (layout inputs script (s.place inputs L)).symbol x = L.symbol x
      rw [ih fun s' hs' => h s' (List.mem_cons_of_mem _ hs')]
      exact Section.symbol_place_of_notMem inputs (h s List.mem_cons_self) L

/-- Sections are placed one after the other. -/
theorem layout_append (pre suf : List (Section ρ κ σ)) (L : Layout ρ σ) :
    layout inputs (pre ++ suf) L = layout inputs suf (layout inputs pre L) :=
  List.foldl_append

/-- A link succeeds if no region overflows, with the layout of the script. -/
theorem link_eq_some_iff [Fintype ρ] {memory : ρ → Region} {script : List (Section ρ κ σ)}
    {L : Layout ρ σ} : link inputs memory script = some L ↔
      (∀ r, (layout inputs script (.initial memory)).cursor r
        ≤ (memory r).origin + (memory r).length) ∧ layout inputs script (.initial memory) = L := by
  rw [link, Option.ite_none_right_eq_some, Option.some.injEq]

/-- **No region overflows.** After any part of the script of a link that succeeds, each region's
cursor is in its region. -/
theorem cursor_le_of_link [Fintype ρ] {memory : ρ → Region} {pre suf : List (Section ρ κ σ)}
    {L : Layout ρ σ} (h : link inputs memory (pre ++ suf) = some L) (r : ρ) :
    (memory r).origin ≤ (layout inputs pre (.initial memory)).cursor r ∧
      (layout inputs pre (.initial memory)).cursor r ≤ (memory r).origin + (memory r).length := by
  refine ⟨cursor_le_layout inputs pre (.initial memory) r, ?_⟩
  have hfits := ((link_eq_some_iff inputs).mp h).1 r
  rw [layout_append] at hfits
  exact (cursor_le_layout inputs suf _ r).trans hfits

end LinkerScript
