import Mathlib.Data.Nat.Notation

/-!
# Labelled transition systems and deterministic runs

`System` is a nondeterministic machine: a predicate of initial states and labelled steps.
`Reachable` and `Run` close its steps, `restrict` keeps only the steps that meet a condition, and
`Simulation` and `Refinement` carry reachability from one system to another. An invariant holds of
every reachable state, and a potential bounds the steps of a run.

A deterministic machine is a step function, and its run over a list of events is `List.foldl`.
`Always` says that every step of such a run has a property of the state before it, the event and
the state after it.
-/

namespace Transition

variable {σ τ ε δ : Type*}

/-- A labelled transition system: the initial states and the labelled steps. -/
structure System (σ ε : Type*) where
  init : σ → Prop
  step : σ → ε → σ → Prop

namespace System

/-- The states a system reaches from an initial state. -/
inductive Reachable (M : System σ ε) : σ → Prop
  | init {s : σ} : M.init s → M.Reachable s
  | step {s t : σ} {e : ε} : M.Reachable s → M.step s e t → M.Reachable t

/-- `M.Run s es t`: the steps labelled `es`, in order, lead from `s` to `t`. -/
inductive Run (M : System σ ε) : σ → List ε → σ → Prop
  | nil (s : σ) : M.Run s [] s
  | cons {s t u : σ} {e : ε} {es : List ε} : M.step s e t → M.Run t es u → M.Run s (e :: es) u

variable {M : System σ ε}

/-- **The invariant rule.** A property of the initial states that every step from a reachable
state preserves holds of every reachable state. -/
theorem Reachable.invariant {P : σ → Prop} (hinit : ∀ s, M.init s → P s)
    (hstep : ∀ s e t, M.Reachable s → P s → M.step s e t → P t) {s : σ} (h : M.Reachable s) :
    P s := by
  induction h with
  | init h => exact hinit _ h
  | step hr hs ih => exact hstep _ _ _ hr ih hs

/-- A run from a reachable state ends in a reachable state. -/
theorem Reachable.run {s t : σ} {es : List ε} (h : M.Reachable s) (hr : M.Run s es t) :
    M.Reachable t := by
  induction hr with
  | nil => exact h
  | cons hs _ ih => exact ih (.step h hs)

/-- Runs compose. -/
theorem Run.append {s t u : σ} {es fs : List ε} (h : M.Run s es t) (h' : M.Run t fs u) :
    M.Run s (es ++ fs) u := by
  induction h with
  | nil => exact h'
  | cons hs _ ih => exact .cons hs (ih h')

/-- One step is a run. -/
theorem Run.single {s t : σ} {e : ε} (h : M.step s e t) : M.Run s [e] t :=
  .cons h (.nil t)

/-- A run goes on. -/
theorem Run.step {s t u : σ} {e : ε} {es : List ε} (h : M.Run s es t) (hs : M.step t e u) :
    M.Run s (es ++ [e]) u :=
  h.append (.single hs)

/-- **The potential rule.** `P s k` says that at most `k` counted steps can follow. When every step
keeps such a bound, and a counted one makes it smaller, a run has at most as many counted steps. -/
theorem Run.countP_le {P : σ → ℕ → Prop} {counted : ε → Bool}
    (hstep : ∀ s e t k, M.step s e t → P s k →
      ∃ k', P t k' ∧ k' + (if counted e then 1 else 0) ≤ k)
    {s t : σ} {es : List ε} {k : ℕ} (hrun : M.Run s es t) (hs : P s k) :
    es.countP counted ≤ k := by
  induction hrun generalizing k with
  | nil => exact Nat.zero_le _
  | cons h _ ih =>
      obtain ⟨k', hP, hk⟩ := hstep _ _ _ _ h hs
      have hrest := ih hP
      rw [List.countP_cons]
      omega

/-- The steps of `M` that meet the condition `ok` on the state before the step and its label. -/
def restrict (M : System σ ε) (ok : σ → ε → Prop) : System σ ε where
  init := M.init
  step s e t := M.step s e t ∧ ok s e

/-- What the restricted system reaches, the whole system reaches. -/
theorem Reachable.of_restrict {ok : σ → ε → Prop} {s : σ} (h : (M.restrict ok).Reachable s) :
    M.Reachable s := by
  induction h with
  | init h => exact .init h
  | step _ hs ih => exact .step ih hs.1

/-- A forward simulation of `M` by `N` along the abstraction `f`, under an invariant of `M`: an
initial state maps to an initial state, and a step either leaves the abstract state unchanged or
maps to an abstract step. -/
structure Simulation (M : System σ ε) (N : System τ δ) (f : σ → τ) (Inv : σ → Prop) : Prop where
  init : ∀ s, M.init s → N.init (f s)
  step : ∀ s e t, Inv s → M.step s e t → f t = f s ∨ ∃ d, N.step (f s) d (f t)

/-- A simulation maps reachable states to reachable states. -/
theorem Simulation.reachable {N : System τ δ} {f : σ → τ} {Inv : σ → Prop}
    (sim : Simulation M N f Inv) (hinv : ∀ s, M.Reachable s → Inv s) {s : σ}
    (h : M.Reachable s) : N.Reachable (f s) := by
  induction h with
  | init h => exact .init (sim.init _ h)
  | step hr hs ih =>
      rcases sim.step _ _ _ (hinv _ hr) hs with heq | ⟨d, hd⟩
      · exact heq ▸ ih
      · exact .step ih hd

/-- A forward simulation of `M` by `N` along a relation: a step from related states, of which the
abstract one is reachable, leaves the new concrete state related to the abstract one, or to the
state after an abstract step. -/
structure Refinement (M : System σ ε) (N : System τ δ) (R : σ → τ → Prop) : Prop where
  init : ∀ s, M.init s → ∃ c, N.init c ∧ R s c
  step : ∀ s e t c, N.Reachable c → R s c → M.step s e t → R t c ∨ ∃ d c', N.step c d c' ∧ R t c'

/-- Every state a refined system reaches is related to a reachable abstract one. -/
theorem Refinement.reachable {N : System τ δ} {R : σ → τ → Prop} (ref : Refinement M N R) {s : σ}
    (h : M.Reachable s) : ∃ c, N.Reachable c ∧ R s c := by
  induction h with
  | init h =>
      obtain ⟨c, hc, hR⟩ := ref.init _ h
      exact ⟨c, .init hc, hR⟩
  | step _ hs ih =>
      obtain ⟨c, hc, hR⟩ := ih
      rcases ref.step _ _ _ _ hc hR hs with hR' | ⟨d, c', hd, hR'⟩
      · exact ⟨c, hc, hR'⟩
      · exact ⟨c', hc.step hd, hR'⟩

end System

/-! ## Deterministic runs -/

/-- Every step of the run of `es` from `s` has the property `P` of the state before it, its event
and the state after it. -/
def Always (step : σ → ε → σ) (P : σ → ε → σ → Prop) : σ → List ε → Prop
  | _, [] => True
  | s, e :: es => P s e (step s e) ∧ Always step P (step s e) es

/-- **The invariant rule for deterministic runs.** An invariant that every step preserves, and
under which every step has the property, gives the property along every run. -/
theorem Always.of_invariant {step : σ → ε → σ} {P : σ → ε → σ → Prop} {Inv : σ → Prop}
    (hstep : ∀ s e, Inv s → P s e (step s e) ∧ Inv (step s e)) :
    ∀ {s : σ} (es : List ε), Inv s → Always step P s es
  | _, [], _ => trivial
  | s, e :: es, hs =>
      have h := hstep s e hs
      ⟨h.1, Always.of_invariant hstep es h.2⟩

/-- Under an invariant that every step preserves, a property that the event alone decides holds
along a run exactly when it holds of every event. -/
theorem Always.iff_forall {step : σ → ε → σ} {P : σ → ε → σ → Prop} {Inv : σ → Prop}
    {ok : ε → Prop} (hstep : ∀ s e, Inv s → (P s e (step s e) ↔ ok e) ∧ Inv (step s e))
    (es : List ε) {s : σ} (hs : Inv s) : Always step P s es ↔ ∀ e ∈ es, ok e := by
  induction es generalizing s with
  | nil => simp [Always]
  | cons e es ih =>
      obtain ⟨hok, hnext⟩ := hstep s e hs
      rw [Always, List.forall_mem_cons, hok, ih hnext]

end Transition
