/-
Runs of a machine that takes an event only where it can.

`step s e` is `none` where the event `e` cannot happen in `s`.  What every step keeps holds in every
state that a run reaches (`Reachable.inv`), and a list of events that can happen one after the other is a
run (`Reachable.of_run`).
-/
import Mathlib.Data.Option.Basic

variable {σ ε : Type*} {step : σ → ε → Option σ} {s₀ s s' : σ}

/-- The states that runs from `s₀` reach. -/
inductive Reachable (step : σ → ε → Option σ) (s₀ : σ) : σ → Prop
  | start : Reachable step s₀ s₀
  | step {s s' : σ} {e : ε} (h : Reachable step s₀ s) (hs : step s e = some s') : Reachable step s₀ s'

namespace Reachable

theorem inv {I : σ → Prop} (h : Reachable step s₀ s) (h₀ : I s₀)
    (hstep : ∀ s e s', I s → step s e = some s' → I s') : I s := by
  induction h with
  | start => exact h₀
  | step _ hs ih => exact hstep _ _ _ ih hs

theorem trans (h : Reachable step s₀ s) (h' : Reachable step s s') : Reachable step s₀ s' := by
  induction h' with
  | start => exact h
  | step _ hs ih => exact ih.step hs

/-- The state after a list of events. -/
def run (step : σ → ε → Option σ) : σ → List ε → Option σ
  | s, [] => some s
  | s, e :: es => (step s e).bind fun s => run step s es

theorem of_run (es : List ε) (h : Reachable step s₀ s) (hs : run step s es = some s') : Reachable step s₀ s' := by
  induction es generalizing s with
  | nil =>
    obtain rfl := Option.some_inj.mp hs
    exact h
  | cons e es ih =>
    obtain ⟨s₁, h₁, hs⟩ := Option.bind_eq_some_iff.mp hs
    exact ih (h.step h₁) hs

end Reachable
