/-
Runs whose steps meet a condition.

A machine takes events one after another, and a condition on the state and the next event says which
steps are well behaved.

* **`Guarded.Along`** — every step of a run meets the condition, where it is taken;
* **`Guarded.Along.inv`** — what such steps keep, such a run keeps;
* **`Guarded.Along.of_inv`** — what such steps have besides, they have all along such a run;
* **`Guarded.follows_iff`** — a run keeps up with an abstract state iff each of its steps does.
-/
import Mathlib.Tactic.Common

namespace Guarded

variable {σ ε : Type*} {step : σ → ε → σ} {P Q : σ → ε → Prop} {I : σ → Prop} {s : σ} {es : List ε}

/-- Every step of the run meets the condition, where it is taken. -/
def Along (step : σ → ε → σ) (P : σ → ε → Prop) : σ → List ε → Prop
  | _, [] => True
  | s, e :: es => P s e ∧ Along step P (step s e) es

instance Along.decidable [∀ s e, Decidable (P s e)] : ∀ s es, Decidable (Along step P s es)
  | _, [] => isTrue trivial
  | s, e :: es => @instDecidableAnd _ _ _ (Along.decidable (step s e) es)

/-- **Invariants**: what the steps that meet the condition keep, the run keeps. -/
theorem Along.inv (hstep : ∀ s e, I s → P s e → I (step s e)) (hs : I s) (h : Along step P s es) :
    I (es.foldl step s) := by
  induction es generalizing s with
  | nil => exact hs
  | cons e es ih => exact ih (hstep s e hs h.1) h.2

/-- **Consequences**: where the steps that meet the condition also have another property, and keep what
it needs, they have it all along the run. -/
theorem Along.of_inv (hstep : ∀ s e, I s → P s e → I (step s e) ∧ Q s e) (hs : I s)
    (h : Along step P s es) : Along step Q s es := by
  induction es generalizing s with
  | nil => trivial
  | cons e es ih => exact ⟨(hstep s e hs h.1).2, ih (hstep s e hs h.1).1 h.2⟩

theorem Along.mono (hPQ : ∀ s e, P s e → Q s e) (h : Along step P s es) : Along step Q s es := by
  induction es generalizing s with
  | nil => trivial
  | cons e es ih => exact ⟨hPQ s e h.1, ih h.2⟩

/-- The parts of a run meet what the whole does. -/
theorem along_append {fs : List ε} :
    Along step P s (es ++ fs) ↔ Along step P s es ∧ Along step P (es.foldl step s) fs := by
  induction es generalizing s with
  | nil => exact ⟨fun h => ⟨trivial, h⟩, And.right⟩
  | cons e es ih =>
    rw [List.cons_append, List.foldl_cons]
    show (P s e ∧ Along step P (step s e) (es ++ fs)) ↔ (P s e ∧ Along step P (step s e) es) ∧ _
    rw [ih, and_assoc]

/-! ### An abstract state beside the run -/

section Follows

variable {μ : Type*} {obs : σ → μ} {spec : σ → μ → ε → μ}

/-- The abstract state after a run, where `spec` says what an event makes of it in the state of the
machine that the event comes in. -/
def shadow (step : σ → ε → σ) (spec : σ → μ → ε → μ) : σ → μ → List ε → μ
  | _, m, [] => m
  | s, m, e :: es => shadow step spec (step s e) (spec s m e) es

/-- **A run keeps up with the abstract state**, in all the states it goes through, iff each of its steps
does. -/
theorem follows_iff :
    (∀ n, obs ((es.take n).foldl step s) = shadow step spec s (obs s) (es.take n)) ↔
      Along step (fun s e => obs (step s e) = spec s (obs s) e) s es := by
  induction es generalizing s with
  | nil => exact iff_of_true (fun n => by rw [List.take_nil]; rfl) trivial
  | cons e es ih =>
    constructor
    · intro h
      have hhead : obs (step s e) = spec s (obs s) e := h 1
      refine ⟨hhead, ih.mp fun n => ?_⟩
      rw [hhead]
      exact h (n + 1)
    · rintro ⟨hhead, htail⟩ (_ | n)
      · rfl
      · have h := ih.mpr htail n
        rwa [hhead] at h

end Follows

end Guarded
