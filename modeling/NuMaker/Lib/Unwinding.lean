/-
Runs with and without the steps of others.

Some of the steps of a machine are one party's own, and a view of the state is what that party
knows of it.

* **`Unwinding.Closed`** — the party's own steps, and what they return, depend on its view only;
* **`Unwinding.Closed.run_eq`** — where the other steps of a run leave the view alone, the run is for
  this party what it is without them.
-/
import NuMaker.Lib.Guarded

namespace Unwinding

variable {σ ε ω V : Type*} {step : σ → ε → σ} {out : σ → ε → ω} {own : ε → Bool} {view : σ → V}

/-- What the party's own steps return along a run. -/
def outputs (step : σ → ε → σ) (out : σ → ε → ω) (own : ε → Bool) : σ → List ε → List ω
  | _, [] => []
  | s, e :: es =>
    if own e then out s e :: outputs step out own (step s e) es
    else outputs step out own (step s e) es

/-- The party's own steps depend on its view only. -/
structure Closed (step : σ → ε → σ) (out : σ → ε → ω) (own : ε → Bool) (view : σ → V) : Prop where
  step_eq : ∀ {s t e}, own e = true → view s = view t → view (step s e) = view (step t e)
  out_eq : ∀ {s t e}, own e = true → view s = view t → out s e = out t e

/-- **Independence**: along a run whose other steps do not show, nothing does. -/
theorem Closed.run_eq (h : Closed step out own view) {es : List ε} :
    ∀ {s t : σ}, view s = view t →
      Guarded.Along step (fun s e => own e = false → view (step s e) = view s) s es →
      view (es.foldl step s) = view ((es.filter own).foldl step t) ∧
        outputs step out own s es = outputs step out own t (es.filter own) := by
  induction es with
  | nil => exact fun hview _ => ⟨hview, rfl⟩
  | cons e es ih =>
    intro s t hview halong
    cases hown : own e with
    | true =>
      obtain ⟨hfinal, houts⟩ := ih (h.step_eq hown hview) halong.2
      rw [List.filter_cons_of_pos hown]
      refine ⟨hfinal, ?_⟩
      rw [outputs, outputs, if_pos hown, if_pos hown, h.out_eq hown hview, houts]
    | false =>
      obtain ⟨hfinal, houts⟩ := ih ((halong.1 hown).trans hview) halong.2
      have hnot : ¬ own e = true := by rw [hown]; exact Bool.false_ne_true
      rw [List.filter_cons_of_neg hnot]
      refine ⟨hfinal, ?_⟩
      rw [outputs, if_neg hnot, houts]

end Unwinding
