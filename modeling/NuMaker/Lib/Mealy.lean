/-
Machines that put out a letter for each letter that they read.

* **`Mealy.run`** — the outputs and the state at the end;
* **`Mealy.run_inverse`** — a machine that undoes another step by step undoes its runs;
* **`Mealy.agree_iff`** — two machines put out the same on a run iff they do at each step of it;
* **`Mealy.restarts_iff`** — where the state can be told from the first output, a machine that is set
  back between the pieces of its input puts out the same only if it was in that state anyway.
-/
import Mathlib.Tactic.Common
import NuMaker.Lib.Guarded

namespace Mealy

variable {σ α β : Type*} {step : σ → α → β × σ} {s t : σ}

/-- The outputs on a list of letters, and the state at the end. -/
def run (step : σ → α → β × σ) : σ → List α → List β × σ
  | s, [] => ([], s)
  | s, a :: as =>
    let (b, s') := step s a
    let (bs, s'') := run step s' as
    (b :: bs, s'')

theorem run_append : ∀ (s : σ) (as as' : List α),
    run step s (as ++ as') =
      ((run step s as).1 ++ (run step (run step s as).2 as').1, (run step (run step s as).2 as').2)
  | _, [], _ => rfl
  | s, a :: as, as' => by
    simp only [List.cons_append, run]
    rw [run_append _ as as']

@[simp] theorem run_length : ∀ (s : σ) (as : List α), (run step s as).1.length = as.length
  | _, [] => rfl
  | s, a :: as => congrArg (· + 1) (run_length (step s a).2 as)

/-- The outputs on the pieces of a list, the state being handed on from piece to piece. -/
def runs (step : σ → α → β × σ) : σ → List (List α) → List β
  | _, [] => []
  | s, p :: ps => (run step s p).1 ++ runs step (run step s p).2 ps

theorem runs_eq : ∀ (s : σ) (ps : List (List α)), runs step s ps = (run step s ps.flatten).1
  | _, [] => rfl
  | s, p :: ps => by
    rw [runs, runs_eq _ ps, List.flatten_cons, run_append]

/-! ### Inverse machines -/

/-- **A machine that undoes each step** undoes a run, and goes through the same states. -/
theorem run_inverse {inv : σ → β → α × σ}
    (h : ∀ s a, inv s (step s a).1 = (a, (step s a).2)) : ∀ (s : σ) (as : List α),
    run inv s (run step s as).1 = (as, (run step s as).2)
  | _, [] => rfl
  | s, a :: as => by
    have ih := run_inverse h (step s a).2 as
    simp only [run, h, ih]

/-! ### Machines side by side -/

/-- **Two machines that go through related states** put out the same on a run iff they do at each of its
steps. -/
theorem agree_iff {τ : Type*} {step' : τ → α → β × τ} {R : σ → τ → Prop} {P : τ → α → Prop}
    (hR : ∀ s t a, R s t → R (step s a).2 (step' t a).2)
    (hP : ∀ s t a, R s t → ((step s a).1 = (step' t a).1 ↔ P t a)) {as : List α} {s : σ} {t : τ}
    (h : R s t) :
    (run step s as).1 = (run step' t as).1 ↔ Guarded.Along (fun t a => (step' t a).2) P t as := by
  induction as generalizing s t with
  | nil => exact iff_of_true rfl trivial
  | cons a as ih =>
    show (step s a).1 :: (run step (step s a).2 as).1 =
      (step' t a).1 :: (run step' (step' t a).2 as).1 ↔ P t a ∧ Guarded.Along _ P (step' t a).2 as
    rw [List.cons.injEq, hP s t a h, ih (hR s t a h)]

/-! ### Being set back -/

/-- The outputs on the pieces of a list, the state being set back to `s` before each of them. -/
def restarts (step : σ → α → β × σ) (s : σ) (ps : List (List α)) : List β :=
  (ps.map fun p => (run step s p).1).flatten

/-- The machine shows its state in its first output. -/
theorem run_injective (hinj : ∀ s t a, (step s a).1 = (step t a).1 → s = t) :
    ∀ {p : List α}, p ≠ [] → (run step s p).1 = (run step t p).1 → s = t
  | [], hp, _ => absurd rfl hp
  | a :: _, _, h => hinj s t a (List.cons.inj h).1

/-- From a state `t`, and set back to `s`. -/
theorem restarts_iff_from (hinj : ∀ s t a, (step s a).1 = (step t a).1 → s = t) :
    ∀ (ps : List (List α)) (t : σ), (∀ p ∈ ps, p ≠ []) →
      (restarts step s ps = (run step t ps.flatten).1 ↔
        ∀ before p after, ps = before ++ p :: after → (run step t before.flatten).2 = s)
  | [], _, _ => by
    refine iff_of_true rfl fun before p after h => ?_
    exact absurd h.symm (List.append_ne_nil_of_right_ne_nil before (List.cons_ne_nil p after))
  | p :: ps, t, hne => by
    have hp := hne p List.mem_cons_self
    have ih := restarts_iff_from hinj ps (run step t p).2 fun q hq => hne q (List.mem_cons_of_mem p hq)
    have hlen : (run step s p).1.length = (run step t p).1.length := by
      rw [run_length, run_length]
    rw [List.flatten_cons, run_append]
    show (run step s p).1 ++ restarts step s ps = _ ++ _ ↔ _
    constructor
    · intro h
      obtain ⟨hfirst, hrest⟩ := List.append_inj h hlen
      intro before q after hps
      cases before with
      | nil => exact (run_injective hinj hp hfirst).symm
      | cons p' before =>
        obtain ⟨rfl, htail⟩ := List.cons.inj hps
        rw [List.flatten_cons, run_append]
        exact ih.1 hrest before q after htail
    · intro h
      have hst : t = s := h [] p ps rfl
      have hrest := ih.2 fun before q after hps => by
        have := h (p :: before) q after (congrArg (p :: ·) hps)
        rwa [List.flatten_cons, run_append] at this
      rw [hrest, hst]

/-- **Being set back is harmless** exactly where the machine comes back by itself. -/
theorem restarts_iff (hinj : ∀ s t a, (step s a).1 = (step t a).1 → s = t) {ps : List (List α)}
    (hne : ∀ p ∈ ps, p ≠ []) :
    restarts step s ps = (run step s ps.flatten).1 ↔
      ∀ before p after, ps = before ++ p :: after → (run step s before.flatten).2 = s :=
  restarts_iff_from hinj ps s hne

end Mealy
