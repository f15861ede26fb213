/-
A run through numbered stages, any of which may break it off.

`At k` describes the states of stage `k`.  While the stages succeed the run goes from one to the
next (`stage_of_ok`); a stage that does not succeed ends it.  So the run ends at the last stage or
right behind the first that fails (`stages_end`, `stages_break`), and it ends nowhere else
(`EndsIn.unique`, `EndsIn.later`).
-/
import Mathlib.Logic.Function.Iterate
import Mathlib.Order.Basic
import Mathlib.Data.Nat.Find

variable {σ : Type*} {step : σ → σ} {halt : σ → Prop} {s : σ}

/-- The run from `s` reaches `e` and halts there. -/
def EndsIn (step : σ → σ) (halt : σ → Prop) (s e : σ) : Prop := halt e ∧ ∃ n, step^[n] s = e

/-- A run that stays where it halts has one end. -/
theorem EndsIn.unique (hfix : ∀ t, halt t → step t = t) {e e' : σ}
    (h : EndsIn step halt s e) (h' : EndsIn step halt s e') : e = e' := by
  obtain ⟨hhalt, n, rfl⟩ := h
  obtain ⟨hhalt', n', rfl⟩ := h'
  have hstay : ∀ t, halt t → ∀ m, step^[m] t = t := fun t ht m => Function.iterate_fixed (hfix t ht) m
  rcases Nat.le_total n n' with hle | hle
  · rw [← Nat.sub_add_cancel hle, Function.iterate_add_apply, hstay _ hhalt]
  · rw [← Nat.sub_add_cancel hle, Function.iterate_add_apply, hstay _ hhalt']

/-- Before it halts, a run has not come to its end. -/
theorem EndsIn.later (hfix : ∀ t, halt t → step t = t) {e : σ} (h : EndsIn step halt s e) {m : ℕ}
    (hm : ¬ halt (step^[m] s)) : ∃ j, step^[j] (step^[m + 1] s) = e := by
  obtain ⟨hhalt, n, rfl⟩ := h
  have hlt : m < n := by
    by_contra hle
    refine hm ?_
    rw [← Nat.sub_add_cancel (Nat.le_of_not_lt hle), Function.iterate_add_apply,
      Function.iterate_fixed (hfix _ hhalt)]
    exact hhalt
  refine ⟨n - (m + 1), ?_⟩
  rw [← Function.iterate_add_apply, Nat.sub_add_cancel hlt]

section Stages

variable {At Broken : ℕ → σ → Prop} {ok : ℕ → Prop} {K : ℕ}

theorem stage_of_ok (h0 : At 0 s) (hok : ∀ k < K, ∀ t, At k t → ok k → At (k + 1) (step t)) :
    ∀ k ≤ K, (∀ i < k, ok i) → At k (step^[k] s) := by
  intro k
  induction k with
  | zero => exact fun _ _ => h0
  | succ k ih =>
    intro hk hall
    rw [Function.iterate_succ_apply']
    exact hok k hk _ (ih (Nat.le_of_succ_le hk) fun i hi => hall i (Nat.lt_succ_of_lt hi))
      (hall k (Nat.lt_succ_self k))

/-- **A run that is broken off** ends behind the first stage that fails. -/
theorem stages_break (h0 : At 0 s) (hok : ∀ k < K, ∀ t, At k t → ok k → At (k + 1) (step t))
    (hbad : ∀ k < K, ∀ t, At k t → ¬ ok k → halt (step t) ∧ Broken k (step t))
    (hex : ∃ k < K, ¬ ok k) :
    ∃ e, EndsIn step halt s e ∧ ∃ k < K, (∀ i < k, ok i) ∧ ¬ ok k ∧ Broken k e := by
  classical
  have hfirst := Nat.find_spec hex
  have hbefore : ∀ i < Nat.find hex, ok i := by
    intro i hi
    by_contra hne
    exact Nat.find_min hex hi ⟨hi.trans hfirst.1, hne⟩
  have hat : At (Nat.find hex) (step^[Nat.find hex] s) :=
    stage_of_ok h0 hok _ hfirst.1.le hbefore
  obtain ⟨hhalt, hbroken⟩ := hbad _ hfirst.1 _ hat hfirst.2
  rw [← Function.iterate_succ_apply' step] at hhalt hbroken
  exact ⟨_, ⟨hhalt, _, rfl⟩, _, hfirst.1, hbefore, hfirst.2, hbroken⟩

/-- **The end of a staged run.** -/
theorem stages_end (h0 : At 0 s) (hok : ∀ k < K, ∀ t, At k t → ok k → At (k + 1) (step t))
    (hbad : ∀ k < K, ∀ t, At k t → ¬ ok k → halt (step t) ∧ Broken k (step t))
    (hlast : ∀ t, At K t → halt t) :
    ∃ e, EndsIn step halt s e ∧
      (((∀ i < K, ok i) ∧ At K e) ∨ ∃ k < K, (∀ i < k, ok i) ∧ ¬ ok k ∧ Broken k e) := by
  by_cases hall : ∀ i < K, ok i
  · have hend : At K (step^[K] s) := stage_of_ok h0 hok K le_rfl hall
    exact ⟨_, ⟨hlast _ hend, K, rfl⟩, .inl ⟨hall, hend⟩⟩
  · push Not at hall
    obtain ⟨e, he, hbroken⟩ := stages_break h0 hok hbad hall
    exact ⟨e, he, .inr hbroken⟩

end Stages
