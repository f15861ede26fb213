/-
Progress under a fair schedule.

Several movers take turns on one state, in an order nobody controls except that each moves again
and again.  A rank that no move raises, and that one mover lowers until it has, brings such a
system to its goal:

* **`runSched`** — a run under a schedule;
* **`Ranking`** — the rank, with the mover that lowers it;
* **`Ranking.eventually`** — every fair run reaches the goal.
-/
import Mathlib.Tactic

variable {ι σ : Type*}

/-- Each mover moves again and again. -/
def FairSched (sched : ℕ → ι) : Prop := ∀ i n, ∃ m, n ≤ m ∧ sched m = i

/-- The state after so many moves. -/
def runSched (step : ι → σ → σ) (sched : ℕ → ι) (s : σ) : ℕ → σ
  | 0 => s
  | n + 1 => step (sched n) (runSched step sched s n)

/-- What every move preserves holds all along. -/
theorem runSched_inv {step : ι → σ → σ} {inv : σ → Prop} (hstep : ∀ i s, inv s → inv (step i s))
    {s : σ} (hs : inv s) (sched : ℕ → ι) (n : ℕ) : inv (runSched step sched s n) := by
  induction n with
  | zero => exact hs
  | succ n ih => exact hstep _ _ ih

/-- A rank for the way to a goal: a move reaches the goal, or lowers the rank, or is not the
helpful mover's and leaves the rank and the helpful mover. -/
structure Ranking (step : ι → σ → σ) (inv goal : σ → Prop) (α : Type*) [Preorder α] where
  rank : σ → α
  helpful : σ → ι
  inv_step : ∀ i s, inv s → inv (step i s)
  move : ∀ i s, inv s → ¬ goal s → goal (step i s) ∨ rank (step i s) < rank s ∨
    (rank (step i s) = rank s ∧ helpful (step i s) = helpful s ∧ i ≠ helpful s)

variable {step : ι → σ → σ} {inv goal : σ → Prop} {α : Type*} [Preorder α]

/-- Until the goal or a lower rank, the same mover stays helpful. -/
theorem Ranking.steady (r : Ranking step inv goal α) {sched : ℕ → ι} {s : σ} (hs : inv s) (n d : ℕ)
    (hn : ¬ goal (runSched step sched s n)) :
    (∃ k, n < k ∧ (goal (runSched step sched s k) ∨
      r.rank (runSched step sched s k) < r.rank (runSched step sched s n))) ∨
    (r.rank (runSched step sched s (n + d)) = r.rank (runSched step sched s n) ∧
      r.helpful (runSched step sched s (n + d)) = r.helpful (runSched step sched s n) ∧
      ¬ goal (runSched step sched s (n + d))) := by
  induction d with
  | zero => exact Or.inr ⟨rfl, rfl, hn⟩
  | succ d ih =>
    rcases ih with h | ⟨hrank, hhelp, hgoal⟩
    · exact Or.inl h
    · rcases r.move (sched (n + d)) _ (runSched_inv r.inv_step hs sched (n + d)) hgoal with
        h | h | ⟨h1, h2, -⟩
      · exact Or.inl ⟨n + d + 1, by omega, Or.inl h⟩
      · refine Or.inl ⟨n + d + 1, by omega, Or.inr ?_⟩
        rw [← hrank]
        exact h
      · by_cases hg : goal (runSched step sched s (n + d + 1))
        · exact Or.inl ⟨n + d + 1, by omega, Or.inl hg⟩
        · exact Or.inr ⟨h1.trans hrank, h2.trans hhelp, hg⟩

/-- **Every fair run reaches the goal.** -/
theorem Ranking.eventually [WellFoundedLT α] (r : Ranking step inv goal α) {sched : ℕ → ι}
    (hfair : FairSched sched) {s : σ} (hs : inv s) : ∃ n, goal (runSched step sched s n) := by
  -- by induction on the rank reached so far
  suffices h : ∀ (a : α) (n : ℕ), r.rank (runSched step sched s n) = a →
      ∃ k, goal (runSched step sched s k) from h _ 0 rfl
  intro a
  induction a using WellFoundedLT.induction with
  | ind a ih =>
    intro n hn
    by_cases hg : goal (runSched step sched s n)
    · exact ⟨n, hg⟩
    · obtain ⟨m, hm, hmover⟩ := hfair (r.helpful (runSched step sched s n)) n
      obtain ⟨d, rfl⟩ := Nat.exists_eq_add_of_le hm
      have hlater : ∃ k, goal (runSched step sched s k) ∨
          r.rank (runSched step sched s k) < r.rank (runSched step sched s n) := by
        rcases r.steady hs n d hg with ⟨k, -, h⟩ | ⟨hrank, hhelp, hgoal⟩
        · exact ⟨k, h⟩
        · -- now it is the helpful mover's turn
          rcases r.move (sched (n + d)) _ (runSched_inv r.inv_step hs sched (n + d)) hgoal with
            h | h | ⟨-, -, hne⟩
          · exact ⟨n + d + 1, Or.inl h⟩
          · refine ⟨n + d + 1, Or.inr ?_⟩
            rw [← hrank]
            exact h
          · exact absurd (hmover.trans hhelp.symm) hne
      obtain ⟨k, h | h⟩ := hlater
      · exact ⟨k, h⟩
      · exact ih _ (hn ▸ h) k rfl
