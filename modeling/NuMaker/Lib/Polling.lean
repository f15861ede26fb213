/-
Waiting for a flag by reading it again and again.

`poll read n s` reads at most `n` times, each read moving the state on, and stops at the first that
shows the flag.

* **`poll_rule`** — the loop's rule: an invariant of the reads that do not show the flag, and what
  the one that does leaves;
* **`poll_seen_iff`** — where the reads left until the flag are known, it is seen if there are fewer
  than the loop makes;
* **`poll_expired`** — a flag that no read shows is waited for in vain.
-/
import Mathlib.Tactic.Common

variable {σ : Type*}

/-- Whether the flag was seen within `n` reads, and the state after them. -/
def poll (read : σ → Bool × σ) : ℕ → σ → Bool × σ
  | 0, s => (false, s)
  | n + 1, s => if (read s).1 then (true, (read s).2) else poll read n (read s).2

section Polling

variable {read : σ → Bool × σ} {I Q : σ → Prop} {n : ℕ} {s : σ}

@[simp] theorem poll_zero (read : σ → Bool × σ) (s : σ) : poll read 0 s = (false, s) := rfl

theorem poll_succ_of_seen (h : (read s).1 = true) : poll read (n + 1) s = (true, (read s).2) := by
  rw [poll, if_pos h]

theorem poll_succ_of_not_seen (h : (read s).1 = false) :
    poll read (n + 1) s = poll read n (read s).2 := by
  rw [poll, if_neg (by rw [h]; exact Bool.false_ne_true)]

theorem poll_of_seen (hn : n ≠ 0) (h : (read s).1 = true) : poll read n s = (true, (read s).2) := by
  obtain ⟨n, rfl⟩ := Nat.exists_eq_succ_of_ne_zero hn
  exact poll_succ_of_seen h

/-- **The rule of the loop.** -/
theorem poll_rule (hstep : ∀ s, I s → if (read s).1 then Q (read s).2 else I (read s).2) (hs : I s) :
    if (poll read n s).1 then Q (poll read n s).2 else I (poll read n s).2 := by
  induction n generalizing s with
  | zero => exact hs
  | succ n ih =>
    have hread := hstep s hs
    cases hseen : (read s).1 with
    | true =>
      rw [poll_succ_of_seen hseen]
      rwa [hseen] at hread
    | false =>
      rw [poll_succ_of_not_seen hseen]
      rw [hseen] at hread
      exact ih hread

/-- **How many reads it takes**, where `left` tells how many more there are until the flag, if any. -/
theorem poll_seen_iff (left : σ → Option ℕ) (hdue : ∀ s, I s → ((read s).1 = true ↔ left s = some 0))
    (hnext : ∀ s, I s → (read s).1 = false →
      I (read s).2 ∧ left (read s).2 = (left s).map (· - 1)) (hs : I s) :
    (poll read n s).1 = true ↔ ∃ d, left s = some d ∧ d < n := by
  induction n generalizing s with
  | zero => exact iff_of_false Bool.false_ne_true fun ⟨_, _, h⟩ => Nat.not_lt_zero _ h
  | succ n ih =>
    cases hseen : (read s).1 with
    | true =>
      rw [poll_succ_of_seen hseen]
      exact iff_of_true rfl ⟨0, (hdue s hs).1 hseen, Nat.succ_pos n⟩
    | false =>
      obtain ⟨hI, hleft⟩ := hnext s hs hseen
      have hne : left s ≠ some 0 := fun h => by simp [(hdue s hs).2 h] at hseen
      rw [poll_succ_of_not_seen hseen, ih hI, hleft]
      -- one read has been made, and it was not the last
      cases hd : left s with
      | none => simp
      | some d =>
        have hpos : d ≠ 0 := fun h => hne (by rw [hd, h])
        simp only [Option.map_some, Option.some.injEq, exists_eq_left']
        omega

theorem poll_expired (hstep : ∀ s, I s → (read s).1 = false ∧ I (read s).2) (hs : I s) :
    (poll read n s).1 = false ∧ I (poll read n s).2 := by
  induction n generalizing s with
  | zero => exact ⟨rfl, hs⟩
  | succ n ih =>
    rw [poll_succ_of_not_seen (hstep s hs).1]
    exact ih (hstep s hs).2

end Polling
