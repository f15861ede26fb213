/-
Byte ranges of a memory.

`overlay m a n b` is the memory `m` with the `n` cells from `a` on replaced by
`b 0, …, b (n - 1)`.  The lemmas say how overlays compose:

* `overlay_append` — two adjoining overlays are one;
* `overlay_congr` — the source matters on the range only.

Nothing here depends on what a cell holds.
-/
import Mathlib.Tactic

variable {β : Type*}

/-- `m` with the `n` cells from `a` on replaced by `b 0, …, b (n - 1)`. -/
def overlay (m : ℕ → β) (a n : ℕ) (b : ℕ → β) : ℕ → β :=
  fun x => if a ≤ x ∧ x < a + n then b (x - a) else m x

theorem overlay_in {m b : ℕ → β} {a n x : ℕ} (h : a ≤ x ∧ x < a + n) :
    overlay m a n b x = b (x - a) := if_pos h

theorem overlay_out {m b : ℕ → β} {a n x : ℕ} (h : ¬ (a ≤ x ∧ x < a + n)) :
    overlay m a n b x = m x := if_neg h

@[simp] theorem overlay_zero (m b : ℕ → β) (a : ℕ) : overlay m a 0 b = m := by
  funext x
  exact overlay_out (by omega)

/-- Adjoining overlays: first `k` cells, then the `n` cells after them. -/
theorem overlay_append (m b c : ℕ → β) (a k n : ℕ) (hc : ∀ i, c i = b (k + i)) :
    overlay (overlay m a k b) (a + k) n c = overlay m a (k + n) b := by
  funext x
  by_cases h2 : a + k ≤ x ∧ x < a + k + n
  · rw [overlay_in h2, overlay_in (by omega), hc]
    congr 1
    omega
  · rw [overlay_out h2]
    by_cases h1 : a ≤ x ∧ x < a + k
    · rw [overlay_in h1, overlay_in (by omega)]
    · rw [overlay_out h1, overlay_out (by omega)]

theorem overlay_congr {m b c : ℕ → β} {a n : ℕ} (h : ∀ i < n, b i = c i) :
    overlay m a n b = overlay m a n c := by
  funext x
  by_cases hx : a ≤ x ∧ x < a + n
  · rw [overlay_in hx, overlay_in hx, h _ (by omega)]
  · rw [overlay_out hx, overlay_out hx]
