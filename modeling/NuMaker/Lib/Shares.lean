/-
A pool and what its holders have of it.

The amounts are those of a cancellative monoid: counts, or multisets of tokens.  As long as what one
holder and the pool have together stays the same, so does what all have together.
-/
import Mathlib.Algebra.BigOperators.Fin
import Mathlib.Algebra.Order.BigOperators.Group.Finset
import Mathlib.Tactic.Abel
import Mathlib.Tactic.Ring

namespace Shares

variable {κ M : Type*} [Fintype κ] [DecidableEq κ]

/-- What the pool and the holders have. -/
def total [AddCommMonoid M] (pool : M) (share : κ → M) : M := pool + ∑ k, share k

theorem sum_update [AddCommMonoid M] (share : κ → M) (k : κ) (x : M) :
    ∑ j, Function.update share k x j + share k = ∑ j, share j + x := by
  rw [Finset.sum_update_of_mem (Finset.mem_univ k), ← Finset.add_sum_erase Finset.univ share (Finset.mem_univ k),
    Finset.sdiff_singleton_eq_erase]
  abel

/-- Something goes from the pool to a holder, or back. -/
theorem move [AddCancelCommMonoid M] {pool pool' : M} {share : κ → M} {k : κ} {x : M}
    (h : pool' + x = pool + share k) : total pool' (Function.update share k x) = total pool share := by
  refine add_right_cancel (b := share k) ?_
  calc total pool' (Function.update share k x) + share k
      = pool' + (∑ j, Function.update share k x j + share k) := by rw [total, add_assoc]
    _ = pool' + (∑ j, share j + x) := by rw [sum_update]
    _ = (pool' + x) + ∑ j, share j := by abel
    _ = (pool + share k) + ∑ j, share j := by rw [h]
    _ = total pool share + share k := by
        rw [total]
        abel

omit [DecidableEq κ] in
theorem map_total [AddCommMonoid M] {N : Type*} [AddCommMonoid N] (f : M →+ N) (pool : M) (share : κ → M) :
    f (total pool share) = total (f pool) (fun k => f (share k)) := by
  rw [total, total, map_add, map_sum]

omit [DecidableEq κ] in
/-- The pool has something left while there are fewer holders than tokens, with one each at most. -/
theorem pool_pos {pool n : ℕ} {share : κ → ℕ} (h : total pool share = n) (hone : ∀ k, share k ≤ 1)
    (hn : Fintype.card κ < n) : 0 < pool := by
  have hsum : ∑ k, share k ≤ Fintype.card κ := by
    have hle := Finset.sum_le_card_nsmul Finset.univ share 1 fun k _ => hone k
    rwa [smul_eq_mul, mul_one, Finset.card_univ] at hle
  rw [total] at h
  omega

end Shares
