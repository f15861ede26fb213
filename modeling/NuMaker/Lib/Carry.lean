/-
Division with the remainder carried on.

A stream of amounts is converted to a coarser unit one at a time, and what is left of each is added
to the next: nothing is lost, whatever the amounts are.

* **`carried`** — the conversions;
* **`sum_carried`** — they add up to the conversion of the sum.
-/
import Mathlib.Algebra.BigOperators.Group.List.Basic
import Mathlib.Algebra.GroupWithZero.Nat

/-- Each amount, with what is left of those before it, in units of `h`. -/
def carried (h : ℕ) : ℕ → List ℕ → List ℕ
  | _, [] => []
  | r, x :: xs => (x + r) / h :: carried h ((x + r) % h) xs

/-- **Nothing is lost.** -/
theorem sum_carried {h : ℕ} {r : ℕ} (hr : r < h) (xs : List ℕ) :
    (carried h r xs).sum = (xs.sum + r) / h := by
  induction xs generalizing r with
  | nil => rw [carried, List.sum_nil, Nat.zero_add, Nat.div_eq_of_lt hr]
  | cons x xs ih =>
    have hh : 0 < h := Nat.lt_of_le_of_lt (Nat.zero_le r) hr
    rw [carried, List.sum_cons, ih (Nat.mod_lt _ hh), List.sum_cons]
    calc (x + r) / h + (xs.sum + (x + r) % h) / h
        = (xs.sum + (x + r) % h + h * ((x + r) / h)) / h := by
          rw [Nat.add_mul_div_left _ _ hh, Nat.add_comm]
      _ = (x + xs.sum + r) / h := by
          rw [Nat.add_assoc, Nat.mod_add_div, Nat.add_left_comm, Nat.add_assoc]
