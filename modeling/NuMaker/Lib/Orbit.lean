/-
Walks along the orbit of a function.

From `x` a walk goes to `f x`, `f (f x)` and so on.  It fails at an element that is `bad` and
succeeds before one that is `stop`; an element is looked at before it is left.  `Passes f bad stop
x n` says that the first `n` steps end in neither way.  What the walk answers is read off the
first step it does not pass (`walk_eq_false_iff`, `walk_eq_true_iff`), and on a finite type it goes
on for ever iff it comes to a cycle (`not_ends_iff_cycle`).
-/
import Mathlib.Logic.Function.Iterate
import Mathlib.Dynamics.PeriodicPts.Defs
import Mathlib.Data.Fintype.Pigeonhole

namespace Orbit

variable {α : Type*} (f : α → α) (bad stop : α → Prop)

/-- The first `n` steps from `x` end neither in failure nor in success. -/
def Passes (x : α) (n : ℕ) : Prop := ∀ i < n, ¬ bad (f^[i] x) ∧ ¬ stop (f^[i + 1] x)

theorem passes_zero (x : α) : Passes f bad stop x 0 := fun _ hi => absurd hi (Nat.not_lt_zero _)

theorem passes_succ (x : α) (n : ℕ) :
    Passes f bad stop x (n + 1) ↔ (¬ bad x ∧ ¬ stop (f x)) ∧ Passes f bad stop (f x) n := by
  constructor
  · exact fun h => ⟨h 0 (Nat.succ_pos n), fun i hi => h (i + 1) (Nat.succ_lt_succ hi)⟩
  · rintro ⟨h0, h⟩ i hi
    cases i with
    | zero => exact h0
    | succ i => exact h i (Nat.lt_of_succ_lt_succ hi)

section Walk

variable [DecidablePred bad] [DecidablePred stop]

/-- The walk, with fuel: `some false` for failure, `some true` for success. -/
def walk : ℕ → α → Option Bool
  | 0, _ => none
  | n + 1, x => if bad x then some false else if stop (f x) then some true else walk n (f x)

theorem walk_eq_false_iff (m : ℕ) (x : α) :
    walk f bad stop m x = some false ↔ ∃ n < m, Passes f bad stop x n ∧ bad (f^[n] x) := by
  induction m generalizing x with
  | zero => exact ⟨fun h => absurd h (by simp [walk]), fun ⟨n, hn, _⟩ => absurd hn (Nat.not_lt_zero n)⟩
  | succ m ih =>
    rw [walk]
    by_cases hbad : bad x
    · rw [if_pos hbad]
      exact iff_of_true rfl ⟨0, Nat.succ_pos m, passes_zero f bad stop x, hbad⟩
    rw [if_neg hbad]
    by_cases hstop : stop (f x)
    · rw [if_pos hstop]
      refine iff_of_false (by simp) ?_
      rintro ⟨n, -, hpass, hb⟩
      cases n with
      | zero => exact hbad hb
      | succ n => exact (hpass 0 (Nat.succ_pos n)).2 hstop
    rw [if_neg hstop, ih]
    constructor
    · rintro ⟨n, hn, hpass, hb⟩
      exact ⟨n + 1, Nat.succ_lt_succ hn, (passes_succ f bad stop x n).mpr ⟨⟨hbad, hstop⟩, hpass⟩, hb⟩
    · rintro ⟨n, hn, hpass, hb⟩
      cases n with
      | zero => exact absurd hb hbad
      | succ n => exact ⟨n, Nat.lt_of_succ_lt_succ hn, ((passes_succ f bad stop x n).mp hpass).2, hb⟩

theorem walk_eq_true_iff (m : ℕ) (x : α) :
    walk f bad stop m x = some true ↔
      ∃ n < m, Passes f bad stop x n ∧ ¬ bad (f^[n] x) ∧ stop (f^[n + 1] x) := by
  induction m generalizing x with
  | zero => exact ⟨fun h => absurd h (by simp [walk]), fun ⟨n, hn, _⟩ => absurd hn (Nat.not_lt_zero n)⟩
  | succ m ih =>
    rw [walk]
    by_cases hbad : bad x
    · rw [if_pos hbad]
      refine iff_of_false (by simp) ?_
      rintro ⟨n, -, hpass, hb, -⟩
      cases n with
      | zero => exact hb hbad
      | succ n => exact (hpass 0 (Nat.succ_pos n)).1 hbad
    rw [if_neg hbad]
    by_cases hstop : stop (f x)
    · rw [if_pos hstop]
      exact iff_of_true rfl ⟨0, Nat.succ_pos m, passes_zero f bad stop x, hbad, hstop⟩
    rw [if_neg hstop, ih]
    constructor
    · rintro ⟨n, hn, hpass, hb⟩
      exact ⟨n + 1, Nat.succ_lt_succ hn, (passes_succ f bad stop x n).mpr ⟨⟨hbad, hstop⟩, hpass⟩, hb⟩
    · rintro ⟨n, hn, hpass, hb⟩
      cases n with
      | zero => exact absurd hb.2 hstop
      | succ n => exact ⟨n, Nat.lt_of_succ_lt_succ hn, ((passes_succ f bad stop x n).mp hpass).2, hb⟩

/-- With some fuel the walk has an answer. -/
def Ends (x : α) : Prop := ∃ m b, walk f bad stop m x = some b

/-- A walk without an answer passes every step. -/
theorem not_ends_iff (x : α) : ¬ Ends f bad stop x ↔ ∀ n, Passes f bad stop x n := by
  constructor
  · intro hends n
    induction n with
    | zero => exact passes_zero f bad stop x
    | succ n ih =>
      intro i hi
      rcases Nat.lt_succ_iff_lt_or_eq.mp hi with hi | rfl
      · exact ih i hi
      · have hbad : ¬ bad (f^[i] x) := fun hb =>
          hends ⟨i + 1, false, (walk_eq_false_iff f bad stop _ x).mpr ⟨i, Nat.lt_succ_self i, ih, hb⟩⟩
        exact ⟨hbad, fun hs => hends ⟨i + 1, true,
          (walk_eq_true_iff f bad stop _ x).mpr ⟨i, Nat.lt_succ_self i, ih, hbad, hs⟩⟩⟩
  · rintro hpass ⟨m, b, hb⟩
    cases b with
    | false =>
      obtain ⟨n, -, -, hbad⟩ := (walk_eq_false_iff f bad stop m x).mp hb
      exact (hpass (n + 1) n (Nat.lt_succ_self n)).1 hbad
    | true =>
      obtain ⟨n, -, -, -, hstop⟩ := (walk_eq_true_iff f bad stop m x).mp hb
      exact (hpass (n + 1) n (Nat.lt_succ_self n)).2 hstop

omit [DecidablePred bad] [DecidablePred stop] in
/-- What is passed up to a repetition is passed for ever. -/
theorem passes_of_cycle {x : α} {i j : ℕ} (hij : i < j) (hcycle : f^[i] x = f^[j] x)
    (h : Passes f bad stop x j) (n : ℕ) : Passes f bad stop x n := by
  -- an element past the repetition is one before it
  have hback : ∀ k, ∃ l < j, f^[k] x = f^[l] x ∧ f^[k + 1] x = f^[l + 1] x := by
    intro k
    induction k using Nat.strong_induction_on with
    | _ k ih =>
      by_cases hk : k < j
      · exact ⟨k, hk, rfl, rfl⟩
      · have hshift : ∀ d, f^[j + d] x = f^[i + d] x := by
          intro d
          rw [Nat.add_comm j, Nat.add_comm i, Function.iterate_add_apply, Function.iterate_add_apply,
            hcycle]
        obtain ⟨l, hl, h1, h2⟩ := ih (i + (k - j)) (by omega)
        refine ⟨l, hl, ?_, ?_⟩
        · rw [← h1, ← hshift, show j + (k - j) = k by omega]
        · rw [← h2, show i + (k - j) + 1 = i + (k - j + 1) by omega, ← hshift,
            show j + (k - j + 1) = k + 1 by omega]
  intro k _
  obtain ⟨l, hl, h1, h2⟩ := hback k
  rw [h1, h2]
  exact h l hl

/-- On a finite type a walk goes on for ever iff it comes back to where it was. -/
theorem not_ends_iff_cycle [Finite α] (x : α) :
    ¬ Ends f bad stop x ↔ ∃ i j, i < j ∧ f^[i] x = f^[j] x ∧ Passes f bad stop x j := by
  rw [not_ends_iff]
  constructor
  · intro hpass
    obtain ⟨i, j, hne, hcycle⟩ := Finite.exists_ne_map_eq_of_infinite fun n => f^[n] x
    rcases Nat.lt_or_gt_of_ne hne with hij | hij
    · exact ⟨i, j, hij, hcycle, hpass j⟩
    · exact ⟨j, i, hij, hcycle.symm, hpass i⟩
  · rintro ⟨i, j, hij, hcycle, hpass⟩
    exact passes_of_cycle f bad stop hij hcycle hpass

end Walk

/-- An orbit that returns to its start stays among the elements before the return. -/
theorem exists_lt_of_return {x : α} {n : ℕ} (hn : 0 < n) (h : f^[n] x = x) (m : ℕ) :
    ∃ k < n, f^[m] x = f^[k] x :=
  ⟨m % n, Nat.mod_lt m hn, (Function.IsPeriodicPt.iterate_mod_apply h m).symm⟩

end Orbit
