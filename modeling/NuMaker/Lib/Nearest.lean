/-
A search for the nearest of the candidates, row after row.

The best so far is kept with its distance and gives way to what is strictly nearer.  A candidate at
distance zero ends its row; the rows after it are still gone through.

* **`Nearest.row`** — one row;
* **`Nearest.rows_best`** — after all rows the best is as near as every candidate, and it is one of
  them or what the search began with.

Where the candidates only grow, a search can stop at the first that has come up to the goal:

* **`Nearest.first_iff`** — that is the nearest one, unless the one before is nearer.
-/
import Mathlib.Data.Nat.Dist
import Mathlib.Order.Monotone.Basic
import Mathlib.Tactic.Common

namespace Nearest

variable {α : Type*} (dist : α → Option ℕ)

/-- One row: `dist` is `none` for what is no candidate. -/
def row : ℕ × α → List α → ℕ × α
  | best, [] => best
  | best, a :: as =>
    match dist a with
    | none => row best as
    | some d =>
      if d < best.1 then
        if d = 0 then (d, a) else row (d, a) as
      else row best as

/-- `best` is what a search that began with `start` may hold after the candidates `as`. -/
structure Best (start : ℕ × α) (as : List α) (best : ℕ × α) : Prop where
  le_start : best.1 ≤ start.1
  le : ∀ a ∈ as, ∀ d, dist a = some d → best.1 ≤ d
  found : best = start ∨ best.2 ∈ as ∧ dist best.2 = some best.1

variable {dist} {start best best' : ℕ × α} {as bs : List α} {a : α}

theorem Best.nil : Best dist start [] start := ⟨Nat.le_refl _, by simp, Or.inl rfl⟩

/-- A candidate that does not come nearer. -/
theorem Best.skip (ha : ∀ d, dist a = some d → start.1 ≤ d) (h : Best dist start as best) :
    Best dist start (a :: as) best where
  le_start := h.le_start
  le := by
    intro b hb d hd
    rcases List.mem_cons.1 hb with rfl | hb
    · exact Nat.le_trans h.le_start (ha d hd)
    · exact h.le b hb d hd
  found := h.found.imp_right fun h => ⟨List.mem_cons_of_mem a h.1, h.2⟩

/-- A candidate that does. -/
theorem Best.take {d : ℕ} (hd : dist a = some d) (hlt : d < start.1) (h : Best dist (d, a) as best) :
    Best dist start (a :: as) best where
  le_start := Nat.le_trans h.le_start (Nat.le_of_lt hlt)
  le := by
    intro b hb e he
    rcases List.mem_cons.1 hb with rfl | hb
    · rw [hd, Option.some.injEq] at he
      exact he ▸ h.le_start
    · exact h.le b hb e he
  found := by
    rcases h.found with rfl | ⟨hmem, hdist⟩
    · exact Or.inr ⟨List.mem_cons_self, hd⟩
    · exact Or.inr ⟨List.mem_cons_of_mem a hmem, hdist⟩

/-- Nothing is nearer than what is met exactly. -/
theorem Best.perfect : Best dist (0, a) as (0, a) :=
  ⟨Nat.le_refl _, fun _ _ d _ => Nat.zero_le d, Or.inl rfl⟩

theorem Best.append (h : Best dist start as best) (h' : Best dist best bs best') :
    Best dist start (as ++ bs) best' where
  le_start := Nat.le_trans h'.le_start h.le_start
  le := by
    intro b hb d hd
    rcases List.mem_append.1 hb with hb | hb
    · exact Nat.le_trans h'.le_start (h.le b hb d hd)
    · exact h'.le b hb d hd
  found := by
    rcases h'.found with rfl | ⟨hmem, hdist⟩
    · exact h.found.imp_right fun h => ⟨List.mem_append_left bs h.1, h.2⟩
    · exact Or.inr ⟨List.mem_append_right as hmem, hdist⟩

theorem row_best : ∀ (as : List α) (start : ℕ × α), Best dist start as (row dist start as)
  | [], _ => Best.nil
  | a :: as, start => by
    rw [row]
    split
    · next hnone => exact (row_best as start).skip fun d hd => by rw [hnone] at hd; cases hd
    · next d hd =>
      split
      · next hlt =>
        refine Best.take hd hlt ?_
        split
        · next hzero =>
          -- the row ends here
          subst hzero
          exact Best.perfect
        · exact row_best as (d, a)
      · next hge =>
        refine (row_best as start).skip fun e he => ?_
        rw [hd, Option.some.injEq] at he
        omega

/-- **The search finds the nearest**, unless what it began with is as near. -/
theorem rows_best : ∀ (rows : List (List α)) (start : ℕ × α),
    Best dist start rows.flatten (rows.foldl (row dist) start)
  | [], _ => Best.nil
  | as :: rows, start => (row_best as start).append (rows_best rows _)

/-! ### The first that comes up to the goal -/

/-- **The first candidate to come up to the goal is the nearest** unless the one before it is nearer. -/
theorem first_iff {f : ℕ → ℕ} (hf : Monotone f) {u p m : ℕ} (hp : 1 ≤ p) (hm : p ≤ m)
    (hreach : u ≤ f p) (hbefore : p = 1 ∨ f (p - 1) < u) :
    (∀ q, 1 ≤ q → q ≤ m → Nat.dist (f p) u ≤ Nat.dist (f q) u) ↔
      p = 1 ∨ f (p - 1) + f p ≤ 2 * u := by
  rw [Nat.dist_comm, Nat.dist_eq_sub_of_le hreach]
  constructor
  · intro h
    by_cases hone : p = 1
    · exact Or.inl hone
    · have hlt := hbefore.resolve_left hone
      have hprev := h (p - 1) (by omega) (by omega)
      rw [Nat.dist_eq_sub_of_le hlt.le] at hprev
      omega
  · intro h q hq1 hqm
    rcases Nat.lt_or_ge q p with hqp | hqp
    · -- what comes before the one before is further off still
      have hle : f q ≤ f (p - 1) := hf (by omega)
      have hlt : f (p - 1) < u := by omega
      rw [Nat.dist_eq_sub_of_le (hle.trans hlt.le)]
      omega
    · have hle : f p ≤ f q := hf hqp
      rw [Nat.dist_comm, Nat.dist_eq_sub_of_le (hreach.trans hle)]
      omega

end Nearest
