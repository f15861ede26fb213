/-
A list cut into pieces of one size.

* **`pieces`** — the last piece is what is left;
* **`pieces_cons`** — the first piece, and the pieces of the rest.
-/
import Mathlib.Data.List.Basic
import Mathlib.Tactic.Common

variable {α : Type*}

/-- The pieces, at most so many of them. -/
def piecesAux (n : ℕ) : ℕ → List α → List (List α)
  | 0, _ => []
  | _ + 1, [] => []
  | k + 1, a :: l => (a :: l).take n :: piecesAux n k ((a :: l).drop n)

/-- A list in pieces of `n`, for a positive `n`. -/
def pieces (n : ℕ) (l : List α) : List (List α) := piecesAux n l.length l

@[simp] theorem pieces_nil (n : ℕ) : pieces n ([] : List α) = [] := rfl

theorem piecesAux_eq {n : ℕ} (hn : 0 < n) : ∀ (k : ℕ) (l : List α), l.length ≤ k →
    piecesAux n k l = pieces n l
  | 0, [], _ => rfl
  | k + 1, [], _ => rfl
  | k + 1, a :: l, hk => by
    have hlen : ((a :: l).drop n).length ≤ l.length := by
      rw [List.length_drop, List.length_cons]
      omega
    have hk' : l.length ≤ k := Nat.le_of_succ_le_succ hk
    show _ :: piecesAux n k _ = _ :: piecesAux n l.length _
    rw [piecesAux_eq hn k _ (Nat.le_trans hlen hk'), piecesAux_eq hn l.length _ hlen]

/-- The first piece, and the pieces of the rest. -/
theorem pieces_cons {n : ℕ} (hn : 0 < n) {l : List α} (hl : l ≠ []) :
    pieces n l = l.take n :: pieces n (l.drop n) := by
  obtain ⟨a, l, rfl⟩ := List.exists_cons_of_ne_nil hl
  have hlen : ((a :: l).drop n).length ≤ l.length := by
    rw [List.length_drop, List.length_cons]
    omega
  show _ :: piecesAux n l.length _ = _
  rw [piecesAux_eq hn _ _ hlen]
