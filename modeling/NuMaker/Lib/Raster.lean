/-
Raster scans: a rectangular window filled point by point, row after row.

The pointer starts at the upper left corner, runs along the row and goes on with the next one
(`Window.next`), from the last point back to the first.  The `i`-th point of a scan is known in
closed form (`Window.iterate_next`), so what a sequence of values leaves behind is too:

* **`Window.paint_apply`** — the point with index `i` holds the `i`-th value if there was one, and
  whatever is left is as it was.
-/
import Mathlib.Data.List.Induction
import Mathlib.Logic.Function.Iterate
import Mathlib.Tactic.Ring

/-- A window by its first and its last column and row, both inclusive. -/
structure Window where
  x0 : ℕ
  x1 : ℕ
  y0 : ℕ
  y1 : ℕ
deriving DecidableEq, Repr

namespace Window

def width (w : Window) : ℕ := w.x1 + 1 - w.x0

def height (w : Window) : ℕ := w.y1 + 1 - w.y0

/-- The number of points of the window. -/
def area (w : Window) : ℕ := w.width * w.height

def Has (w : Window) (p : ℕ × ℕ) : Prop :=
  (w.x0 ≤ p.1 ∧ p.1 ≤ w.x1) ∧ w.y0 ≤ p.2 ∧ p.2 ≤ w.y1

instance (w : Window) (p : ℕ × ℕ) : Decidable (w.Has p) := inferInstanceAs (Decidable (_ ∧ _))

theorem has_mk (a b e f : ℕ) (p : ℕ × ℕ) :
    Has ⟨a, b, e, f⟩ p ↔ (a ≤ p.1 ∧ p.1 ≤ b) ∧ e ≤ p.2 ∧ p.2 ≤ f := Iff.rfl

def origin (w : Window) : ℕ × ℕ := (w.x0, w.y0)

/-- The point behind `p`. -/
def next (w : Window) (p : ℕ × ℕ) : ℕ × ℕ :=
  if p.1 = w.x1 then (w.x0, if p.2 = w.y1 then w.y0 else p.2 + 1) else (p.1 + 1, p.2)

/-- The number of points before `p`. -/
def index (w : Window) (p : ℕ × ℕ) : ℕ := (p.2 - w.y0) * w.width + (p.1 - w.x0)

theorem area_pos_iff (w : Window) : 0 < w.area ↔ w.x0 ≤ w.x1 ∧ w.y0 ≤ w.y1 := by
  rw [area, Nat.pos_iff_ne_zero, Nat.mul_ne_zero_iff, width, height]
  omega

theorem index_lt {w : Window} {p : ℕ × ℕ} (hp : w.Has p) : w.index p < w.area := by
  obtain ⟨⟨hx0, hx1⟩, hy0, hy1⟩ := hp
  have hcol : p.1 - w.x0 < w.width := by
    rw [width]
    omega
  have hrow : p.2 - w.y0 + 1 ≤ w.height := by
    rw [height]
    omega
  calc w.index p < (p.2 - w.y0) * w.width + w.width := Nat.add_lt_add_left hcol _
    _ = (p.2 - w.y0 + 1) * w.width := by ring
    _ ≤ w.height * w.width := Nat.mul_le_mul_right _ hrow
    _ = w.area := Nat.mul_comm _ _

/-- **The scan in closed form.** -/
theorem iterate_next (w : Window) : ∀ i, i < w.area →
    w.next^[i] w.origin = (w.x0 + i % w.width, w.y0 + i / w.width) := by
  intro i
  induction i with
  | zero =>
    intro hi
    simp [origin]
  | succ i ih =>
    intro hi
    obtain ⟨hx, hy⟩ := w.area_pos_iff.mp (Nat.zero_lt_of_lt hi)
    have hw : 0 < w.width := by
      rw [width]
      omega
    have hx1 : w.x1 = w.x0 + (w.width - 1) := by
      rw [width]
      omega
    have hy1 : w.y1 = w.y0 + (w.height - 1) := by
      rw [height]
      omega
    rw [Function.iterate_succ_apply', ih (Nat.lt_of_succ_lt hi), next]
    have hmod : i % w.width < w.width := Nat.mod_lt i hw
    have hi0 : i % w.width + w.width * (i / w.width) = i := Nat.mod_add_div i w.width
    by_cases hend : i % w.width + 1 = w.width
    · -- the last point of a row: the next one starts a row that is still in the window
      obtain ⟨hdiv, hdvd⟩ : (i + 1) / w.width = i / w.width + 1 ∧ (i + 1) % w.width = 0 := by
        refine (Nat.div_mod_unique hw).mpr ⟨?_, hw⟩
        rw [Nat.mul_succ]
        omega
      have hrow : i / w.width + 1 < w.height := by
        rw [← hdiv]
        exact Nat.div_lt_of_lt_mul hi
      rw [if_pos (by simp only; omega), if_neg (by simp only; omega), hdvd, hdiv]
      rfl
    · obtain ⟨hdiv, hrest⟩ :
          (i + 1) / w.width = i / w.width ∧ (i + 1) % w.width = i % w.width + 1 :=
        (Nat.div_mod_unique hw).mpr ⟨by omega, by omega⟩
      rw [if_neg (by simp only; omega), hdiv, hrest]
      rfl

/-- In the window, the point of a scan and its index determine each other. -/
theorem eq_iterate_next_iff {w : Window} {i : ℕ} (hi : i < w.area) (p : ℕ × ℕ) :
    p = w.next^[i] w.origin ↔ w.Has p ∧ w.index p = i := by
  obtain ⟨hx, hy⟩ := w.area_pos_iff.mp (Nat.zero_lt_of_lt hi)
  have hw : 0 < w.width := by
    rw [width]
    omega
  rw [w.iterate_next i hi]
  constructor
  · rintro rfl
    have hcol : i % w.width < w.width := Nat.mod_lt i hw
    have hrow : i / w.width < w.height := Nat.div_lt_of_lt_mul hi
    refine ⟨⟨⟨by simp, ?_⟩, by simp, ?_⟩, ?_⟩
    · rw [width] at hcol
      simp only [width]
      omega
    · simp only [height] at hrow
      simp only
      omega
    · simp only [index, Nat.add_sub_cancel_left]
      exact Nat.div_add_mod' i w.width
  · rintro ⟨⟨⟨hx0, hx1⟩, hy0, hy1⟩, rfl⟩
    have hcol : p.1 - w.x0 < w.width := by
      rw [width]
      omega
    have hmod : w.index p % w.width = p.1 - w.x0 := Nat.mul_add_mod_of_lt hcol
    have hdiv : w.index p / w.width = p.2 - w.y0 := by
      rw [index, Nat.mul_comm, Nat.mul_add_div hw, Nat.div_eq_of_lt hcol, Nat.add_zero]
    rw [hmod, hdiv, Nat.add_sub_cancel' hx0, Nat.add_sub_cancel' hy0]

section Paint

variable {α : Type*}

/-- The values of a list, written one behind another from the point `p` on. -/
def paint (w : Window) (g : ℕ × ℕ → α) (p : ℕ × ℕ) : List α → ℕ × ℕ → α
  | [] => g
  | v :: l => paint w (Function.update g p v) (w.next p) l

theorem paint_snoc (w : Window) (v : α) : ∀ (l : List α) (g : ℕ × ℕ → α) (p : ℕ × ℕ),
    w.paint g p (l ++ [v]) = Function.update (w.paint g p l) (w.next^[l.length] p) v := by
  intro l
  induction l with
  | nil =>
    intro g p
    rfl
  | cons u l ih =>
    intro g p
    exact ih (Function.update g p u) (w.next p)

/-- **What a scan leaves behind**, from the upper left corner on and within the window. -/
theorem paint_apply (w : Window) (g : ℕ × ℕ → α) (p : ℕ × ℕ) : ∀ l : List α, l.length ≤ w.area →
    w.paint g w.origin l p = if w.Has p then (l[w.index p]?).getD (g p) else g p := by
  intro l
  induction l using List.reverseRecOn with
  | nil =>
    intro _
    simp [paint]
  | append_singleton l v ih =>
    intro hl
    rw [List.length_append, List.length_singleton] at hl
    have hlt : l.length < w.area := hl
    rw [paint_snoc, Function.update_apply, ih (Nat.le_of_lt hlt)]
    simp only [eq_iterate_next_iff hlt]
    by_cases hp : w.Has p
    · by_cases hidx : w.index p = l.length
      · simp [hp, hidx]
      · rw [if_neg (fun h => hidx h.2), if_pos hp, if_pos hp]
        rcases Nat.lt_or_gt_of_ne hidx with hlo | hhi
        · rw [List.getElem?_append_left hlo]
        · rw [List.getElem?_eq_none (by omega), List.getElem?_eq_none (by simp; omega)]
    · rw [if_neg (fun h => hp h.1), if_neg hp, if_neg hp]

end Paint

end Window
