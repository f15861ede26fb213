/-
Regions laid one behind another.

`Tiles a l b`: the nonempty regions of `l`, in this order, fill the addresses from `a` up to `b`
without a gap.  An empty region may start anywhere.  From this alone follow the order of the
regions (`Tiles.pairwise`), that they stay between the ends (`Tiles.within`) and reach the upper
one (`Tiles.last`), and their alignment (`Tiles.dvd_start`).
-/
import Mathlib.Data.List.Basic

/-- The nonempty regions `(start, length)` of a list, one behind another from `a` to `b`. -/
def Tiles (a : ℕ) : List (ℕ × ℕ) → ℕ → Prop
  | [], b => a = b
  | r :: l, b => (0 < r.2 → r.1 = a) ∧ Tiles (a + r.2) l b

namespace Tiles

variable {a b : ℕ} {l : List (ℕ × ℕ)}

theorem le (h : Tiles a l b) : a ≤ b := by
  induction l generalizing a with
  | nil => exact Nat.le_of_eq h
  | cons r l ih => exact Nat.le_trans (Nat.le_add_right a r.2) (ih h.2)

/-- Every nonempty region lies between the ends. -/
theorem within (h : Tiles a l b) : ∀ r ∈ l, 0 < r.2 → a ≤ r.1 ∧ r.1 + r.2 ≤ b := by
  induction l generalizing a with
  | nil => exact fun r hr => absurd hr List.not_mem_nil
  | cons t l ih =>
    obtain ⟨hstart, hrest⟩ := h
    intro r hr hpos
    rcases List.mem_cons.mp hr with rfl | hr
    · rw [hstart hpos]
      exact ⟨Nat.le_refl a, hrest.le⟩
    · obtain ⟨hlo, hhi⟩ := ih hrest r hr hpos
      exact ⟨Nat.le_trans (Nat.le_add_right a t.2) hlo, hhi⟩

/-- The regions are in order, so no two of them share an address. -/
theorem pairwise (h : Tiles a l b) :
    l.Pairwise fun r t => 0 < r.2 → 0 < t.2 → r.1 + r.2 ≤ t.1 := by
  induction l generalizing a with
  | nil => exact List.Pairwise.nil
  | cons r l ih =>
    obtain ⟨hstart, hrest⟩ := h
    refine List.Pairwise.cons (fun t ht hr hpos => ?_) (ih hrest)
    rw [hstart hr]
    exact (hrest.within t ht hpos).1

/-- One more region at the end. -/
theorem snoc (h : Tiles a l b) {r : ℕ × ℕ} (hr : 0 < r.2 → r.1 = b) :
    Tiles a (l ++ [r]) (b + r.2) := by
  induction l generalizing a with
  | nil =>
    obtain rfl : a = b := h
    exact ⟨hr, rfl⟩
  | cons t l ih => exact ⟨h.1, ih h.2⟩

/-- The last nonempty region ends at `b`. -/
theorem last (h : Tiles a l b) :
    b = ((l.filter fun r => 0 < r.2).getLast?.map fun r => r.1 + r.2).getD a := by
  induction l generalizing a with
  | nil => exact Eq.symm h
  | cons r l ih =>
    obtain ⟨hstart, hrest⟩ := h
    have hlast := ih hrest
    by_cases hr : 0 < r.2
    · rw [List.filter_cons_of_pos (by simpa using hr), List.getLast?_cons]
      rcases hl : (l.filter fun r => 0 < r.2).getLast? with _ | t
      · rw [hl] at hlast
        rw [hl, hlast, ← hstart hr]
        rfl
      · rw [hl] at hlast
        rw [hl]
        exact hlast
    · rw [List.filter_cons_of_neg (by simpa using hr), hlast, Nat.eq_zero_of_not_pos hr,
        Nat.add_zero]

/-- Unless there is nothing to fill, a nonempty region starts at the lower end. -/
theorem exists_first (h : Tiles a l b) (hab : a < b) : ∃ r ∈ l, 0 < r.2 ∧ r.1 = a := by
  induction l generalizing a with
  | nil => exact absurd h (Nat.ne_of_lt hab)
  | cons r l ih =>
    obtain ⟨hstart, hrest⟩ := h
    by_cases hr : 0 < r.2
    · exact ⟨r, List.mem_cons_self, hr, hstart hr⟩
    · rw [Nat.eq_zero_of_not_pos hr, Nat.add_zero] at hrest
      obtain ⟨t, ht, hpos, heq⟩ := ih hrest hab
      exact ⟨t, List.mem_cons_of_mem r ht, hpos, heq⟩

/-- And one reaches the upper end. -/
theorem exists_last (h : Tiles a l b) (hab : a < b) : ∃ r ∈ l, 0 < r.2 ∧ r.1 + r.2 = b := by
  have hlast := h.last
  cases hl : (l.filter fun r => 0 < r.2).getLast? with
  | none =>
    rw [hl] at hlast
    exact absurd hlast (Nat.ne_of_gt hab)
  | some r =>
    rw [hl] at hlast
    have hmem := List.mem_filter.mp (List.mem_of_getLast? hl)
    exact ⟨r, hmem.1, of_decide_eq_true hmem.2, hlast.symm⟩

/-- When every length is a multiple of `w`, so is every start. -/
theorem dvd_start {w : ℕ} (h : Tiles a l b) (ha : w ∣ a) (hl : ∀ r ∈ l, w ∣ r.2) :
    ∀ r ∈ l, 0 < r.2 → w ∣ r.1 := by
  induction l generalizing a with
  | nil => exact fun r hr => absurd hr List.not_mem_nil
  | cons t l ih =>
    obtain ⟨hstart, hrest⟩ := h
    intro r hr hpos
    rcases List.mem_cons.mp hr with rfl | hr
    · exact hstart hpos ▸ ha
    · have hnext : w ∣ a + t.2 := Nat.dvd_add ha (hl t List.mem_cons_self)
      exact ih hrest hnext (fun r hr => hl r (List.mem_cons_of_mem t hr)) r hr hpos

end Tiles
