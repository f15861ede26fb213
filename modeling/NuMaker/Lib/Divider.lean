/-
Clock dividers rounded to the nearest integer.

A driver that wants a rate of `hz` from a source of `src` divides by the integer nearest to
`src / hz`, worked out with one decimal digit.  The nearest divider may be one too small, and the
rate is then above what was asked for:

* **`IsNearest`** — what is meant by the nearest integer, halves upwards;
* **`nearest_eq`** — the decimal digit rounds the exact quotient, halves upwards;
* **`div_nearest_le_iff`** — when the rate stays within the wanted one;
* **`le_mul_nearest_iff`** — when it does so to the last fraction;
* **`le_nearest_div`** — asking for the rate a divider gives never asks for a smaller divider.

Other drivers try one divider after the other, until what is left to count fits a counter:

* **`loop_eq`** — the divider such a loop stops at.

A time is multiplied by a tick that was divided out before, and cut:

* **`mul_cut_div_eq_iff`** — when that does not show.
-/
import Mathlib.Tactic

/-- A division of words, which must not be by zero. -/
def udiv {w : ℕ} (a b : BitVec w) : Option (BitVec w) := if b = 0 then none else some (a / b)

/-- `k` is the integer nearest to `src / hz`, halves upwards. -/
def IsNearest (src hz k : ℕ) : Prop := (2 * k - 1) * hz ≤ 2 * src ∧ 2 * src < (2 * k + 1) * hz

/-- There is one such integer. -/
theorem IsNearest.unique {src hz k k' : ℕ} (h : IsNearest src hz k) (h' : IsNearest src hz k') :
    k = k' := by
  have hlt : ∀ {a b}, IsNearest src hz a → IsNearest src hz b → ¬ a < b := by
    intro a b ha hb hab
    have hmul : (2 * a + 1) * hz ≤ (2 * b - 1) * hz := Nat.mul_le_mul_right hz (by omega)
    exact absurd (Nat.lt_of_lt_of_le ha.2 hmul) (Nat.not_lt.2 hb.1)
  exact Nat.le_antisymm (Nat.not_lt.1 (hlt h' h)) (Nat.not_lt.1 (hlt h h'))

/-- Half of the rate is added before the division. -/
theorem isNearest_half {src hz : ℕ} (hpos : 0 < hz) :
    IsNearest src hz ((src + hz / 2) / hz) := by
  have hle : (src + hz / 2) / hz * hz ≤ src + hz / 2 := Nat.div_mul_le_self _ _
  have hlt : src + hz / 2 < ((src + hz / 2) / hz + 1) * hz :=
    Nat.lt_mul_of_div_lt (Nat.lt_succ_self _) hpos
  generalize (src + hz / 2) / hz = k at hle hlt
  rw [Nat.add_mul, Nat.one_mul] at hlt
  constructor
  · rw [Nat.sub_mul, Nat.mul_assoc, Nat.one_mul]
    omega
  · rw [Nat.add_mul, Nat.mul_assoc, Nat.one_mul]
    omega

/-- `src / hz` rounded to the nearest integer by way of a decimal digit. -/
def nearest (src hz : ℕ) : ℕ := (src * 10 / hz + 5) / 10

theorem nearest_eq (src : ℕ) {hz : ℕ} (hpos : 0 < hz) :
    nearest src hz = src / hz + if hz ≤ 2 * (src % hz) then 1 else 0 := by
  -- the decimal digit is that of the remainder
  have hsrc : src * 10 = hz * (10 * (src / hz)) + 10 * (src % hz) := by
    calc src * 10 = (hz * (src / hz) + src % hz) * 10 := by rw [Nat.div_add_mod]
      _ = hz * (10 * (src / hz)) + 10 * (src % hz) := by ring
  have hdigit : src * 10 / hz = 10 * (src / hz) + 10 * (src % hz) / hz := by
    rw [hsrc, Nat.mul_add_div hpos]
  have hlt : 10 * (src % hz) / hz < 10 := by
    rw [Nat.div_lt_iff_lt_mul hpos]
    have := Nat.mod_lt src hpos
    omega
  have hfive : 5 ≤ 10 * (src % hz) / hz ↔ hz ≤ 2 * (src % hz) := by
    rw [Nat.le_div_iff_mul_le hpos]
    omega
  rw [nearest, hdigit]
  generalize 10 * (src % hz) / hz = digit at hlt hfive
  generalize src / hz = q
  split
  · rename_i h
    have := hfive.2 h
    omega
  · rename_i h
    have := mt hfive.1 h
    omega

/-- It is the nearest integer. -/
theorem isNearest_nearest (src : ℕ) {hz : ℕ} (hpos : 0 < hz) :
    IsNearest src hz (nearest src hz) := by
  have hdm := Nat.div_add_mod src hz
  have hmod := Nat.mod_lt src hpos
  have hmul : src / hz * hz = hz * (src / hz) := Nat.mul_comm _ _
  rw [nearest_eq src hpos]
  split
  · constructor
    · rw [show 2 * (src / hz + 1) - 1 = 2 * (src / hz) + 1 by omega, Nat.add_mul, Nat.mul_assoc]
      omega
    · rw [show 2 * (src / hz + 1) + 1 = 2 * (src / hz) + 3 by omega, Nat.add_mul, Nat.mul_assoc]
      omega
  · rw [Nat.add_zero]
    constructor
    · rw [Nat.sub_mul, Nat.mul_assoc]
      omega
    · rw [Nat.add_mul, Nat.mul_assoc]
      omega

/-- When it is within a bound. -/
theorem nearest_le_iff {src hz k : ℕ} (hpos : 0 < hz) :
    nearest src hz ≤ k ↔ 2 * src < (2 * k + 1) * hz := by
  obtain ⟨hlo, hhi⟩ := isNearest_nearest src hpos
  constructor
  · intro h
    exact lt_of_lt_of_le hhi (Nat.mul_le_mul_right hz (by omega))
  · intro h
    by_contra hlt
    exact absurd (lt_of_lt_of_le h ((Nat.mul_le_mul_right hz (by omega)).trans hlo)) (lt_irrefl _)

/-- Which numerators a divider is the nearest for. -/
theorem decimal_round_iff {w hz k : ℕ} (hpos : 0 < hz) (hk : 0 < k) :
    (w / hz + 5) / 10 = k ↔ (10 * k - 5) * hz ≤ w ∧ w < (10 * k + 5) * hz := by
  rw [← Nat.le_div_iff_mul_le hpos, ← Nat.div_lt_iff_lt_mul hpos]
  omega

theorem div_le_nearest (src : ℕ) {hz : ℕ} (hpos : 0 < hz) : src / hz ≤ nearest src hz := by
  rw [nearest_eq src hpos]
  exact Nat.le_add_right _ _

theorem nearest_le (src : ℕ) {hz : ℕ} (hpos : 0 < hz) : nearest src hz ≤ src := by
  have hle : src / hz + src % hz ≤ src := by
    calc src / hz + src % hz ≤ hz * (src / hz) + src % hz :=
          Nat.add_le_add_right (Nat.le_mul_of_pos_left _ hpos) _
      _ = src := Nat.div_add_mod src hz
  rw [nearest_eq src hpos]
  split <;> omega

/-- A rate that is at most the source's has a divider. -/
theorem nearest_pos {src hz : ℕ} (hpos : 0 < hz) (hle : hz ≤ src) : 0 < nearest src hz :=
  lt_of_lt_of_le (Nat.div_pos hle hpos) (div_le_nearest src hpos)

/-- **When the nearest divider keeps within the wanted rate**: it was rounded up, or what is left
over is less than the divider itself. -/
theorem div_nearest_le_iff {src hz : ℕ} (hpos : 0 < hz) (hn : 0 < nearest src hz) :
    src / nearest src hz ≤ hz ↔ hz ≤ 2 * (src % hz) ∨ src % hz < src / hz := by
  have hdm := Nat.div_add_mod src hz
  have hmod := Nat.mod_lt src hpos
  rw [← Nat.lt_succ_iff, Nat.div_lt_iff_lt_mul hn, nearest_eq src hpos]
  split
  · rename_i h
    refine iff_of_true ?_ (Or.inl h)
    calc src = hz * (src / hz) + src % hz := hdm.symm
      _ < hz * (src / hz) + hz := by omega
      _ = hz * (src / hz + 1) := by rw [Nat.mul_add_one]
      _ ≤ (hz + 1) * (src / hz + 1) := Nat.mul_le_mul_right _ (Nat.le_succ hz)
  · rename_i h
    rw [or_iff_right h, Nat.add_zero, Nat.succ_eq_add_one, Nat.add_one_mul]
    omega

/-- The same without rounding the rate down. -/
theorem le_mul_nearest_iff {src hz : ℕ} (hpos : 0 < hz) :
    src ≤ hz * nearest src hz ↔ hz ≤ 2 * (src % hz) ∨ src % hz = 0 := by
  have hdm := Nat.div_add_mod src hz
  have hmod := Nat.mod_lt src hpos
  rw [nearest_eq src hpos, Nat.mul_add]
  split <;> omega

/-- The divider for the rate that `n` gives is no smaller than `n`. -/
theorem le_nearest_div {src n : ℕ} (hn : 0 < n) (hle : n ≤ src) : n ≤ nearest src (src / n) := by
  have hpos : 0 < src / n := Nat.div_pos hle hn
  refine le_trans ?_ (div_le_nearest src hpos)
  rw [Nat.le_div_iff_mul_le hpos]
  exact Nat.mul_div_le src n

/-! ### The first divider -/

/-- Which dividers leave less than `w` counts. -/
theorem div_lt_swap {n p w : ℕ} (hp : 0 < p) (hw : 0 < w) : n / p < w ↔ n / w < p := by
  rw [Nat.div_lt_iff_lt_mul hp, Nat.div_lt_iff_lt_mul hw, Nat.mul_comm]

/-- **A loop over the dividers** that stops at the first one with less than `w` counts: it stops at
`n / w + 1`, or at its end. -/
theorem loop_eq {α : Type*} {loop : ℕ → ℕ → α} {hit miss : ℕ → α} {n w m : ℕ} (hw : 0 < w)
    (hend : ∀ p, loop 0 p = miss p)
    (hstep : ∀ fuel p, 0 < p → p < m →
      loop (fuel + 1) p = if n / p < w then hit p else loop fuel (p + 1)) :
    ∀ fuel p, 0 < p → p + fuel ≤ m → p ≤ n / w + 1 →
      loop fuel p = if n / w + 1 < p + fuel then hit (n / w + 1) else miss (p + fuel)
  | 0, p, _, _, hle => by
    rw [hend, if_neg (by omega), Nat.add_zero]
  | fuel + 1, p, hp, hm, hle => by
    rw [hstep fuel p hp (by omega)]
    split
    · next hfit =>
      have hdone : p = n / w + 1 := by
        have := (div_lt_swap hp hw).1 hfit
        omega
      rw [if_pos (by omega), hdone]
    · next hfit =>
      have hmore := mt (div_lt_swap hp hw).2 hfit
      rw [loop_eq hw hend hstep fuel (p + 1) (by omega) (by omega) (by omega),
        show p + 1 + fuel = p + (fuel + 1) by omega]

/-! ### A tick that is cut -/

/-- **When the cut does not show**: `x` ticks of `u / c`, in parts of which `v` make one, come to the
whole number that they would without the cut. -/
theorem mul_cut_div_eq_iff {u v c : ℕ} (hc : 0 < c) (hv : 0 < v) (x : ℕ) :
    x * (u * v / c) / v = x * u / c ↔
      x * (u * v / c) % v * c + x * (u * v % c) < v * c := by
  have htick := Nat.div_add_mod (u * v) c
  have hparts := Nat.div_add_mod (x * (u * v / c)) v
  have hexact : x * u * v = v * c * (x * (u * v / c) / v) +
      (x * (u * v / c) % v * c + x * (u * v % c)) := by
    calc x * u * v = x * (c * (u * v / c) + u * v % c) := by rw [htick, Nat.mul_assoc]
      _ = c * (x * (u * v / c)) + x * (u * v % c) := by ring
      _ = c * (v * (x * (u * v / c) / v) + x * (u * v / c) % v) + x * (u * v % c) := by rw [hparts]
      _ = _ := by ring
  have hdiv : x * u / c = x * (u * v / c) / v +
      (x * (u * v / c) % v * c + x * (u * v % c)) / (v * c) := by
    rw [← Nat.mul_div_mul_right (x * u) c hv, hexact, Nat.mul_comm c v,
      Nat.mul_add_div (Nat.mul_pos hv hc)]
  rw [hdiv, ← Nat.div_eq_zero_iff_lt (Nat.mul_pos hv hc)]
  omega

/-- The cut never makes a time longer. -/
theorem mul_cut_div_le {u v c : ℕ} (hc : 0 < c) (hv : 0 < v) (x : ℕ) :
    x * (u * v / c) / v ≤ x * u / c := by
  rw [Nat.le_div_iff_mul_le hc]
  refine Nat.le_of_mul_le_mul_right ?_ hv
  calc x * (u * v / c) / v * c * v = x * (u * v / c) / v * v * c := by ring
    _ ≤ x * (u * v / c) * c := Nat.mul_le_mul_right c (Nat.div_mul_le_self _ v)
    _ = x * (u * v / c * c) := Nat.mul_assoc _ _ _
    _ ≤ x * (u * v) := Nat.mul_le_mul_left x (Nat.div_mul_le_self _ c)
    _ = x * u * v := (Nat.mul_assoc _ _ _).symm
