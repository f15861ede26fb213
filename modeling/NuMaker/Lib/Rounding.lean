/-
Rounding to so many binary digits, to the nearest and on a tie to the even one: what a
floating-point operation does to its exact result.

* **`roundTo`** — the rounding, of any rational;
* **`roundTo_le`**, **`le_roundTo`** — it does not pass a number with that many digits;
* **`abs_roundTo_sub_le`** — and it is off by half a unit in the last place at most.
-/
import Mathlib.Data.Int.Log
import Mathlib.Tactic

/-- The nearest integer, on a tie the even one. -/
def roundEven (q : ℚ) : ℤ :=
  if q - ⌊q⌋ < 1 / 2 then ⌊q⌋
  else if q - ⌊q⌋ = 1 / 2 ∧ ⌊q⌋ % 2 = 0 then ⌊q⌋
  else ⌊q⌋ + 1

/-- The unit in the last of `p` places. -/
def ulp (p : ℕ) (q : ℚ) : ℚ := 2 ^ (Int.log 2 |q| + 1 - p)

/-- Rounding to `p` places. -/
def roundTo (p : ℕ) (q : ℚ) : ℚ := roundEven (q / ulp p q) * ulp p q

/-- A number with `p` places. -/
def Representable (p : ℕ) (w : ℚ) : Prop := ∃ m k : ℤ, |m| ≤ 2 ^ p ∧ w = m * 2 ^ k

/-! ### To integers -/

theorem roundEven_le {q : ℚ} {n : ℤ} (h : q ≤ n) : roundEven q ≤ n := by
  have hfloor : ⌊q⌋ ≤ n := by exact_mod_cast (Int.floor_le q).trans h
  unfold roundEven
  split
  · exact hfloor
  · split
    · exact hfloor
    · rename_i hhalf _
      -- above a half the floor is below the integer
      have hlt : ⌊q⌋ < n := by
        rw [Int.floor_lt]
        by_contra hge
        have hq : q = n := le_antisymm h (not_lt.1 hge)
        rw [hq, Int.floor_intCast, sub_self] at hhalf
        norm_num at hhalf
      omega

theorem le_roundEven {q : ℚ} {n : ℤ} (h : n ≤ q) : n ≤ roundEven q := by
  have hfloor : n ≤ ⌊q⌋ := Int.le_floor.2 h
  unfold roundEven
  split
  · exact hfloor
  · split <;> omega

theorem abs_roundEven_sub_le (q : ℚ) : |(roundEven q : ℚ) - q| ≤ 1 / 2 := by
  have h1 := Int.floor_le q
  have h2 := Int.lt_floor_add_one q
  unfold roundEven
  split
  · rw [abs_le]
    constructor <;> linarith
  · split
    · rename_i h
      rw [abs_le]
      constructor <;> linarith [h.1]
    · push_cast
      rw [abs_le]
      constructor <;> linarith

/-! ### To so many places -/

variable {p : ℕ} {q w : ℚ}

theorem ulp_pos (p : ℕ) (q : ℚ) : 0 < ulp p q := by
  unfold ulp
  positivity

/-- A number is below two powers of two, in units of its last place. -/
theorem ulp_spec (hq : 0 < q) : 2 ^ ((p : ℤ) - 1) * ulp p q ≤ q ∧ q < 2 ^ (p : ℤ) * ulp p q := by
  have h1 := Int.zpow_log_le_self (by norm_num : 1 < 2) hq
  have h2 := Int.lt_zpow_succ_log_self (by norm_num : 1 < 2) q
  have e1 : (2 : ℚ) ^ ((p : ℤ) - 1) * ulp p q = 2 ^ Int.log 2 q := by
    rw [ulp, abs_of_pos hq, ← zpow_add₀ (by norm_num)]
    congr 1
    ring
  have e2 : (2 : ℚ) ^ (p : ℤ) * ulp p q = 2 ^ (Int.log 2 q + 1) := by
    rw [ulp, abs_of_pos hq, ← zpow_add₀ (by norm_num)]
    congr 1
    ring
  rw [e1, e2]
  exact ⟨by exact_mod_cast h1, by exact_mod_cast h2⟩

/-- A number with that many places is a number of units, or at most the least with this unit. -/
theorem Representable.units (hw : Representable p w) (q : ℚ) :
    (∃ n : ℤ, w = n * ulp p q) ∨ w ≤ 2 ^ ((p : ℤ) - 1) * ulp p q := by
  obtain ⟨m, k, hm, rfl⟩ := hw
  rcases le_or_gt (Int.log 2 |q| + 1 - p) k with hk | hk
  · left
    obtain ⟨d, hd⟩ := Int.le.dest hk
    refine ⟨m * 2 ^ d, ?_⟩
    rw [← hd, zpow_add₀ (by norm_num), ulp]
    push_cast
    rw [zpow_natCast]
    ring
  · right
    have hm' : (m : ℚ) ≤ 2 ^ p := by exact_mod_cast (le_abs_self m).trans hm
    have hpow : (2 : ℚ) ^ k ≤ 2 ^ (Int.log 2 |q| + 1 - p - 1) :=
      zpow_le_zpow_right₀ one_le_two (by omega)
    calc (m : ℚ) * 2 ^ k ≤ 2 ^ p * 2 ^ (Int.log 2 |q| + 1 - p - 1) := by
          apply mul_le_mul hm' hpow (by positivity) (by positivity)
      _ = 2 ^ ((p : ℤ) - 1) * ulp p q := by
          rw [ulp, ← zpow_natCast, ← zpow_add₀ (by norm_num), ← zpow_add₀ (by norm_num)]
          congr 1
          ring

theorem pow_pred_cast (hp : 1 ≤ p) : ((2 ^ (p - 1) : ℤ) : ℚ) = 2 ^ ((p : ℤ) - 1) := by
  obtain ⟨k, rfl⟩ := Nat.exists_eq_add_of_le' hp
  simp

theorem le_roundTo (hp : 1 ≤ p) (hq : 0 < q) (hw : Representable p w) (h : w ≤ q) :
    w ≤ roundTo p q := by
  have hu := ulp_pos p q
  obtain ⟨hlow, -⟩ := ulp_spec (p := p) hq
  rcases hw.units q with ⟨n, rfl⟩ | hsmall
  · exact mul_le_mul_of_nonneg_right
      (by exact_mod_cast le_roundEven ((le_div_iff₀ hu).2 h)) hu.le
  · refine hsmall.trans (mul_le_mul_of_nonneg_right ?_ hu.le)
    rw [← pow_pred_cast hp]
    refine Int.cast_le.2 (le_roundEven ?_)
    rw [pow_pred_cast hp, le_div_iff₀ hu]
    exact hlow

theorem roundTo_le (hp : 1 ≤ p) (hq : 0 < q) (hw : Representable p w) (h : q ≤ w) :
    roundTo p q ≤ w := by
  have hu := ulp_pos p q
  obtain ⟨hlow, -⟩ := ulp_spec (p := p) hq
  have hunits : ∃ n : ℤ, w = n * ulp p q := by
    rcases hw.units q with hn | hsmall
    · exact hn
    · -- then both are the least with this unit
      refine ⟨2 ^ (p - 1), ?_⟩
      rw [pow_pred_cast hp]
      exact le_antisymm hsmall (hlow.trans h)
  obtain ⟨n, rfl⟩ := hunits
  exact mul_le_mul_of_nonneg_right (by exact_mod_cast roundEven_le ((div_le_iff₀ hu).2 h)) hu.le

theorem roundTo_zero (p : ℕ) : roundTo p 0 = 0 := by
  simp [roundTo, roundEven]

/-- The error is half a unit at most. -/
theorem abs_roundTo_sub_le (p : ℕ) (q : ℚ) : |roundTo p q - q| ≤ ulp p q / 2 := by
  have hu := ulp_pos p q
  have hsplit : roundTo p q - q = (roundEven (q / ulp p q) - q / ulp p q) * ulp p q := by
    rw [sub_mul, div_mul_cancel₀ _ hu.ne']
    rfl
  rw [hsplit, abs_mul, abs_of_pos hu]
  calc |(roundEven (q / ulp p q) : ℚ) - q / ulp p q| * ulp p q ≤ 1 / 2 * ulp p q :=
        mul_le_mul_of_nonneg_right (abs_roundEven_sub_le _) hu.le
    _ = ulp p q / 2 := by ring

/-- The unit of a number below a power of two. -/
theorem ulp_le {e : ℤ} (hq : 0 < q) (h : q < 2 ^ (e + p)) : ulp p q ≤ 2 ^ e := by
  have h1 := Int.zpow_log_le_self (by norm_num : 1 < 2) hq
  have hlog : Int.log 2 q < e + p := by
    by_contra hge
    have := (zpow_le_zpow_right₀ (by norm_num : (1 : ℚ) ≤ 2) (not_lt.1 hge)).trans
      (by exact_mod_cast h1)
    linarith
  rw [ulp, abs_of_pos hq]
  exact zpow_le_zpow_right₀ (by norm_num) (by omega)
