/-
The calibration of the touch panel from three points: `nu_adc_cal_mat_get`, where `DEF_CAL_POINT_NUM` is 3.

The matrix is the solution of two systems of three equations by Cramer's rule, with the determinant as its
divisor.  Most of the products run over 32 bits, and no harm is done: the equations hold for words as they
do for numbers, and only what is divided in the end has to fit.

* **`solved`** — the equations, for words;
* **`calibrated_iff`** — the three points are reported where they were shown iff the products of their
  coordinates and the divisor fit a word.
-/
import NuMaker.Touch.Calibration
import Mathlib.Data.BitVec
import Mathlib.Tactic.Ring

namespace Touch

/-- A point of the display, or of the panel. -/
structure S_COORDINATE_POINT where
  x : BitVec 32
  y : BitVec 32
deriving DecidableEq, Repr

/-- `nu_adc_cal_mat_get`, for three points; there is no matrix when they are on a line. -/
def nu_adc_cal_mat_get (psDispCP psADCCP : Fin 3 → S_COORDINATE_POINT) : Option S_CALIBRATION_MATRIX :=
  let div := ((psADCCP 0).x - (psADCCP 2).x) * ((psADCCP 1).y - (psADCCP 2).y) -
    ((psADCCP 1).x - (psADCCP 2).x) * ((psADCCP 0).y - (psADCCP 2).y)
  if div = 0 then none
  else some {
    div := div
    a := ((psDispCP 0).x - (psDispCP 2).x) * ((psADCCP 1).y - (psADCCP 2).y) -
      ((psDispCP 1).x - (psDispCP 2).x) * ((psADCCP 0).y - (psADCCP 2).y)
    b := ((psADCCP 0).x - (psADCCP 2).x) * ((psDispCP 1).x - (psDispCP 2).x) -
      ((psDispCP 0).x - (psDispCP 2).x) * ((psADCCP 1).x - (psADCCP 2).x)
    c := ((psADCCP 2).x * (psDispCP 1).x - (psADCCP 1).x * (psDispCP 2).x) * (psADCCP 0).y +
      ((psADCCP 0).x * (psDispCP 2).x - (psADCCP 2).x * (psDispCP 0).x) * (psADCCP 1).y +
      ((psADCCP 1).x * (psDispCP 0).x - (psADCCP 0).x * (psDispCP 1).x) * (psADCCP 2).y
    d := ((psDispCP 0).y - (psDispCP 2).y) * ((psADCCP 1).y - (psADCCP 2).y) -
      ((psDispCP 1).y - (psDispCP 2).y) * ((psADCCP 0).y - (psADCCP 2).y)
    e := ((psADCCP 0).x - (psADCCP 2).x) * ((psDispCP 1).y - (psDispCP 2).y) -
      ((psDispCP 0).y - (psDispCP 2).y) * ((psADCCP 1).x - (psADCCP 2).x)
    f := ((psADCCP 2).x * (psDispCP 1).y - (psADCCP 1).x * (psDispCP 2).y) * (psADCCP 0).y +
      ((psADCCP 0).x * (psDispCP 2).y - (psADCCP 2).x * (psDispCP 0).y) * (psADCCP 1).y +
      ((psADCCP 1).x * (psDispCP 0).y - (psADCCP 0).x * (psDispCP 1).y) * (psADCCP 2).y }

/-- The points that the user is to touch. -/
def sDispPoints (BSP_LCD_WIDTH BSP_LCD_HEIGHT : BitVec 32) : Fin 3 → S_COORDINATE_POINT
  | 0 => ⟨BSP_LCD_WIDTH / 4, BSP_LCD_HEIGHT / 2⟩
  | 1 => ⟨BSP_LCD_WIDTH - BSP_LCD_WIDTH / 4, BSP_LCD_HEIGHT / 4⟩
  | 2 => ⟨BSP_LCD_WIDTH / 2, BSP_LCD_HEIGHT - BSP_LCD_HEIGHT / 4⟩

/-- What is divided for a coordinate `v` of the display fits a word. -/
def Fits (div v : BitVec 32) : Prop :=
  -2 ^ 31 ≤ div.toInt * v.toInt ∧ div.toInt * v.toInt < 2 ^ 31

instance (div v : BitVec 32) : Decidable (Fits div v) := inferInstanceAs (Decidable (_ ∧ _))

variable {disp adc : Fin 3 → S_COORDINATE_POINT} {m : S_CALIBRATION_MATRIX}

/-- The equations of the matrix, at each of the points. -/
theorem solved (h : nu_adc_cal_mat_get disp adc = some m) (i : Fin 3) :
    m.c + m.a * (adc i).x + m.b * (adc i).y = m.div * (disp i).x ∧
      m.f + m.d * (adc i).x + m.e * (adc i).y = m.div * (disp i).y := by
  unfold nu_adc_cal_mat_get at h
  dsimp only at h
  split_ifs at h
  obtain rfl := Option.some_inj.mp h
  have hi : i = 0 ∨ i = 1 ∨ i = 2 := by omega
  rcases hi with rfl | rfl | rfl <;> constructor <;> dsimp only <;> ring

theorem div_ne_zero (h : nu_adc_cal_mat_get disp adc = some m) : m.div ≠ 0 := by
  unfold nu_adc_cal_mat_get at h
  dsimp only at h
  split_ifs at h with hz
  obtain rfl := Option.some_inj.mp h
  exact hz

/-- A word times the divisor, divided again. -/
theorem mul_sdiv_iff {div v : BitVec 32} (hdiv : div ≠ 0) (hv : 0 ≤ v.toInt) :
    (div * v).sdiv div = v ↔ Fits div v := by
  have hD : div.toInt ≠ 0 := fun h => hdiv (BitVec.eq_of_toInt_eq h)
  have hDlo := div.le_toInt
  have hDhi := div.toInt_lt
  have hvhi := v.toInt_lt
  rw [← BitVec.toInt_inj, BitVec.toInt_sdiv, BitVec.toInt_mul, Fits]
  generalize div.toInt = D at *
  generalize v.toInt = p at *
  have hlo : -(2 ^ 31) ≤ (D * p).bmod (2 ^ 32) := Int.le_bmod (by omega)
  have hhi : (D * p).bmod (2 ^ 32) < 2 ^ 31 := Int.bmod_lt (by omega)
  constructor
  · intro h
    -- the quotient is the coordinate, so that the remainder is less than the divisor
    have hquot : ((D * p).bmod (2 ^ 32)).tdiv D = p := by
      have habs := Int.natAbs_tdiv_le_natAbs ((D * p).bmod (2 ^ 32)) D
      generalize ((D * p).bmod (2 ^ 32)).tdiv D = q at *
      by_cases hmin : q = 2 ^ 31
      · subst hmin
        have hwrap : (2 ^ 31 : ℤ).bmod (2 ^ 32) = -2 ^ 31 := rfl
        omega
      · rwa [Int.bmod_eq_of_le (by omega) (by omega)] at h
    have hrem : (((D * p).bmod (2 ^ 32)).tmod D).natAbs < D.natAbs := by
      rw [Int.natAbs_tmod]
      exact Nat.mod_lt _ (Int.natAbs_pos.mpr hD)
    have hsplit := Int.mul_tdiv_add_tmod ((D * p).bmod (2 ^ 32)) D
    rw [hquot] at hsplit
    have hdvd : ((2 ^ 32 : ℕ) : ℤ) ∣ (D * p).bmod (2 ^ 32) - D * p := Int.dvd_bmod_sub_self
    generalize D * p = n at *
    omega
  · rintro ⟨h₁, h₂⟩
    rw [Int.bmod_eq_of_le (n := D * p) (by omega) (by omega), Int.mul_tdiv_cancel_left _ hD,
      Int.bmod_eq_of_le (by omega) (by omega)]

/-- **The three points come back**, exactly where nothing that is divided has run over. -/
theorem calibrated_iff (h : nu_adc_cal_mat_get disp adc = some m)
    (hx : ∀ i, 0 ≤ (disp i).x.toInt) (hy : ∀ i, 0 ≤ (disp i).y.toInt) :
    (∀ i, nu_adc_touch_cal m (adc i).x (adc i).y = ((disp i).x, (disp i).y)) ↔
      ∀ i, Fits m.div (disp i).x ∧ Fits m.div (disp i).y := by
  refine forall_congr' fun i => ?_
  obtain ⟨hxi, hyi⟩ := solved h i
  rw [nu_adc_touch_cal, hxi, hyi, Prod.mk.injEq, mul_sdiv_iff (div_ne_zero h) (hx i),
    mul_sdiv_iff (div_ne_zero h) (hy i)]

/-- Where a panel of 4096 by 4096 is touched. -/
def touched : Fin 3 → S_COORDINATE_POINT
  | 0 => ⟨1100, 2000⟩
  | 1 => ⟨3000, 1050⟩
  | 2 => ⟨2090, 2990⟩

theorem calibrated_touched :
    ∃ m, nu_adc_cal_mat_get (sDispPoints 320 240) touched = some m ∧
      ∀ i, nu_adc_touch_cal m (touched i).x (touched i).y =
        ((sDispPoints 320 240 i).x, (sDispPoints 320 240 i).y) :=
  have h : nu_adc_cal_mat_get (sDispPoints 320 240) touched =
      some ⟨234400, -6400, -19320000, -2400, 173400, -5580000, 2821500⟩ := by decide +kernel
  ⟨_, h, (calibrated_iff h (by decide +kernel) (by decide +kernel)).mpr (by decide +kernel)⟩

end Touch
