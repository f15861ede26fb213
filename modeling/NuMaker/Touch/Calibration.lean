/-
What `adc_touch.c` reports of a sample of the panel: the calibration matrix of `nu_adc_touch_cal`
applied in 32-bit signed arithmetic, the result cut to sixteen bits, and the range compared from
above only.

A coordinate below zero therefore comes back as one near 65535 and is reported as the maximum.
`Kept` says of an exact numerator when the reported coordinate is the clamped affine image all
the same:

* **`limited_eq_clamp_iff`** — one coordinate;
* **`Device.readpoint_clamped_iff`** — every point of every read: the pen-down points are the
  clamped images of their samples iff each numerator is `Kept`;
* **`Device.readpoint_up`** — a pen-up repeats the point of the pen-down before it.
-/
import NuMaker.Touch.Sampling
import Mathlib.Tactic.Ring

namespace Touch

/-! ### The driver -/

/-- The calibration matrix. -/
structure S_CALIBRATION_MATRIX where
  a : BitVec 32
  b : BitVec 32
  c : BitVec 32
  d : BitVec 32
  e : BitVec 32
  f : BitVec 32
  div : BitVec 32
deriving DecidableEq, Repr

/-- `RT_TOUCH_EVENT_UP`. -/
def RT_TOUCH_EVENT_UP : BitVec 8 := 1

/-- `RT_TOUCH_EVENT_DOWN`. -/
def RT_TOUCH_EVENT_DOWN : BitVec 8 := 2

/-- `struct rt_touch_data`. -/
structure rt_touch_data where
  event : BitVec 8
  track_id : BitVec 8
  width : BitVec 8
  x_coordinate : BitVec 16
  y_coordinate : BitVec 16
  timestamp : BitVec 32
deriving DecidableEq, Repr

/-- The device, the file's variables, the statics of `nu_adc_touch_readpoint` and the samples on
the message queue. -/
structure Device where
  x_range : BitVec 32
  y_range : BitVec 32
  g_sCalMat : S_CALIBRATION_MATRIX
  /-- `g_u32Calibrated` is not zero. -/
  g_u32Calibrated : Bool
  last_report_x : BitVec 32
  last_report_y : BitVec 32
  g_pmqTouchXYZ : List nu_adc_touch_data
deriving DecidableEq, Repr

/-- `nu_adc_touch_update_calmat`. -/
def Device.nu_adc_touch_update_calmat (s : Device) (m : S_CALIBRATION_MATRIX) : Device :=
  if m.div ≠ 0 then { s with g_sCalMat := m, g_u32Calibrated := true } else s

/-- `nu_adc_touch_cal`: the two new sums.  `int32_t` wraps, and the division truncates. -/
def nu_adc_touch_cal (m : S_CALIBRATION_MATRIX) (sumx sumy : BitVec 32) : BitVec 32 × BitVec 32 :=
  ((m.c + m.a * sumx + m.b * sumy).sdiv m.div, (m.f + m.d * sumx + m.e * sumy).sdiv m.div)

/-- The comparison of a `uint16_t` coordinate with a range, and the narrower of the two. -/
def limited (coordinate : BitVec 16) (range : BitVec 32) : BitVec 16 :=
  if coordinate.setWidth 32 > range then range.setWidth 16 else coordinate

/-- The point that one sample leaves in the buffer, and the statics after it.  What is left of
`width` when the panel is not calibrated is what the caller had there. -/
def Device.report (s : Device) (timestamp : BitVec 32) (width : BitVec 8) (v : nu_adc_touch_data) :
    rt_touch_data × Device :=
  let sums := if s.g_u32Calibrated then nu_adc_touch_cal s.g_sCalMat v.u32X v.u32Y
    else (v.u32X, v.u32Y)
  -- x and y are unstable when the pen is lifted: the last point is reported again
  let s' := if v.u32Z0 = 0 then s else { s with last_report_x := sums.1, last_report_y := sums.2 }
  let x := s'.last_report_x.setWidth 16
  let y := s'.last_report_y.setWidth 16
  let bufZ0 := v.u32Z0 >>> 3
  ({ event := if v.u32Z0 = 0 then RT_TOUCH_EVENT_UP else RT_TOUCH_EVENT_DOWN
     track_id := 0
     width := if s.g_u32Calibrated then (if bufZ0 > 255 then 255 else bufZ0.setWidth 8) else width
     x_coordinate := if s.g_u32Calibrated then limited x s.x_range else x
     y_coordinate := if s.g_u32Calibrated then limited y s.y_range else y
     timestamp := timestamp }, s')

/-- `nu_adc_touch_readpoint`: the points it counts, and the device after the call.  For each entry
of the buffer the list gives what `rt_touch_get_ts` answers and the `width` that is in it. -/
def Device.nu_adc_touch_readpoint (s : Device) :
    List (BitVec 32 × BitVec 8) → List rt_touch_data × Device
  | [] => ([], s)
  | p :: ps =>
    match s.g_pmqTouchXYZ with
    -- `nu_adc_touch_read_xyz` has no sample
    | [] => ([], s)
    | v :: q =>
      let r := Device.report { s with g_pmqTouchXYZ := q } p.1 p.2 v
      let rest := Device.nu_adc_touch_readpoint r.2 ps
      (r.1 :: rest.1, rest.2)

/-! ### The image of a sample -/

/-- A matrix of the five-point fit: its divisor is the `scaling` of 65536.  The six coefficients
are conversions of floating-point sums and can be anything. -/
def S_CALIBRATION_MATRIX.Fitted (m : S_CALIBRATION_MATRIX) : Prop := m.div = 65536

instance (m : S_CALIBRATION_MATRIX) : Decidable m.Fitted := inferInstanceAs (Decidable (_ = _))

/-- The numerator of the x coordinate, exactly. -/
def S_CALIBRATION_MATRIX.numX (m : S_CALIBRATION_MATRIX) (v : nu_adc_touch_data) : ℤ :=
  m.c.toInt + m.a.toInt * v.u32X.toInt + m.b.toInt * v.u32Y.toInt

/-- The numerator of the y coordinate, exactly. -/
def S_CALIBRATION_MATRIX.numY (m : S_CALIBRATION_MATRIX) (v : nu_adc_touch_data) : ℤ :=
  m.f.toInt + m.d.toInt * v.u32X.toInt + m.e.toInt * v.u32Y.toInt

/-- `q` clamped into `[0, range]`. -/
def clamp (range q : ℤ) : ℤ := max 0 (min q range)

/-- The point is the clamped affine image of the sample. -/
def Device.Image (s : Device) (p : rt_touch_data) (v : nu_adc_touch_data) : Prop :=
  p.x_coordinate.toNat
      = clamp s.x_range.toNat ((s.g_sCalMat.numX v).tdiv s.g_sCalMat.div.toInt) ∧
    p.y_coordinate.toNat
      = clamp s.y_range.toNat ((s.g_sCalMat.numY v).tdiv s.g_sCalMat.div.toInt)

instance (s : Device) (p : rt_touch_data) (v : nu_adc_touch_data) : Decidable (s.Image p v) :=
  inferInstanceAs (Decidable (_ ∧ _))

/-! ### When the coordinate is kept -/

/-- Bits 16 to 31 of a numerator, rounded up when bit 31 is set. -/
def upper (n : ℤ) : ℤ := (n + if n % 2 ^ 32 < 2 ^ 31 then 0 else 65535) / 65536 % 65536

/-- The numerators whose quotient by 65536 survives.  A negative one must lie near a multiple of
`2 ^ 32`, so near 0 when it fits an `int32_t`; of the others the upper half must still be the
quotient, as it is of all below `2 ^ 31`, unless both lie at the range or above. -/
def Kept (range n : ℤ) : Prop :=
  range = 0 ∨ (n < 0 ∧ |n.bmod (2 ^ 32)| < 65536) ∨
    (0 ≤ n ∧ (upper n = n / 65536 ∨ range ≤ min (upper n) (n / 65536)))

instance (range n : ℤ) : Decidable (Kept range n) := inferInstanceAs (Decidable (_ ∨ _))

/-- The condition on a sample: both numerators are kept. -/
def Device.Keeps (s : Device) (v : nu_adc_touch_data) : Prop :=
  Kept s.x_range.toNat (s.g_sCalMat.numX v) ∧ Kept s.y_range.toNat (s.g_sCalMat.numY v)

instance (s : Device) (v : nu_adc_touch_data) : Decidable (s.Keeps v) :=
  inferInstanceAs (Decidable (_ ∧ _))

/-- Wrapping before the division changes the low half of the quotient only by the rounding of a
numerator whose bit 31 is set. -/
theorem bmod_tdiv_emod (n : ℤ) : (n.bmod (2 ^ 32)).tdiv 65536 % 65536 = upper n := by
  have hsign : Int.sign 65536 = 1 := rfl
  unfold upper
  rw [Int.tdiv_eq_ediv, Int.bmod_eq_emod, hsign]
  split <;> split <;> split <;> simp_all <;> omega

/-- The comparison in integers: one-sided against two-sided. -/
theorem min_upper_eq_clamp_iff {n range : ℤ} (h : 0 ≤ range) :
    min (upper n) range = clamp range (n.tdiv 65536) ↔ Kept range n := by
  have hsign : Int.sign 65536 = 1 := rfl
  unfold clamp Kept
  by_cases hn : 0 ≤ n
  · -- the quotient is not negative: the lower bound of the clamp is idle
    have hquot : n.tdiv 65536 = n / 65536 := by rw [Int.tdiv_eq_ediv, if_pos (Or.inl hn), add_zero]
    have hupper : 0 ≤ upper n := by unfold upper; split <;> omega
    rw [hquot]
    omega
  · -- the quotient is not positive: both sides must be zero
    unfold upper
    rw [Int.tdiv_eq_ediv, abs_lt, Int.bmod_eq_emod, hsign]
    simp only [hn, false_or]
    split <;> split <;> split <;> omega

theorem toNat_limited (x : BitVec 16) (range : BitVec 32) :
    (limited x range).toNat = min x.toNat range.toNat := by
  have hx : x.toNat < 2 ^ 16 := x.isLt
  have hwide : (x.setWidth 32).toNat = x.toNat := by rw [BitVec.toNat_setWidth]; omega
  unfold limited
  split
  case isTrue h =>
    have hlt : range.toNat < x.toNat := hwide ▸ h
    rw [BitVec.toNat_setWidth]
    omega
  case isFalse h =>
    have hle : ¬ range.toNat < x.toNat := hwide ▸ h
    omega

theorem toNat_setWidth_sixteen (x : BitVec 32) : ((x.setWidth 16).toNat : ℤ) = x.toInt % 65536 := by
  rw [BitVec.toNat_setWidth, BitVec.toInt_eq_toNat_cond]
  split <;> omega

/-- One numerator of `nu_adc_touch_cal`, as an integer. -/
theorem toInt_numerator (a b c x y : BitVec 32) :
    (c + a * x + b * y).toInt
      = (c.toInt + a.toInt * x.toInt + b.toInt * y.toInt).bmod (2 ^ 32) := by
  simp only [BitVec.toInt_add, BitVec.toInt_mul, Int.add_bmod_bmod, Int.bmod_add_bmod]

/-- Dividing an `int32_t` by `scaling` does not overflow. -/
theorem toInt_sdiv_scaling (n : BitVec 32) : (n.sdiv 65536).toInt = n.toInt.tdiv 65536 := by
  have hlt : n.toInt < 2 ^ 31 := BitVec.toInt_lt
  have hle : -2 ^ 31 ≤ n.toInt := BitVec.le_toInt n
  have hsign : Int.sign 65536 = 1 := rfl
  have hdiv : (65536 : BitVec 32).toInt = 65536 := by decide
  rw [BitVec.toInt_sdiv, hdiv]
  generalize n.toInt = w at hlt hle
  have hquot := Int.tdiv_eq_ediv (a := w) (b := 65536)
  apply Int.bmod_eq_of_le <;> rw [hquot, hsign] <;> split <;> omega

/-- One coordinate: it is reported faithfully iff its numerator is kept. -/
theorem limited_eq_clamp_iff (a b c x y range : BitVec 32) :
    ((limited (((c + a * x + b * y).sdiv 65536).setWidth 16) range).toNat : ℤ)
        = clamp range.toNat ((c.toInt + a.toInt * x.toInt + b.toInt * y.toInt).tdiv 65536) ↔
      Kept range.toNat (c.toInt + a.toInt * x.toInt + b.toInt * y.toInt) := by
  set n := c.toInt + a.toInt * x.toInt + b.toInt * y.toInt with hn
  have hquot : ((c + a * x + b * y).sdiv 65536).toInt = (n.bmod (2 ^ 32)).tdiv 65536 := by
    rw [toInt_sdiv_scaling, toInt_numerator, ← hn]
  have hlow := toNat_setWidth_sixteen ((c + a * x + b * y).sdiv 65536)
  rw [hquot, bmod_tdiv_emod] at hlow
  rw [← min_upper_eq_clamp_iff (by omega), toNat_limited, ← hlow]
  omega

/-! ### Every read -/

/-- The parts of the device that decide how a sample is mapped. -/
def Device.Same (s t : Device) : Prop :=
  t.x_range = s.x_range ∧ t.y_range = s.y_range ∧ t.g_sCalMat = s.g_sCalMat ∧
    t.g_u32Calibrated = s.g_u32Calibrated

/-- A pen-down point is the image of its sample iff both numerators are kept. -/
theorem Device.report_image_iff (s : Device) (ts : BitVec 32) (w : BitVec 8)
    (v : nu_adc_touch_data) (hcal : s.g_u32Calibrated) (hm : s.g_sCalMat.Fitted)
    (hv : v.u32Z0 ≠ 0) : s.Image (s.report ts w v).1 v ↔ s.Keeps v := by
  have hdiv' : s.g_sCalMat.div = 65536 := hm
  have hdiv : s.g_sCalMat.div.toInt = 65536 := by rw [hdiv']; decide
  have hx := limited_eq_clamp_iff s.g_sCalMat.a s.g_sCalMat.b s.g_sCalMat.c v.u32X v.u32Y s.x_range
  have hy := limited_eq_clamp_iff s.g_sCalMat.d s.g_sCalMat.e s.g_sCalMat.f v.u32X v.u32Y s.y_range
  unfold Device.Image Device.Keeps
  rw [hdiv]
  refine and_congr (Iff.trans (iff_of_eq ?_) hx) (Iff.trans (iff_of_eq ?_) hy)
  · simp only [Device.report, if_neg hv, hcal, if_true, nu_adc_touch_cal, hdiv',
      S_CALIBRATION_MATRIX.numX]
  · simp only [Device.report, if_neg hv, hcal, if_true, nu_adc_touch_cal, hdiv',
      S_CALIBRATION_MATRIX.numY]

theorem Device.report_same (s : Device) (ts : BitVec 32) (w : BitVec 8) (v : nu_adc_touch_data)
    (q : List nu_adc_touch_data) :
    s.Same (Device.report { s with g_pmqTouchXYZ := q } ts w v).2 := by
  unfold Device.report
  simp only
  split <;> exact ⟨rfl, rfl, rfl, rfl⟩

/-- `Image` and `Keeps` look at nothing but those parts. -/
theorem Device.Same.image_iff {s t : Device} (h : s.Same t) (p : rt_touch_data)
    (v : nu_adc_touch_data) : t.Image p v ↔ s.Image p v := by
  obtain ⟨hx, hy, hm, -⟩ := h
  unfold Device.Image
  rw [hx, hy, hm]

theorem Device.Same.keeps_iff {s t : Device} (h : s.Same t) (v : nu_adc_touch_data) :
    t.Keeps v ↔ s.Keeps v := by
  obtain ⟨hx, hy, hm, -⟩ := h
  unfold Device.Keeps
  rw [hx, hy, hm]

/-- Every read: the points of the pen-down samples it takes from the queue are the clamped
affine images iff the numerators of each of these samples are kept. -/
theorem Device.readpoint_clamped_iff (s : Device) (hcal : s.g_u32Calibrated)
    (hm : s.g_sCalMat.Fitted) (buf : List (BitVec 32 × BitVec 8)) :
    (∀ p ∈ (s.nu_adc_touch_readpoint buf).1.zip s.g_pmqTouchXYZ, p.2.u32Z0 ≠ 0 → s.Image p.1 p.2) ↔
      ∀ v ∈ s.g_pmqTouchXYZ.take buf.length, v.u32Z0 ≠ 0 → s.Keeps v := by
  induction buf generalizing s with
  | nil => simp [Device.nu_adc_touch_readpoint]
  | cons b bs ih =>
    rcases hq : s.g_pmqTouchXYZ with _ | ⟨v, q⟩
    · simp
    · -- the sample at the head by itself, those behind it with what the head leaves
      set s' : Device := { s with g_pmqTouchXYZ := q } with hs'
      have hsame : s.Same (s'.report b.1 b.2 v).2 := s.report_same b.1 b.2 v q
      have hrest : (s'.report b.1 b.2 v).2.g_pmqTouchXYZ = q := by
        unfold Device.report
        simp only
        split <;> rfl
      have hhead : v.u32Z0 ≠ 0 → (s.Image (s'.report b.1 b.2 v).1 v ↔ s.Keeps v) :=
        fun hv => s'.report_image_iff b.1 b.2 v hcal hm hv
      have htail := ih (s'.report b.1 b.2 v).2 (hsame.2.2.2 ▸ hcal) (hsame.2.2.1 ▸ hm)
      rw [hrest] at htail
      simp only [hsame.image_iff, hsame.keeps_iff] at htail
      simp only [Device.nu_adc_touch_readpoint, hq, ← hs', List.zip_cons_cons, List.length_cons,
        List.take_succ_cons, List.forall_mem_cons]
      exact and_congr (forall_congr' hhead) htail

/-- The matrix that the fit computes for a 320 by 240 display whose five marks were read at
`(736, 676)`, `(3616, 676)`, `(3616, 3196)`, `(736, 3196)` and `(2176, 1936)`. -/
def corner : Device :=
  { x_range := 320, y_range := 240
    g_sCalMat := { a := 5461, b := 0, c := -1398098, d := 0, e := 4681, f := -1198374, div := 65536 }
    g_u32Calibrated := true
    last_report_x := 0, last_report_y := 0
    g_pmqTouchXYZ := [{ u32X := 100, u32Y := 1936, u32Z0 := 1, u32Z1 := 1 },
      { u32X := 2176, u32Y := 1936, u32Z0 := 1, u32Z1 := 1 }] }

/-- A touch left of the calibrated area is thirteen columns below zero and is reported in the last
column. -/
theorem readpoint_below_zero :
    ¬ (∀ p ∈ (corner.nu_adc_touch_readpoint [(0, 0)]).1.zip corner.g_pmqTouchXYZ,
        p.2.u32Z0 ≠ 0 → corner.Image p.1 p.2) ∧
      (corner.nu_adc_touch_readpoint [(0, 0)]).1.map rt_touch_data.x_coordinate = [320] := by
  decide

/-- A touch on the middle mark is reported there, less the fraction that is cut off. -/
theorem readpoint_clamped_iff_middle :
    (({ corner with g_pmqTouchXYZ := corner.g_pmqTouchXYZ.tail }.nu_adc_touch_readpoint
        [(0, 0)]).1.map fun p : rt_touch_data => (p.x_coordinate, p.y_coordinate)) = [(159, 119)] ∧
    ∀ p ∈ ({ corner with g_pmqTouchXYZ := corner.g_pmqTouchXYZ.tail }.nu_adc_touch_readpoint
        [(0, 0)]).1.zip corner.g_pmqTouchXYZ.tail,
      p.2.u32Z0 ≠ 0 → corner.Image p.1 p.2 :=
  ⟨by decide, (Device.readpoint_clamped_iff { corner with g_pmqTouchXYZ := corner.g_pmqTouchXYZ.tail }
    rfl (by decide) [(0, 0)]).mpr (by decide)⟩

/-- A pen-up takes its coordinates from the pen-down before it. -/
theorem Device.readpoint_up (s : Device) (ts ts' : BitVec 32) (w w' : BitVec 8)
    (v u : nu_adc_touch_data) (hv : v.u32Z0 ≠ 0) (hu : u.u32Z0 = 0) :
    ((s.report ts w v).2.report ts' w' u).1.x_coordinate = (s.report ts w v).1.x_coordinate ∧
      ((s.report ts w v).2.report ts' w' u).1.y_coordinate = (s.report ts w v).1.y_coordinate := by
  simp only [Device.report, if_neg hv, if_pos hu, and_self]

end Touch
