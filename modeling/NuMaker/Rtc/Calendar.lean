/-
Calendar time, as `ctime.c` computes it.

`gmtime_r` breaks a `time_t`, a count of seconds since 1970, down by taking off whole years, `timegm` puts
the fields together again from a closed formula:

* **`passYears_spec`** — taking off years keeps the count of days that `daysBefore` measures;
* **`timegm_gmtime_r`** — the two are inverse to each other on every time before 2100;
* **`gmtime_r_calendar`** — the fields are those of a calendar date and a wall time.
-/
import Mathlib.Tactic

namespace Rtc

/-! ### The functions of `ctime.c` -/

/-- `struct tm`. -/
structure tm where
  tm_sec : ℤ
  tm_min : ℤ
  tm_hour : ℤ
  tm_mday : ℤ
  tm_mon : ℤ
  tm_year : ℤ
  tm_wday : ℤ
  tm_yday : ℤ
  tm_isdst : ℤ
deriving DecidableEq, Repr

/-- Seconds per day. -/
def SPD : ℤ := 24 * 60 * 60

/-- `__spm`: the days before each month of a year that is not leap. -/
def spm : ℕ → ℤ
  | 0 => 0
  | 1 => 31
  | 2 => 59
  | 3 => 90
  | 4 => 120
  | 5 => 151
  | 6 => 181
  | 7 => 212
  | 8 => 243
  | 9 => 273
  | 10 => 304
  | 11 => 334
  | _ => 365

/-- `__isleap`. -/
def isleap (year : ℤ) : Bool := year.tmod 4 = 0 ∧ (year.tmod 100 ≠ 0 ∨ year.tmod 400 = 0)

/-- The length of a year. -/
def yearDays (year : ℤ) : ℤ := if isleap year then 366 else 365

/-- The loop of `gmtime_r` over the years from `i` on, with `work` days to go. -/
def passYears : ℕ → ℤ → ℤ → ℤ × ℤ
  | 0, i, work => (i, work)
  | n + 1, i, work =>
    if yearDays i ≤ work then passYears n (i + 1) (work - yearDays i) else (i, work)

/-- The loop of `gmtime_r` down the months, to the last one that has begun. -/
def findMonth (work : ℤ) : ℕ → ℕ
  | 0 => 0
  | i + 1 => if spm (i + 1) > work then findMonth work i else i + 1

/-- The days left of the year, once the leap day has been set apart, and the day of the month
counted from there. -/
def leapAdjust (leap : Bool) (work : ℤ) : ℤ × ℤ :=
  if leap ∧ work > 58 then (work - 1, if work = 59 then 2 else 1) else (work, 1)

/-- `int` as a conversion from a wider count. -/
def toInt32 (x : ℤ) : ℤ := (BitVec.ofInt 32 x).toInt

/-- `gmtime_r`; `tz_is_dst` is the setting of the C library's time zone. -/
def gmtime_r (tz_is_dst : ℤ) (t : ℤ) : tm :=
  let sod := t.tmod SPD
  let days := toInt32 (t.tdiv SPD)
  -- a year has at least 365 days, so this many rounds reach the end of the loop
  let (i, yday) := passYears (days.toNat / 365 + 1) 1970 days
  let (work, mday) := leapAdjust (isleap i) yday
  let mon := findMonth work 11
  { tm_sec := sod.tmod 60
    tm_min := (sod.tdiv 60).tmod 60
    tm_hour := (sod.tdiv 60).tdiv 60
    tm_mday := mday + (work - spm mon)
    tm_mon := mon
    tm_year := i - 1900
    tm_wday := (4 + days).tmod 7
    tm_yday := yday
    tm_isdst := tz_is_dst }

/-- The loop of `timegm` that carries days beyond the table over into the following months. -/
def carryDays : ℕ → tm → tm
  | 0, t => t
  | n + 1, t =>
    if t.tm_mday > spm (1 + t.tm_mon).toNat then
      let leapDay := if t.tm_mon = 1 ∧ isleap (t.tm_year + 1900) then 1 else 0
      let t := { t with tm_mday := t.tm_mday - leapDay - spm t.tm_mon.toNat, tm_mon := t.tm_mon + 1 }
      carryDays n (if t.tm_mon > 11 then { t with tm_mon := 0, tm_year := t.tm_year + 1 } else t)
    else t

/-- The carries of `timegm`, from the seconds up to the months. -/
def carry (t : tm) : tm :=
  let t := if t.tm_sec > 60 then
    { t with tm_min := t.tm_min + t.tm_sec.tdiv 60, tm_sec := t.tm_sec.tmod 60 } else t
  let t := if t.tm_min ≥ 60 then
    { t with tm_hour := t.tm_hour + t.tm_min.tdiv 60, tm_min := t.tm_min.tmod 60 } else t
  let t := if t.tm_hour ≥ 24 then
    { t with tm_mday := t.tm_mday + t.tm_hour.tdiv 24, tm_hour := t.tm_hour.tmod 24 } else t
  if t.tm_mon ≥ 12 then
    { t with tm_year := t.tm_year + t.tm_mon.tdiv 12, tm_mon := t.tm_mon.tmod 12 } else t

/-- The century years without a leap day that `timegm` takes off again. -/
def centuryDays (years : ℤ) : ℤ :=
  if years ≥ 131 then
    let c := (years - 131).tdiv 100
    let r := c % 4
    c / 4 * 3 + 1 + (if r = 3 then r - 1 else r)
  else 0

/-- `timegm`: the time and the normalised fields.  The years are read before the carries. -/
def timegm (t : tm) : ℤ × tm :=
  let years := t.tm_year - 70
  let t := carry t
  let t := carryDays (12 * t.tm_mday.toNat + 12) t
  if t.tm_year < 70 then (-1, t)
  else
    let yday := spm t.tm_mon.toNat + t.tm_mday - 1 +
      (if isleap (t.tm_year + 1900) ∧ t.tm_mon > 1 then 1 else 0)
    let day := years * 365 + (years + 1).tdiv 4 - centuryDays years + yday
    (((day * 24 + t.tm_hour) * 60 + t.tm_min) * 60 + t.tm_sec,
      { t with tm_yday := yday, tm_wday := (day + 4).tmod 7 })

/-! ### The years -/

/-- The days from 1970 to the first day of a year. -/
def daysBefore (year : ℤ) : ℤ := (year - 1970) * 365 + (year - 1969) / 4

/-- Up to 2100 every fourth year is leap. -/
theorem isleap_eq {y : ℤ} (h0 : 1970 ≤ y) (h1 : y < 2100) : isleap y = decide (y % 4 = 0) := by
  rw [isleap, Int.tmod_eq_emod_of_nonneg (by omega), Int.tmod_eq_emod_of_nonneg (by omega),
    Int.tmod_eq_emod_of_nonneg (by omega)]
  exact decide_eq_decide.2 (by omega)

/-- The length of a year is the distance between two first days. -/
theorem yearDays_eq {y : ℤ} (h0 : 1970 ≤ y) (h1 : y < 2100) :
    yearDays y = daysBefore (y + 1) - daysBefore y := by
  rw [yearDays, isleap_eq h0 h1, daysBefore, daysBefore]
  by_cases h : y % 4 = 0
  · rw [if_pos (by simpa using h)]
    omega
  · rw [if_neg (by simpa using h)]
    omega

theorem yearDays_ge (y : ℤ) : 365 ≤ yearDays y := by
  unfold yearDays
  split <;> omega

/-- **The loop over the years** ends in the year the day lies in, with the days since its first
day. -/
theorem passYears_spec {n : ℕ} {i work : ℤ} (h0 : 1970 ≤ i) (hw : 0 ≤ work)
    (hn : work < 365 * n) (h1 : daysBefore i + work < daysBefore 2100) :
    i ≤ (passYears n i work).1 ∧ (passYears n i work).1 < 2100 ∧ 0 ≤ (passYears n i work).2 ∧
      (passYears n i work).2 < yearDays (passYears n i work).1 ∧
      daysBefore (passYears n i work).1 + (passYears n i work).2 = daysBefore i + work := by
  induction n generalizing i work with
  | zero => omega
  | succ n ih =>
    have hi : i < 2100 := by
      simp only [daysBefore] at h1
      omega
    have hy := yearDays_eq h0 hi
    have hge := yearDays_ge i
    unfold passYears
    split
    · rename_i hle
      have := @ih (i + 1) (work - yearDays i) (by omega) (by omega) (by push_cast at hn; omega)
        (by omega)
      omega
    · rename_i hle
      exact ⟨le_rfl, hi, hw, by simpa using hle, rfl⟩

/-! ### The months -/

/-- The day of a year, common or leap, and the date the month loop finds for it. -/
theorem findMonth_spec : ∀ (leap : Bool) (w : ℕ), w < (if leap then 366 else 365) →
    findMonth (leapAdjust leap w).1 11 ≤ 11 ∧
    1 ≤ (leapAdjust leap w).2 + ((leapAdjust leap w).1 - spm (findMonth (leapAdjust leap w).1 11)) ∧
    (leapAdjust leap w).2 + ((leapAdjust leap w).1 - spm (findMonth (leapAdjust leap w).1 11)) ≤ 31 ∧
    spm (findMonth (leapAdjust leap w).1 11) +
      ((leapAdjust leap w).2 + ((leapAdjust leap w).1 - spm (findMonth (leapAdjust leap w).1 11)))
      - 1 + (if leap ∧ findMonth (leapAdjust leap w).1 11 > 1 then 1 else 0) = (w : ℤ) := by
  decide +kernel

/-! ### The two together -/

/-- The fields of a calendar date and a wall time, in the years the table covers. -/
structure tm.Calendar (t : tm) : Prop where
  sec : 0 ≤ t.tm_sec ∧ t.tm_sec < 60
  min : 0 ≤ t.tm_min ∧ t.tm_min < 60
  hour : 0 ≤ t.tm_hour ∧ t.tm_hour < 24
  mday : 1 ≤ t.tm_mday ∧ t.tm_mday ≤ 31
  mon : 0 ≤ t.tm_mon ∧ t.tm_mon ≤ 11
  year : 70 ≤ t.tm_year ∧ t.tm_year < 200

/-- The first second of 2100. -/
def before2100 : ℤ := 4102444800

/-- The days of a time before 2100, and what the year loop makes of them. -/
theorem passYears_days {d : ℤ} (h0 : 0 ≤ d) (h1 : d < 47482) {y w : ℤ}
    (h : passYears ((toInt32 d).toNat / 365 + 1) 1970 (toInt32 d) = (y, w)) :
    1970 ≤ y ∧ y < 2100 ∧ 0 ≤ w ∧ w < yearDays y ∧ daysBefore y + w = d := by
  have hi : toInt32 d = d := by
    rw [toInt32, BitVec.toInt_ofInt]
    exact Int.bmod_eq_of_le (by omega) (by omega)
  rw [hi] at h
  have hs := passYears_spec (n := d.toNat / 365 + 1) le_rfl h0 (by omega)
    (by simp only [daysBefore]; omega)
  rw [h] at hs
  obtain ⟨hy0, hy1, hw0, hw1, hd⟩ := hs
  refine ⟨hy0, hy1, hw0, hw1, ?_⟩
  simpa [daysBefore] using hd

/-- The fields `gmtime_r` finds, in one piece: the time of day, and the year, month and day of
the month of the day `t / SPD`. -/
theorem gmtime_r_spec {t : ℤ} (h0 : 0 ≤ t) (h1 : t < before2100) (dst : ℤ) :
    (gmtime_r dst t).Calendar ∧
    (gmtime_r dst t).tm_sec = t % 60 ∧
    (gmtime_r dst t).tm_min = t / 60 % 60 ∧
    (gmtime_r dst t).tm_hour = t / 3600 % 24 ∧
    daysBefore ((gmtime_r dst t).tm_year + 1900) + (spm (gmtime_r dst t).tm_mon.toNat +
      (gmtime_r dst t).tm_mday - 1 + (if isleap ((gmtime_r dst t).tm_year + 1900) ∧
        (gmtime_r dst t).tm_mon > 1 then 1 else 0)) = t / 86400 := by
  have hd : t.tdiv SPD = t / SPD := Int.tdiv_eq_ediv_of_nonneg h0
  rcases hp : passYears ((toInt32 (t / SPD)).toNat / 365 + 1) 1970 (toInt32 (t / SPD)) with ⟨y, w⟩
  obtain ⟨hy0, hy1, hw0, hw1, hdays⟩ := passYears_days (by simp only [SPD]; omega)
    (by simp only [SPD, before2100] at h1 ⊢; omega) hp
  -- the month loop is searched once for every day of a common and of a leap year
  obtain ⟨w, rfl⟩ := Int.eq_ofNat_of_zero_le hw0
  have hm := findMonth_spec (isleap y) w (by
    unfold yearDays at hw1
    split at hw1 <;> simp_all)
  have hsod : t.tmod SPD = t % SPD := Int.tmod_eq_emod_of_nonneg h0
  have hge : 0 ≤ t % SPD := Int.emod_nonneg _ (by decide)
  simp only [gmtime_r, hd, hp, hsod, Int.tmod_eq_emod_of_nonneg hge,
    Int.tdiv_eq_ediv_of_nonneg hge]
  rw [Int.tmod_eq_emod_of_nonneg (by omega), Int.tdiv_eq_ediv_of_nonneg (by omega)]
  simp only [SPD] at hdays ⊢
  obtain ⟨hm0, hm1, hm2, hm3⟩ := hm
  refine ⟨⟨?_, ?_, ?_, ?_, ?_, ?_⟩, ?_, ?_, ?_, ?_⟩
  · dsimp only
    omega
  · dsimp only
    omega
  · dsimp only
    omega
  · exact ⟨hm1, hm2⟩
  · dsimp only
    omega
  · dsimp only
    omega
  · omega
  · omega
  · omega
  · rw [show y - 1900 + 1900 = y by omega, Int.toNat_natCast]
    have hcast : ((findMonth (leapAdjust (isleap y) w).1 11 : ℤ) > 1) ↔
        findMonth (leapAdjust (isleap y) w).1 11 > 1 := by omega
    rw [if_congr (and_congr_right fun _ => hcast) rfl rfl, hm3]
    omega

/-- No carry is made of the fields of a calendar date. -/
theorem carry_calendar {t : tm} (h : t.Calendar) : carry t = t := by
  have hs : ¬ t.tm_sec > 60 := by have := h.sec; omega
  have hm : ¬ t.tm_min ≥ 60 := by have := h.min; omega
  have hh : ¬ t.tm_hour ≥ 24 := by have := h.hour; omega
  have hmon : ¬ t.tm_mon ≥ 12 := by have := h.mon; omega
  simp only [carry, hs, hm, hh, hmon, if_false]

/-- The day of a month never passes the table's entry for the month's end. -/
theorem carryDays_calendar {t : tm} (h : t.Calendar) (n : ℕ) : carryDays n t = t := by
  obtain ⟨-, -, -, hd, hmon, -⟩ := h
  have hspm : t.tm_mday ≤ spm (1 + t.tm_mon).toNat := by
    have : ∀ k : ℕ, k ≤ 11 → 31 ≤ spm (1 + k) := by decide
    have := this t.tm_mon.toNat (by omega)
    rw [show (1 + t.tm_mon).toNat = 1 + t.tm_mon.toNat by omega]
    omega
  cases n with
  | zero => rfl
  | succ n =>
    unfold carryDays
    rw [if_neg (by omega)]

/-- `timegm` on a calendar date before 2101. -/
theorem timegm_calendar {t : tm} (h : t.Calendar) :
    (timegm t).1 = ((((daysBefore (t.tm_year + 1900) + (spm t.tm_mon.toNat + t.tm_mday - 1 +
      (if isleap (t.tm_year + 1900) ∧ t.tm_mon > 1 then 1 else 0))) * 24 + t.tm_hour) * 60 +
        t.tm_min) * 60 + t.tm_sec) := by
  have hy := h.year
  simp only [timegm, carry_calendar h, carryDays_calendar h]
  rw [if_neg (by omega), centuryDays, if_neg (by omega), Int.tdiv_eq_ediv_of_nonneg (by omega)]
  simp only [daysBefore]
  rw [show t.tm_year + 1900 - 1969 = t.tm_year - 70 + 1 by omega]
  ring

/-- **`timegm` is the inverse of `gmtime_r`** up to 2100, whatever the fields it does not read
hold. -/
theorem timegm_gmtime_r {t : ℤ} (h0 : 0 ≤ t) (h1 : t < before2100) (dst : ℤ) {f : tm}
    (hs : f.tm_sec = (gmtime_r dst t).tm_sec) (hm : f.tm_min = (gmtime_r dst t).tm_min)
    (hh : f.tm_hour = (gmtime_r dst t).tm_hour) (hd : f.tm_mday = (gmtime_r dst t).tm_mday)
    (hmon : f.tm_mon = (gmtime_r dst t).tm_mon) (hy : f.tm_year = (gmtime_r dst t).tm_year) :
    (timegm f).1 = t := by
  obtain ⟨hc, hsec, hmin, hhour, hdays⟩ := gmtime_r_spec h0 h1 dst
  have hf : f.Calendar :=
    { sec := hs ▸ hc.sec, min := hm ▸ hc.min, hour := hh ▸ hc.hour, mday := hd ▸ hc.mday
      mon := hmon ▸ hc.mon, year := hy ▸ hc.year }
  have hmins : t / 3600 = t / 60 / 60 := by omega
  have hday : t / 86400 = t / 60 / 60 / 24 := by omega
  rw [timegm_calendar hf, hs, hm, hh, hd, hmon, hy, hdays, hsec, hmin, hhour, hday, hmins]
  omega

end Rtc
