/-
The real-time clock: the register functions of `nu_rtc.c` and the device control of `drv_rtc.c`.

Dates and times stand in the registers as decimal digits, each in a field of its own; the hour
is kept in one of two formats, which a bit of `CLKFMT` selects for the clock and the alarm
together.  The structure `S_RTC_TIME_DATA_T` that carries the values lives on the caller's
stack, so every function here takes the whole of it, with what the caller did not set:

* **`readField_calDigits`**, **`readField_timeDigits`** — what is programmed is read back;
* **`nu_rtc_control`** — the four requests of the device.
-/
import NuMaker.Lib.Digits
import NuMaker.Rtc.Calendar

namespace Rtc

/-! ### Registers and data -/

/-- The registers of the clock that the driver touches. -/
structure Regs where
  CLKFMT : BitVec 32
  WEEKDAY : BitVec 32
  CAL : BitVec 32
  TIME : BitVec 32
  CALM : BitVec 32
  TALM : BitVec 32
  CAMSK : BitVec 32
deriving DecidableEq, Repr

/-- `S_RTC_TIME_DATA_T`. -/
structure S_RTC_TIME_DATA_T where
  u32Year : BitVec 32
  u32Month : BitVec 32
  u32Day : BitVec 32
  u32DayOfWeek : BitVec 32
  u32Hour : BitVec 32
  u32Minute : BitVec 32
  u32Second : BitVec 32
  u32TimeScale : BitVec 32
  u32AmPm : BitVec 32
deriving DecidableEq, Repr

/-- `struct rt_rtc_wkalarm`. -/
structure rt_rtc_wkalarm where
  enable : Bool
  tm_sec : BitVec 32
  tm_min : BitVec 32
  tm_hour : BitVec 32
deriving DecidableEq, Repr

def RTC_CLOCK_12 : BitVec 32 := 0
def RTC_CLOCK_24 : BitVec 32 := 1
def RTC_AM : BitVec 32 := 1
def RTC_PM : BitVec 32 := 2
def RTC_YEAR2000 : BitVec 32 := 2000

/-- `RTC_CLKFMT_24HEN_Msk`. -/
def CLKFMT_24HEN_Msk : BitVec 32 := 1

/-- `RTC_WEEKDAY_WEEKDAY_Msk`. -/
def WEEKDAY_Msk : BitVec 32 := 7

/-! ### Programming -/

/-- The digits of a date: `CAL` and `CALM` have the same fields. -/
def calDigits (s : S_RTC_TIME_DATA_T) : List (Digit 32) :=
  [⟨(s.u32Year - RTC_YEAR2000) / 10, 20, 4⟩, ⟨(s.u32Year - RTC_YEAR2000) % 10, 16, 4⟩,
   ⟨s.u32Month / 10, 12, 1⟩, ⟨s.u32Month % 10, 8, 4⟩,
   ⟨s.u32Day / 10, 4, 2⟩, ⟨s.u32Day % 10, 0, 4⟩]

/-- The digits of a time: `TIME` and `TALM` have the same fields. -/
def timeDigits (s : S_RTC_TIME_DATA_T) : List (Digit 32) :=
  [⟨s.u32Hour / 10, 20, 2⟩, ⟨s.u32Hour % 10, 16, 4⟩,
   ⟨s.u32Minute / 10, 12, 3⟩, ⟨s.u32Minute % 10, 8, 4⟩,
   ⟨s.u32Second / 10, 4, 3⟩, ⟨s.u32Second % 10, 0, 4⟩]

/-- The clock format both setters select first, and the hour they go on with: 21 up to 32 stand
for the afternoon in the 12-hour format. -/
def setClockFormat (r : Regs) (s : S_RTC_TIME_DATA_T) : Regs × S_RTC_TIME_DATA_T :=
  if s.u32TimeScale = RTC_CLOCK_12 then
    ({ r with CLKFMT := r.CLKFMT &&& ~~~CLKFMT_24HEN_Msk },
      if s.u32AmPm = RTC_PM then { s with u32Hour := s.u32Hour + 20 } else s)
  else ({ r with CLKFMT := r.CLKFMT ||| CLKFMT_24HEN_Msk }, s)

/-- `RTC_SetDateAndTime`. -/
def RTC_SetDateAndTime (r : Regs) (s : S_RTC_TIME_DATA_T) : Regs :=
  let (r, s) := setClockFormat r s
  { r with
    WEEKDAY := s.u32DayOfWeek
    CAL := packDigits (calDigits s)
    TIME := packDigits (timeDigits s) }

/-- `RTC_SetAlarmDateAndTime`. -/
def RTC_SetAlarmDateAndTime (r : Regs) (s : S_RTC_TIME_DATA_T) : Regs :=
  let (r, s) := setClockFormat r s
  { r with CALM := packDigits (calDigits s), TALM := packDigits (timeDigits s) }

/-- `RTC_SetAlarmDateMask`. -/
def RTC_SetAlarmDateMask (r : Regs) (tenY y tenM m tenD d : BitVec 8) : Regs :=
  { r with
    CAMSK := (tenY.setWidth 32 <<< 5) ||| (y.setWidth 32 <<< 4) ||| (tenM.setWidth 32 <<< 3) |||
      (m.setWidth 32 <<< 2) ||| (tenD.setWidth 32 <<< 1) ||| d.setWidth 32 }

/-! ### Reading -/

/-- A two-digit number read from its tens and units. -/
def readTwo (reg : BitVec 32) (hiPos hiLen loPos : ℕ) : BitVec 32 :=
  readField reg hiPos hiLen * 10 + readField reg loPos 4

/-- What both getters do with a date and a time register: the digits, and in the 12-hour format
the afternoon taken off the hour. -/
def readDateAndTime (r : Regs) (cal time : BitVec 32) (s : S_RTC_TIME_DATA_T) :
    S_RTC_TIME_DATA_T :=
  let s := { s with
    u32TimeScale := r.CLKFMT &&& CLKFMT_24HEN_Msk
    u32DayOfWeek := r.WEEKDAY &&& WEEKDAY_Msk
    u32Year := readTwo cal 20 4 16 + RTC_YEAR2000
    u32Month := readTwo cal 12 1 8
    u32Day := readTwo cal 4 2 0
    u32Hour := readTwo time 20 2 16
    u32Minute := readTwo time 12 3 8
    u32Second := readTwo time 4 3 0 }
  if s.u32TimeScale = RTC_CLOCK_12 then
    if 21#32 ≤ s.u32Hour then { s with u32AmPm := RTC_PM, u32Hour := s.u32Hour - 20 }
    else { s with u32AmPm := RTC_AM }
  else s

/-- `RTC_GetDateAndTime`, into the structure the caller passes. -/
def RTC_GetDateAndTime (r : Regs) (s : S_RTC_TIME_DATA_T) : S_RTC_TIME_DATA_T :=
  readDateAndTime r r.CAL r.TIME s

/-- `RTC_GetAlarmDateAndTime`. -/
def RTC_GetAlarmDateAndTime (r : Regs) (s : S_RTC_TIME_DATA_T) : S_RTC_TIME_DATA_T :=
  readDateAndTime r r.CALM r.TALM s

/-! ### The device -/

def RT_EOK : ℤ := 0
def RT_ERROR : ℤ := 1
def RT_EINVAL : ℤ := 10

/-- `RTC_TM_UPPER_BOUND`. -/
def tm_upper : tm :=
  { tm_sec := 7, tm_min := 14, tm_hour := 3, tm_mday := 19, tm_mon := 1 - 1
    tm_year := 2038 - 1900, tm_wday := 0, tm_yday := 0, tm_isdst := 0 }

/-- `RTC_TM_LOWER_BOUND`. -/
def tm_lower : tm :=
  { tm_sec := 0, tm_min := 0, tm_hour := 0, tm_mday := 1, tm_mon := 1 - 1
    tm_year := 2000 - 1900, tm_wday := 0, tm_yday := 0, tm_isdst := 0 }

/-- `nu_rtc_is_date_valid`. -/
def nu_rtc_is_date_valid (t : ℤ) : ℤ :=
  if t > (timegm tm_upper).1 ∨ t < (timegm tm_lower).1 then -RT_EINVAL else RT_EOK

/-- A request to the device, with what its argument points to. -/
inductive Cmd
  | RTC_GET_TIME (time : ℤ)
  | RTC_SET_TIME (time : ℤ)
  | RTC_GET_ALARM (wkalarm : rt_rtc_wkalarm)
  | RTC_SET_ALARM (wkalarm : rt_rtc_wkalarm)
  | other
deriving DecidableEq, Repr

/-- What the stack holds where `nu_rtc_control` puts its locals, and the time zone's setting. -/
structure Frame where
  tm_out : tm
  hw_time : S_RTC_TIME_DATA_T
  hw_alarm : S_RTC_TIME_DATA_T
  tz_is_dst : ℤ
deriving DecidableEq, Repr

/-- What a request returns and leaves: its code, the registers, and its argument. -/
structure Reply where
  ret : ℤ
  regs : Regs
  args : Cmd
deriving DecidableEq, Repr

/-- The fields of a `struct tm` in the registers' terms. -/
def ofTm (f : tm) (s : S_RTC_TIME_DATA_T) : S_RTC_TIME_DATA_T :=
  { s with
    u32Year := BitVec.ofInt 32 (f.tm_year + 1900)
    u32Month := BitVec.ofInt 32 (f.tm_mon + 1)
    u32Day := BitVec.ofInt 32 f.tm_mday
    u32Hour := BitVec.ofInt 32 f.tm_hour
    u32Minute := BitVec.ofInt 32 f.tm_min
    u32Second := BitVec.ofInt 32 f.tm_sec
    u32TimeScale := RTC_CLOCK_24
    u32AmPm := 0 }

/-- The fields of a time that was read, as a `struct tm`. -/
def toTm (s : S_RTC_TIME_DATA_T) (f : tm) : tm :=
  { f with
    tm_year := (s.u32Year - 1900#32).toInt
    tm_mon := (s.u32Month - 1#32).toInt
    tm_mday := s.u32Day.toInt
    tm_hour := s.u32Hour.toInt
    tm_min := s.u32Minute.toInt
    tm_sec := s.u32Second.toInt }

/-- `nu_rtc_control`, for a device and an argument that may be null. -/
def nu_rtc_control (fr : Frame) (r : Regs) (devNull argsNull : Bool) (cmd : Cmd) : Reply :=
  if devNull ∨ argsNull then { ret := -RT_EINVAL, regs := r, args := cmd }
  else
    match cmd with
    | .RTC_GET_TIME _ =>
      { ret := RT_EOK, regs := r
        args := .RTC_GET_TIME (timegm (toTm (RTC_GetDateAndTime r fr.hw_time) fr.tm_out)).1 }
    | .RTC_SET_TIME time =>
      if nu_rtc_is_date_valid time ≠ RT_EOK then { ret := -RT_ERROR, regs := r, args := cmd }
      else
        { ret := RT_EOK
          regs := RTC_SetDateAndTime r (ofTm (gmtime_r fr.tz_is_dst time) fr.hw_time)
          args := cmd }
    | .RTC_GET_ALARM a =>
      let s := RTC_GetAlarmDateAndTime r fr.hw_alarm
      { ret := RT_EOK, regs := r
        args := .RTC_GET_ALARM
          { a with tm_hour := s.u32Hour, tm_min := s.u32Minute, tm_sec := s.u32Second } }
    | .RTC_SET_ALARM a =>
      -- only the wall time is set: the date, the format and the half of the day are the stack's
      let s := { fr.hw_alarm with
        u32Hour := a.tm_hour, u32Minute := a.tm_min, u32Second := a.tm_sec }
      { ret := RT_EOK
        regs := RTC_SetAlarmDateAndTime (RTC_SetAlarmDateMask r 1 1 1 1 1 1) s
        args := cmd }
    | .other => { ret := -RT_EINVAL, regs := r, args := cmd }

/-- `RT_DEVICE_CTRL_RTC_GET_TIME` on a device and an argument that are there. -/
def getTime (fr : Frame) (r : Regs) : ℤ :=
  match (nu_rtc_control fr r false false (.RTC_GET_TIME 0)).args with
  | .RTC_GET_TIME t => t
  | _ => 0

/-! ### What was programmed is read back -/

/-- A number below a hundred in two fields. -/
theorem two_digits_valid {v : BitVec 32} {hiLen k : ℕ} (hv : v.toNat < 10 * k) (hk : k ≤ 10)
    (hl : k ≤ 2 ^ hiLen) {hiPos loPos : ℕ} (hh : hiPos + hiLen ≤ 32) (hlo : loPos + 4 ≤ 32) :
    (⟨v / 10, hiPos, hiLen⟩ : Digit 32).Valid ∧ (⟨v % 10, loPos, 4⟩ : Digit 32).Valid := by
  have hhi : (v / 10).toNat = v.toNat / 10 := by simp
  have hlo' : (v % 10).toNat = v.toNat % 10 := by simp
  refine ⟨⟨?_, ?_, hh⟩, ⟨?_, ?_, hlo⟩⟩
  · show (v / 10).toNat ≤ 9
    omega
  · show (v / 10).toNat < 2 ^ hiLen
    omega
  · show (v % 10).toNat ≤ 9
    omega
  · show (v % 10).toNat < 2 ^ 4
    omega

/-- A calendar date of this century. -/
structure DateOk (s : S_RTC_TIME_DATA_T) : Prop where
  year : (s.u32Year - RTC_YEAR2000).toNat < 100
  month : s.u32Month.toNat < 20
  day : s.u32Day.toNat < 40

/-- A time whose hour may be one of the 12-hour format. -/
structure TimeOk (s : S_RTC_TIME_DATA_T) : Prop where
  hour : s.u32Hour.toNat < 40
  minute : s.u32Minute.toNat < 80
  second : s.u32Second.toNat < 80

theorem calDigits_apart (s : S_RTC_TIME_DATA_T) : (calDigits s).Pairwise Digit.Apart := by
  simp [calDigits, Digit.Apart]

theorem timeDigits_apart (s : S_RTC_TIME_DATA_T) : (timeDigits s).Pairwise Digit.Apart := by
  simp [timeDigits, Digit.Apart]

/-- **The digits of a date are valid exactly when its numbers fit their fields.** -/
theorem calDigits_valid_iff (s : S_RTC_TIME_DATA_T) :
    (∀ d ∈ calDigits s, d.Valid) ↔ DateOk s := by
  constructor
  · intro h
    have hy := (h ⟨(s.u32Year - RTC_YEAR2000) / 10, 20, 4⟩ (by simp [calDigits])).decimal
    have hm := (h ⟨s.u32Month / 10, 12, 1⟩ (by simp [calDigits])).fits
    have hd := (h ⟨s.u32Day / 10, 4, 2⟩ (by simp [calDigits])).fits
    simp only [BitVec.toNat_udiv, BitVec.reduceToNat] at hy hm hd
    exact ⟨by omega, by omega, by omega⟩
  · rintro ⟨hy, hm, hd⟩
    obtain ⟨h1, h2⟩ := @two_digits_valid _ 4 10 hy (by omega) (by omega) _ _
      (by omega : 20 + 4 ≤ 32) (by omega : 16 + 4 ≤ 32)
    obtain ⟨h3, h4⟩ := @two_digits_valid _ 1 2 hm (by omega) (by omega) _ _
      (by omega : 12 + 1 ≤ 32) (by omega : 8 + 4 ≤ 32)
    obtain ⟨h5, h6⟩ := @two_digits_valid _ 2 4 hd (by omega) (by omega) _ _
      (by omega : 4 + 2 ≤ 32) (by omega : 0 + 4 ≤ 32)
    simp only [calDigits, List.forall_mem_cons]
    exact ⟨h1, h2, h3, h4, h5, h6, by simp⟩

/-- The digits of a time are valid exactly when its numbers fit their fields. -/
theorem timeDigits_valid_iff (s : S_RTC_TIME_DATA_T) :
    (∀ d ∈ timeDigits s, d.Valid) ↔ TimeOk s := by
  constructor
  · intro h
    have hh := (h ⟨s.u32Hour / 10, 20, 2⟩ (by simp [timeDigits])).fits
    have hm := (h ⟨s.u32Minute / 10, 12, 3⟩ (by simp [timeDigits])).fits
    have hs := (h ⟨s.u32Second / 10, 4, 3⟩ (by simp [timeDigits])).fits
    simp only [BitVec.toNat_udiv, BitVec.reduceToNat] at hh hm hs
    exact ⟨by omega, by omega, by omega⟩
  · rintro ⟨hh, hm, hs⟩
    obtain ⟨h1, h2⟩ := @two_digits_valid _ 2 4 hh (by omega) (by omega) _ _
      (by omega : 20 + 2 ≤ 32) (by omega : 16 + 4 ≤ 32)
    obtain ⟨h3, h4⟩ := @two_digits_valid _ 3 8 hm (by omega) (by omega) _ _
      (by omega : 12 + 3 ≤ 32) (by omega : 8 + 4 ≤ 32)
    obtain ⟨h5, h6⟩ := @two_digits_valid _ 3 8 hs (by omega) (by omega) _ _
      (by omega : 4 + 3 ≤ 32) (by omega : 0 + 4 ≤ 32)
    simp only [timeDigits, List.forall_mem_cons]
    exact ⟨h1, h2, h3, h4, h5, h6, by simp⟩

/-- **A date is read back** from the register it was packed into. -/
theorem readTwo_calDigits {s : S_RTC_TIME_DATA_T} (h : DateOk s) :
    readTwo (packDigits (calDigits s)) 20 4 16 + RTC_YEAR2000 = s.u32Year ∧
    readTwo (packDigits (calDigits s)) 12 1 8 = s.u32Month ∧
    readTwo (packDigits (calDigits s)) 4 2 0 = s.u32Day := by
  have hr := fun d hd => readField_packDigits ((calDigits_valid_iff s).2 h) (calDigits_apart s)
    (d := d) hd
  have hy := hr ⟨(s.u32Year - RTC_YEAR2000) / 10, 20, 4⟩ (by simp [calDigits])
  have hy' := hr ⟨(s.u32Year - RTC_YEAR2000) % 10, 16, 4⟩ (by simp [calDigits])
  have hm := hr ⟨s.u32Month / 10, 12, 1⟩ (by simp [calDigits])
  have hm' := hr ⟨s.u32Month % 10, 8, 4⟩ (by simp [calDigits])
  have hd := hr ⟨s.u32Day / 10, 4, 2⟩ (by simp [calDigits])
  have hd' := hr ⟨s.u32Day % 10, 0, 4⟩ (by simp [calDigits])
  dsimp only at hy hy' hm hm' hd hd'
  simp only [readTwo, hy, hy', hm, hm', hd, hd']
  refine ⟨?_, tens_units _, tens_units _⟩
  rw [show ∀ v : BitVec 32, v / 10 * 10 + v % 10 = v from tens_units]
  exact BitVec.sub_add_cancel _ _

/-- A time is read back from the register it was packed into. -/
theorem readTwo_timeDigits {s : S_RTC_TIME_DATA_T} (h : TimeOk s) :
    readTwo (packDigits (timeDigits s)) 20 2 16 = s.u32Hour ∧
    readTwo (packDigits (timeDigits s)) 12 3 8 = s.u32Minute ∧
    readTwo (packDigits (timeDigits s)) 4 3 0 = s.u32Second := by
  have hr := fun d hd => readField_packDigits ((timeDigits_valid_iff s).2 h) (timeDigits_apart s)
    (d := d) hd
  have hh := hr ⟨s.u32Hour / 10, 20, 2⟩ (by simp [timeDigits])
  have hh' := hr ⟨s.u32Hour % 10, 16, 4⟩ (by simp [timeDigits])
  have hm := hr ⟨s.u32Minute / 10, 12, 3⟩ (by simp [timeDigits])
  have hm' := hr ⟨s.u32Minute % 10, 8, 4⟩ (by simp [timeDigits])
  have hs := hr ⟨s.u32Second / 10, 4, 3⟩ (by simp [timeDigits])
  have hs' := hr ⟨s.u32Second % 10, 0, 4⟩ (by simp [timeDigits])
  dsimp only at hh hh' hm hm' hs hs'
  simp only [readTwo, hh, hh', hm, hm', hs, hs']
  exact ⟨tens_units _, tens_units _, tens_units _⟩

end Rtc
