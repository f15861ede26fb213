/-
What is set is what is got: the time and the alarm of the real-time clock.

* **`time_round_trip`** — a time in the accepted range is read back as it was set, from either
  clock format; any other time is refused and changes nothing;
* **`alarm_round_trip_iff`** — the alarm comes back and the clock is left alone exactly when the
  fields the driver leaves to the stack happen to hold a date, and the format the clock is in.
-/
import NuMaker.Rtc.Driver

namespace Rtc

/-! ### The time -/

/-- The bounds of the driver are 2000-01-01 00:00:00 and the last second of a 32-bit count. -/
theorem nu_rtc_is_date_valid_iff (t : ℤ) :
    nu_rtc_is_date_valid t = RT_EOK ↔ 946684800 ≤ t ∧ t ≤ 2147483647 := by
  have hu : (timegm tm_upper).1 = 2147483647 := by decide
  have hl : (timegm tm_lower).1 = 946684800 := by decide
  unfold nu_rtc_is_date_valid
  rw [hu, hl]
  split
  · refine ⟨fun h => absurd h (by decide), fun h => by omega⟩
  · exact ⟨fun _ => by omega, fun _ => rfl⟩

/-- A small number goes through an unsigned word unchanged. -/
theorem toNat_ofInt_of_lt {v : ℤ} {k : ℕ} (h0 : 0 ≤ v) (h1 : v < k) (hk : k ≤ 2 ^ 31) :
    (BitVec.ofInt 32 v).toNat = v.toNat ∧ (BitVec.ofInt 32 v).toInt = v := by
  have ht : (BitVec.ofInt 32 v).toInt = v := by
    rw [BitVec.toInt_ofInt]
    exact Int.bmod_eq_of_le (by omega) (by omega)
  refine ⟨?_, ht⟩
  rw [BitVec.toNat_ofInt]
  omega

/-- The year of an accepted time is one of this century. -/
theorem gmtime_r_year {t : ℤ} (h0 : 946684800 ≤ t) (h1 : t ≤ 2147483647) (dst : ℤ) :
    100 ≤ (gmtime_r dst t).tm_year ∧ (gmtime_r dst t).tm_year < 200 := by
  obtain ⟨hc, -, -, -, hd⟩ := gmtime_r_spec (t := t) (by omega)
    (by simp only [before2100]; omega) dst
  have hy := hc.year
  have hmd := hc.mday
  have hs : ∀ k : ℕ, k ≤ 11 → spm k ≤ 334 := by decide
  have hsp := hs (gmtime_r dst t).tm_mon.toNat (by have := hc.mon; omega)
  refine ⟨?_, hy.2⟩
  -- before 2000 the last leap year is 1996, and its last day is in it
  rw [isleap_eq (by omega) (by omega)] at hd
  simp only [daysBefore, decide_eq_true_eq] at hd
  split at hd <;> omega

/-- What an accepted time makes of the registers' numbers. -/
theorem ofTm_ok {t : ℤ} (h0 : 946684800 ≤ t) (h1 : t ≤ 2147483647) (dst : ℤ)
    (s : S_RTC_TIME_DATA_T) :
    DateOk (ofTm (gmtime_r dst t) s) ∧ TimeOk (ofTm (gmtime_r dst t) s) := by
  obtain ⟨hc, -⟩ := gmtime_r_spec (t := t) (by omega) (by simp only [before2100]; omega) dst
  have hyear := gmtime_r_year h0 h1 dst
  refine ⟨⟨?_, ?_, ?_⟩, ⟨?_, ?_, ?_⟩⟩
  · have hy := toNat_ofInt_of_lt (v := (gmtime_r dst t).tm_year + 1900) (k := 2100) (by omega)
      (by omega) (by norm_num)
    simp only [ofTm, RTC_YEAR2000]
    rw [BitVec.toNat_sub, hy.1]
    simp only [BitVec.reduceToNat]
    omega
  · have := hc.mon
    have hm := toNat_ofInt_of_lt (v := (gmtime_r dst t).tm_mon + 1) (k := 20) (by omega)
      (by omega) (by norm_num)
    simp only [ofTm, hm.1]
    omega
  · have := hc.mday
    have hm := toNat_ofInt_of_lt (v := (gmtime_r dst t).tm_mday) (k := 40) (by omega)
      (by omega) (by norm_num)
    simp only [ofTm, hm.1]
    omega
  · have := hc.hour
    have hm := toNat_ofInt_of_lt (v := (gmtime_r dst t).tm_hour) (k := 40) (by omega)
      (by omega) (by norm_num)
    simp only [ofTm, hm.1]
    omega
  · have := hc.min
    have hm := toNat_ofInt_of_lt (v := (gmtime_r dst t).tm_min) (k := 80) (by omega)
      (by omega) (by norm_num)
    simp only [ofTm, hm.1]
    omega
  · have := hc.sec
    have hm := toNat_ofInt_of_lt (v := (gmtime_r dst t).tm_sec) (k := 80) (by omega)
      (by omega) (by norm_num)
    simp only [ofTm, hm.1]
    omega

/-- In the 24-hour format the getters return the numbers the registers were packed from. -/
theorem readDateAndTime_24 {r : Regs} (hr : r.CLKFMT &&& CLKFMT_24HEN_Msk ≠ RTC_CLOCK_12)
    {s : S_RTC_TIME_DATA_T} (hd : DateOk s) (ht : TimeOk s) (s' : S_RTC_TIME_DATA_T) :
    readDateAndTime r (packDigits (calDigits s)) (packDigits (timeDigits s)) s' =
      { s' with
        u32TimeScale := r.CLKFMT &&& CLKFMT_24HEN_Msk
        u32DayOfWeek := r.WEEKDAY &&& WEEKDAY_Msk
        u32Year := s.u32Year, u32Month := s.u32Month, u32Day := s.u32Day
        u32Hour := s.u32Hour, u32Minute := s.u32Minute, u32Second := s.u32Second } := by
  obtain ⟨hy, hm, hdd⟩ := readTwo_calDigits hd
  obtain ⟨hh, hmi, hs⟩ := readTwo_timeDigits ht
  simp only [readDateAndTime, hy, hm, hdd, hh, hmi, hs, if_neg hr]

/-- Setting the 24-hour bit leaves it set. -/
theorem clkfmt_24 (x : BitVec 32) :
    (x ||| CLKFMT_24HEN_Msk) &&& CLKFMT_24HEN_Msk ≠ RTC_CLOCK_12 := by
  intro h
  have := congrArg (·.getLsbD 0) h
  simp [CLKFMT_24HEN_Msk, RTC_CLOCK_12] at this

/-- The fields of an accepted time go through the registers' words and back. -/
theorem toTm_ofTm {t : ℤ} (h0 : 946684800 ≤ t) (h1 : t ≤ 2147483647) (dst : ℤ)
    {s s' : S_RTC_TIME_DATA_T} {f : tm}
    (hy : s'.u32Year = (ofTm (gmtime_r dst t) s).u32Year)
    (hm : s'.u32Month = (ofTm (gmtime_r dst t) s).u32Month)
    (hd : s'.u32Day = (ofTm (gmtime_r dst t) s).u32Day)
    (hh : s'.u32Hour = (ofTm (gmtime_r dst t) s).u32Hour)
    (hmi : s'.u32Minute = (ofTm (gmtime_r dst t) s).u32Minute)
    (hs : s'.u32Second = (ofTm (gmtime_r dst t) s).u32Second) :
    (timegm (toTm s' f)).1 = t := by
  obtain ⟨hc, -⟩ := gmtime_r_spec (t := t) (by omega) (by simp only [before2100]; omega) dst
  have hyear := gmtime_r_year h0 h1 dst
  refine timegm_gmtime_r (by omega) (by simp only [before2100]; omega) dst ?_ ?_ ?_ ?_ ?_ ?_
  · have := hc.sec
    simp only [toTm, hs, ofTm]
    exact (toNat_ofInt_of_lt (k := 80) (by omega) (by omega) (by norm_num)).2
  · have := hc.min
    simp only [toTm, hmi, ofTm]
    exact (toNat_ofInt_of_lt (k := 80) (by omega) (by omega) (by norm_num)).2
  · have := hc.hour
    simp only [toTm, hh, ofTm]
    exact (toNat_ofInt_of_lt (k := 40) (by omega) (by omega) (by norm_num)).2
  · have := hc.mday
    simp only [toTm, hd, ofTm]
    exact (toNat_ofInt_of_lt (k := 40) (by omega) (by omega) (by norm_num)).2
  · have := hc.mon
    simp only [toTm, hm, ofTm, BitVec.ofInt_add]
    rw [show BitVec.ofInt 32 1 = 1#32 from rfl, BitVec.add_sub_cancel]
    exact (toNat_ofInt_of_lt (k := 20) (by omega) (by omega) (by norm_num)).2
  · simp only [toTm, hy, ofTm, BitVec.ofInt_add]
    rw [show BitVec.ofInt 32 1900 = 1900#32 from rfl, BitVec.add_sub_cancel]
    exact (toNat_ofInt_of_lt (k := 2100) (by omega) (by omega) (by norm_num)).2

/-- **The time round-trips.**  A time in the range is programmed in valid digits and read back,
whatever the format register and the two stacks held; another is refused with the registers as
they were. -/
theorem time_round_trip (fr fr' : Frame) (r : Regs) (t : ℤ) :
    if 946684800 ≤ t ∧ t ≤ 2147483647 then
      ∃ r' : Regs, ∃ s : S_RTC_TIME_DATA_T,
        nu_rtc_control fr r false false (.RTC_SET_TIME t) =
          { ret := RT_EOK, regs := r', args := .RTC_SET_TIME t } ∧
        (∀ x, nu_rtc_control fr' r' false false (.RTC_GET_TIME x) =
          { ret := RT_EOK, regs := r', args := .RTC_GET_TIME t }) ∧
        r'.CAL = packDigits (calDigits s) ∧ r'.TIME = packDigits (timeDigits s) ∧
        (∀ d ∈ calDigits s, d.Valid) ∧ (∀ d ∈ timeDigits s, d.Valid)
    else
      nu_rtc_control fr r false false (.RTC_SET_TIME t) =
        { ret := -RT_ERROR, regs := r, args := .RTC_SET_TIME t } := by
  split
  · rename_i h
    obtain ⟨hd, ht⟩ := ofTm_ok h.1 h.2 fr.tz_is_dst fr.hw_time
    have hv := (nu_rtc_is_date_valid_iff t).2 h
    refine ⟨RTC_SetDateAndTime r (ofTm (gmtime_r fr.tz_is_dst t) fr.hw_time),
      ofTm (gmtime_r fr.tz_is_dst t) fr.hw_time, ?_, fun x => ?_, rfl, rfl,
      (calDigits_valid_iff _).2 hd, (timeDigits_valid_iff _).2 ht⟩
    · simp [nu_rtc_control, hv]
    · have hread := readDateAndTime_24
        (r := RTC_SetDateAndTime r (ofTm (gmtime_r fr.tz_is_dst t) fr.hw_time))
        (clkfmt_24 r.CLKFMT) hd ht fr'.hw_time
      have hback := @toTm_ofTm t h.1 h.2 fr.tz_is_dst fr.hw_time
        (RTC_GetDateAndTime
          (RTC_SetDateAndTime r (ofTm (gmtime_r fr.tz_is_dst t) fr.hw_time)) fr'.hw_time)
        fr'.tm_out (congrArg (·.u32Year) hread) (congrArg (·.u32Month) hread)
        (congrArg (·.u32Day) hread) (congrArg (·.u32Hour) hread)
        (congrArg (·.u32Minute) hread) (congrArg (·.u32Second) hread)
      simp only [nu_rtc_control, Bool.false_eq_true, or_self, if_false, hback]
  · rename_i h
    have hv : nu_rtc_is_date_valid t ≠ RT_EOK := fun hv => h ((nu_rtc_is_date_valid_iff t).1 hv)
    simp [nu_rtc_control, hv]

/-! ### The alarm -/

/-- A wall time. -/
structure rt_rtc_wkalarm.Valid (a : rt_rtc_wkalarm) : Prop where
  hour : a.tm_hour.toNat < 24
  min : a.tm_min.toNat < 60
  sec : a.tm_sec.toNat < 60

/-- The structure `RT_DEVICE_CTRL_RTC_SET_ALARM` hands down: the alarm's wall time over what the
stack held. -/
def alarmData (fr : Frame) (a : rt_rtc_wkalarm) : S_RTC_TIME_DATA_T :=
  { fr.hw_alarm with u32Hour := a.tm_hour, u32Minute := a.tm_min, u32Second := a.tm_sec }

/-- The registers `RT_DEVICE_CTRL_RTC_SET_ALARM` leaves. -/
def setAlarm (fr : Frame) (r : Regs) (a : rt_rtc_wkalarm) : Regs :=
  (nu_rtc_control fr r false false (.RTC_SET_ALARM a)).regs

/-- What setting an alarm owes: the wall time comes back, valid digits are programmed, and the
clock shows the time it showed, in the format it was in. -/
structure AlarmKept (fr : Frame) (r : Regs) (a : rt_rtc_wkalarm) : Prop where
  accepted : (nu_rtc_control fr r false false (.RTC_SET_ALARM a)).ret = RT_EOK
  back : ∀ fr' a', nu_rtc_control fr' (setAlarm fr r a) false false (.RTC_GET_ALARM a') =
    { ret := RT_EOK, regs := setAlarm fr r a
      args := .RTC_GET_ALARM
        { a' with tm_hour := a.tm_hour, tm_min := a.tm_min, tm_sec := a.tm_sec } }
  date : ∀ d ∈ calDigits (setClockFormat r (alarmData fr a)).2, d.Valid
  time : ∀ d ∈ timeDigits (setClockFormat r (alarmData fr a)).2, d.Valid
  clock : ∀ fr', getTime fr' (setAlarm fr r a) = getTime fr' r
  format : (setAlarm fr r a).CLKFMT &&& CLKFMT_24HEN_Msk = r.CLKFMT &&& CLKFMT_24HEN_Msk

/-- The stack happens to hold a date and the format the clock is in, with a half of the day the
hour can be told from. -/
def StackFits (fr : Frame) (r : Regs) (a : rt_rtc_wkalarm) : Prop :=
  DateOk fr.hw_alarm ∧
  if fr.hw_alarm.u32TimeScale = RTC_CLOCK_12 then
    r.CLKFMT &&& CLKFMT_24HEN_Msk = RTC_CLOCK_12 ∧
    if fr.hw_alarm.u32AmPm = RTC_PM then 1 ≤ a.tm_hour.toNat ∧ a.tm_hour.toNat < 20
    else a.tm_hour.toNat ≤ 20
  else r.CLKFMT &&& CLKFMT_24HEN_Msk ≠ RTC_CLOCK_12

theorem setAlarm_def (fr : Frame) (r : Regs) (a : rt_rtc_wkalarm) :
    setAlarm fr r a =
      RTC_SetAlarmDateAndTime (RTC_SetAlarmDateMask r 1 1 1 1 1 1) (alarmData fr a) := by
  simp only [setAlarm, nu_rtc_control, Bool.false_eq_true, or_self, if_false, alarmData]

/-- The first step of the setters does not depend on the other registers. -/
theorem setClockFormat_congr {r r' : Regs} (h : r'.CLKFMT = r.CLKFMT) (s : S_RTC_TIME_DATA_T) :
    (setClockFormat r' s).2 = (setClockFormat r s).2 ∧
    (setClockFormat r' s).1 = { r' with CLKFMT := (setClockFormat r s).1.CLKFMT } := by
  unfold setClockFormat
  rw [h]
  split
  · exact ⟨rfl, rfl⟩
  · exact ⟨rfl, rfl⟩

/-- The registers of an alarm, by what is packed into them. -/
theorem setAlarm_eq (fr : Frame) (r : Regs) (a : rt_rtc_wkalarm) :
    setAlarm fr r a =
      { RTC_SetAlarmDateMask r 1 1 1 1 1 1 with
        CLKFMT := (setClockFormat r (alarmData fr a)).1.CLKFMT
        CALM := packDigits (calDigits (setClockFormat r (alarmData fr a)).2)
        TALM := packDigits (timeDigits (setClockFormat r (alarmData fr a)).2) } := by
  obtain ⟨h2, h1⟩ := @setClockFormat_congr r (RTC_SetAlarmDateMask r 1 1 1 1 1 1) rfl
    (alarmData fr a)
  rw [setAlarm_def, RTC_SetAlarmDateAndTime]
  simp only [h1, h2]

/-- The clock is read from its own two registers and the format bit. -/
theorem getTime_congr {r r' : Regs} (hc : r'.CAL = r.CAL) (ht : r'.TIME = r.TIME)
    (hw : r'.WEEKDAY = r.WEEKDAY)
    (hf : r'.CLKFMT &&& CLKFMT_24HEN_Msk = r.CLKFMT &&& CLKFMT_24HEN_Msk) (fr : Frame) :
    getTime fr r' = getTime fr r := by
  simp only [getTime, nu_rtc_control, Bool.false_eq_true, or_self, if_false, RTC_GetDateAndTime,
    readDateAndTime, hc, ht, hw, hf]

/-- The format bit after the setters' first step. -/
theorem setClockFormat_bit (r : Regs) (s : S_RTC_TIME_DATA_T) :
    (setClockFormat r s).1.CLKFMT &&& CLKFMT_24HEN_Msk =
      if s.u32TimeScale = RTC_CLOCK_12 then RTC_CLOCK_12 else RTC_CLOCK_24 := by
  have h12 : r.CLKFMT &&& ~~~CLKFMT_24HEN_Msk &&& CLKFMT_24HEN_Msk = RTC_CLOCK_12 := by
    rw [BitVec.and_assoc]
    simp [CLKFMT_24HEN_Msk, RTC_CLOCK_12]
  have h24 : (r.CLKFMT ||| CLKFMT_24HEN_Msk) &&& CLKFMT_24HEN_Msk = RTC_CLOCK_24 := by
    refine BitVec.eq_of_getLsbD_eq fun i _ => ?_
    simp only [CLKFMT_24HEN_Msk, RTC_CLOCK_24, BitVec.getLsbD_and, BitVec.getLsbD_or]
    cases r.CLKFMT.getLsbD i <;> simp
  unfold setClockFormat
  split
  · exact h12
  · exact h24

/-- The format bit is one of two values. -/
theorem clkfmt_cases (x : BitVec 32) :
    x &&& CLKFMT_24HEN_Msk = RTC_CLOCK_12 ∨ x &&& CLKFMT_24HEN_Msk = RTC_CLOCK_24 := by
  have : (x &&& CLKFMT_24HEN_Msk).toNat = x.toNat % 2 := by
    rw [BitVec.toNat_and]
    exact Nat.and_one_is_mod _
  rcases Nat.mod_two_eq_zero_or_one x.toNat with h | h
  · exact Or.inl (BitVec.eq_of_toNat_eq (by rw [this, h]; rfl))
  · exact Or.inr (BitVec.eq_of_toNat_eq (by rw [this, h]; rfl))

/-- The hour a getter makes of two digits, in a format. -/
def decodeHour (bit hour : BitVec 32) : BitVec 32 :=
  if bit = RTC_CLOCK_12 then if 21#32 ≤ hour then hour - 20 else hour else hour

theorem readDateAndTime_wall {r : Regs} {cal time : BitVec 32} (s : S_RTC_TIME_DATA_T) :
    (readDateAndTime r cal time s).u32Hour =
      decodeHour (r.CLKFMT &&& CLKFMT_24HEN_Msk) (readTwo time 20 2 16) ∧
    (readDateAndTime r cal time s).u32Minute = readTwo time 12 3 8 ∧
    (readDateAndTime r cal time s).u32Second = readTwo time 4 3 0 := by
  unfold readDateAndTime decodeHour
  dsimp only
  split
  · split
    · exact ⟨rfl, rfl, rfl⟩
    · exact ⟨rfl, rfl, rfl⟩
  · exact ⟨rfl, rfl, rfl⟩

/-- The hour that is programmed, as the structure's two format fields make it. -/
theorem setClockFormat_hour (r : Regs) (s : S_RTC_TIME_DATA_T) :
    (setClockFormat r s).2 =
      { s with u32Hour := if s.u32TimeScale = RTC_CLOCK_12 ∧ s.u32AmPm = RTC_PM then
          s.u32Hour + 20 else s.u32Hour } := by
  unfold setClockFormat
  by_cases h12 : s.u32TimeScale = RTC_CLOCK_12
  · by_cases hpm : s.u32AmPm = RTC_PM
    · rw [if_pos h12, if_pos hpm, if_pos ⟨h12, hpm⟩]
    · rw [if_pos h12, if_neg hpm, if_neg (fun h => hpm h.2)]
  · rw [if_neg h12, if_neg (fun h => h12 h.1)]

/-- The programmed hour and what is decoded of it, for an hour of the day. -/
theorem decodeHour_iff {h ampm : BitVec 32} (hh : h.toNat < 24) :
    ((if ampm = RTC_PM then h + 20 else h).toNat < 40 ∧
      decodeHour RTC_CLOCK_12 (if ampm = RTC_PM then h + 20 else h) = h) ↔
    if ampm = RTC_PM then 1 ≤ h.toNat ∧ h.toNat < 20 else h.toNat ≤ 20 := by
  simp only [decodeHour, if_true]
  by_cases hpm : ampm = RTC_PM
  · have hadd : (h + 20).toNat = h.toNat + 20 := by
      rw [BitVec.toNat_add]
      simp only [BitVec.reduceToNat]
      omega
    simp only [hpm, if_true, BitVec.le_def, hadd, BitVec.reduceToNat]
    constructor
    · rintro ⟨hlt, heq⟩
      refine ⟨?_, by omega⟩
      by_contra h0
      rw [if_neg (by omega)] at heq
      have := congrArg BitVec.toNat heq
      omega
    · rintro ⟨h1, h2⟩
      rw [if_pos (by omega)]
      exact ⟨by omega, BitVec.add_sub_cancel h 20⟩
  · simp only [if_neg hpm, BitVec.le_def, BitVec.reduceToNat]
    constructor
    · rintro ⟨-, heq⟩
      by_contra h0
      rw [if_pos (by omega)] at heq
      have := congrArg BitVec.toNat heq
      rw [BitVec.toNat_sub] at this
      simp only [BitVec.reduceToNat] at this
      omega
    · intro h1
      rw [if_neg (by omega)]
      exact ⟨by omega, rfl⟩

/-- The hour that is programmed for an alarm. -/
def alarmHour (fr : Frame) (a : rt_rtc_wkalarm) : BitVec 32 :=
  if fr.hw_alarm.u32TimeScale = RTC_CLOCK_12 ∧ fr.hw_alarm.u32AmPm = RTC_PM then a.tm_hour + 20
  else a.tm_hour

theorem alarmData_date_iff (fr : Frame) (r : Regs) (a : rt_rtc_wkalarm) :
    (∀ d ∈ calDigits (setClockFormat r (alarmData fr a)).2, d.Valid) ↔ DateOk fr.hw_alarm := by
  rw [calDigits_valid_iff, setClockFormat_hour]
  exact ⟨fun h => ⟨h.year, h.month, h.day⟩, fun h => ⟨h.year, h.month, h.day⟩⟩

theorem alarmData_time_iff {a : rt_rtc_wkalarm} (ha : a.Valid) (fr : Frame) (r : Regs) :
    (∀ d ∈ timeDigits (setClockFormat r (alarmData fr a)).2, d.Valid) ↔
      (alarmHour fr a).toNat < 40 := by
  rw [timeDigits_valid_iff, setClockFormat_hour]
  exact ⟨fun h => h.hour, fun h => ⟨h, ha.min.trans (by norm_num), ha.sec.trans (by norm_num)⟩⟩

/-- What reading an alarm returns, when valid digits were programmed. -/
theorem getAlarm_setAlarm {a : rt_rtc_wkalarm} (ha : a.Valid) {fr : Frame}
    (hh : (alarmHour fr a).toNat < 40) (r : Regs) (fr' : Frame) (a' : rt_rtc_wkalarm) :
    nu_rtc_control fr' (setAlarm fr r a) false false (.RTC_GET_ALARM a') =
    { ret := RT_EOK, regs := setAlarm fr r a
      args := .RTC_GET_ALARM
        { a' with
          tm_hour := decodeHour ((setAlarm fr r a).CLKFMT &&& CLKFMT_24HEN_Msk) (alarmHour fr a)
          tm_min := a.tm_min, tm_sec := a.tm_sec } } := by
  have hok := (timeDigits_valid_iff _).1 ((alarmData_time_iff ha fr r).2 hh)
  have htalm : (setAlarm fr r a).TALM =
      packDigits (timeDigits (setClockFormat r (alarmData fr a)).2) := by rw [setAlarm_eq]
  obtain ⟨h1, h2, h3⟩ := readTwo_timeDigits hok
  rw [← htalm, setClockFormat_hour] at h1 h2 h3
  obtain ⟨w1, w2, w3⟩ := @readDateAndTime_wall (setAlarm fr r a)
    (setAlarm fr r a).CALM (setAlarm fr r a).TALM fr'.hw_alarm
  simp only [nu_rtc_control, Bool.false_eq_true, or_self, if_false, RTC_GetAlarmDateAndTime]
  rw [w1, w2, w3, h1, h2, h3]
  rfl

/-- The format bit an alarm leaves. -/
theorem setAlarm_bit (fr : Frame) (r : Regs) (a : rt_rtc_wkalarm) :
    (setAlarm fr r a).CLKFMT &&& CLKFMT_24HEN_Msk =
      if fr.hw_alarm.u32TimeScale = RTC_CLOCK_12 then RTC_CLOCK_12 else RTC_CLOCK_24 := by
  rw [setAlarm_eq]
  exact setClockFormat_bit r (alarmData fr a)

/-- The alarm hour decodes to itself in the format the stack selects. -/
theorem alarmHour_iff {a : rt_rtc_wkalarm} (ha : a.Valid) {fr : Frame}
    (h12 : fr.hw_alarm.u32TimeScale = RTC_CLOCK_12) :
    ((alarmHour fr a).toNat < 40 ∧ decodeHour RTC_CLOCK_12 (alarmHour fr a) = a.tm_hour) ↔
    if fr.hw_alarm.u32AmPm = RTC_PM then 1 ≤ a.tm_hour.toNat ∧ a.tm_hour.toNat < 20
    else a.tm_hour.toNat ≤ 20 := by
  rw [← decodeHour_iff ha.hour, alarmHour]
  simp only [h12, true_and]

/-- **The alarm round-trips and leaves the clock alone exactly when the stack fits**: the
driver sets the wall time only, and lets the stack choose the date, the clock's format and the
half of the day. -/
theorem alarm_round_trip_iff (fr : Frame) (r : Regs) {a : rt_rtc_wkalarm} (ha : a.Valid) :
    AlarmKept fr r a ↔ StackFits fr r a := by
  constructor
  · intro h
    have hh := (alarmData_time_iff ha fr r).1 h.time
    have hf := h.format
    rw [setAlarm_bit] at hf
    refine ⟨(alarmData_date_iff fr r a).1 h.date, ?_⟩
    have hb := h.back fr a
    rw [getAlarm_setAlarm ha hh, setAlarm_bit] at hb
    by_cases h12 : fr.hw_alarm.u32TimeScale = RTC_CLOCK_12
    · rw [if_pos h12] at hf hb ⊢
      refine ⟨hf.symm, (alarmHour_iff ha h12).1 ⟨hh, ?_⟩⟩
      simp only [Reply.mk.injEq, Cmd.RTC_GET_ALARM.injEq, rt_rtc_wkalarm.mk.injEq] at hb
      exact hb.2.2.2.2.2
    · rw [if_neg h12] at hf ⊢
      rw [← hf]
      decide
  · rintro ⟨hd, hs⟩
    have hfmt : (setAlarm fr r a).CLKFMT &&& CLKFMT_24HEN_Msk = r.CLKFMT &&& CLKFMT_24HEN_Msk := by
      rw [setAlarm_bit]
      by_cases h12 : fr.hw_alarm.u32TimeScale = RTC_CLOCK_12
      · rw [if_pos h12] at hs ⊢
        exact hs.1.symm
      · rw [if_neg h12] at hs ⊢
        exact ((clkfmt_cases r.CLKFMT).resolve_left hs).symm
    have hhour : (alarmHour fr a).toNat < 40 ∧
        decodeHour ((setAlarm fr r a).CLKFMT &&& CLKFMT_24HEN_Msk) (alarmHour fr a) =
          a.tm_hour := by
      rw [setAlarm_bit]
      by_cases h12 : fr.hw_alarm.u32TimeScale = RTC_CLOCK_12
      · rw [if_pos h12] at hs ⊢
        exact (alarmHour_iff ha h12).2 hs.2
      · have hah : alarmHour fr a = a.tm_hour := if_neg fun h => h12 h.1
        rw [if_neg h12, hah]
        exact ⟨ha.hour.trans (by norm_num), rfl⟩
    exact
      { accepted := by simp [nu_rtc_control]
        back := fun fr' a' => by rw [getAlarm_setAlarm ha hhour.1, hhour.2]
        date := (alarmData_date_iff fr r a).2 hd
        time := (alarmData_time_iff ha fr r).2 hhour.1
        clock := fun fr' => getTime_congr (by rw [setAlarm_eq]; rfl) (by rw [setAlarm_eq]; rfl)
          (by rw [setAlarm_eq]; rfl) hfmt fr'
        format := hfmt }

/-- A clock running in the 24-hour format. -/
def regs24 : Regs :=
  { CLKFMT := 1, WEEKDAY := 0, CAL := 0x240401, TIME := 0x230000, CALM := 0, TALM := 0, CAMSK := 0 }

/-- A stack that holds a date and the 24-hour format. -/
def fits24 : Frame :=
  { tm_out := tm_lower
    hw_time := ⟨0, 0, 0, 0, 0, 0, 0, 0, 0⟩
    hw_alarm := ⟨2024, 4, 1, 0, 0, 0, 0, 1, 0⟩
    tz_is_dst := 0 }

/-- A stack of zeroes: year 0 and the 12-hour format. -/
def zeroes : Frame := { fits24 with hw_alarm := ⟨0, 0, 0, 0, 0, 0, 0, 0, 0⟩ }

theorem alarm_kept_when_stack_fits :
    (⟨true, 0, 30, 7⟩ : rt_rtc_wkalarm).Valid ∧ AlarmKept fits24 regs24 ⟨true, 0, 30, 7⟩ :=
  have hv : (⟨true, 0, 30, 7⟩ : rt_rtc_wkalarm).Valid := ⟨by decide, by decide, by decide⟩
  ⟨hv, (alarm_round_trip_iff fits24 regs24 hv).2
    ⟨⟨by decide, by decide, by decide⟩, by rw [if_neg (by decide)]; decide⟩⟩

/-- On a stack of zeroes an alarm for 07:30 puts a clock that stood at 23:00 into the 12-hour
format: it reads 03:00, and the date programmed is not decimal. -/
theorem alarm_disturbs_clock :
    ¬ ∀ (fr : Frame) (r : Regs) (a : rt_rtc_wkalarm), a.Valid → AlarmKept fr r a := by
  intro h
  have hk := h zeroes regs24 ⟨true, 0, 30, 7⟩ ⟨by decide, by decide, by decide⟩
  exact absurd hk.format (by decide)

end Rtc
