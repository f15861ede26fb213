/-
Prescaler, period and compare value for a frequency and a duty.

The PWM, the EPWM and the PWM mode of the timers each try the prescalers from the smallest one on.
They differ in when they stop, in the width of their variables and in what they do when no
prescaler will do.

* **`Exact`** — what a call should leave in the registers, and return;
* **`frequency_iff`** — the clocks, frequencies and duties for which each of them does so.
-/
import NuMaker.Epwm.Output
import NuMaker.Pwm.Pairs

namespace Pwm.Frequency

/-! ### The functions -/

/-- The selections of the clocks, and what the clocks run at. -/
structure Clocks where
  CLKSEL2 : BitVec 32
  CLKSEL3 : BitVec 32
  PLL : BitVec 32
  PCLK0 : BitVec 32
  PCLK1 : BitVec 32

/-- The peripheral bus that a module hangs on. -/
def Clocks.pclk (clk : Clocks) (first : Bool) : BitVec 32 := if first then clk.PCLK0 else clk.PCLK1

/-- `u32PWMClockSrc` and `u32EPWMClockSrc`. -/
def Clocks.pwmSrc (clk : Clocks) (u32Src : BitVec 32) (first : Bool) : BitVec 32 :=
  if u32Src = 0 then clk.PLL else clk.pclk first

/-- The clock of `EPWM0` or `EPWM1`. -/
def Clocks.epwm (clk : Clocks) (first : Bool) : BitVec 32 :=
  clk.pwmSrc (if first then clk.CLKSEL2 &&& 1#32 <<< 0 else clk.CLKSEL2 &&& 1#32 <<< 1) first

/-- The clock of `PWM0` or `PWM1`. -/
def Clocks.pwm (clk : Clocks) (first : Bool) : BitVec 32 :=
  clk.pwmSrc (if first then clk.CLKSEL3 &&& 1#32 <<< 6 else clk.CLKSEL3 &&& 1#32 <<< 7) first

/-- `EPWM_T`, with the whole words that are written. -/
structure EPWM_T where
  CLKPSC : ℕ → BitVec 32
  PERIOD : ℕ → BitVec 32
  CMPDAT : ℕ → BitVec 32
  CTL1 : BitVec 32
  WGCTL0 : BitVec 32
  WGCTL1 : BitVec 32

def EPWM_ConfigOutputChannel (clk : Clocks) (first : Bool) (epwm : EPWM_T) (u32ChannelNum : ℕ)
    (u32Frequency u32DutyCycle : BitVec 32) : Option (EPWM_T × BitVec 32) := do
  let u32EPWMClockSrc := clk.epwm first
  let target ← udiv u32EPWMClockSrc u32Frequency
  -- the prescaler runs from `1` to `0xFFE`
  let (prescale, cnr) := EpwmOut.search target.toNat 0xFFE 1
  let u32Prescale := BitVec.ofNat 32 prescale
  let u32CNR := BitVec.ofNat 32 cnr
  let i ← udiv u32EPWMClockSrc (u32Prescale * u32CNR)
  let u32CNR := u32CNR - 1
  return ({
    CLKPSC := Function.update epwm.CLKPSC (u32ChannelNum / 2) (u32Prescale - 1)
    CTL1 := epwm.CTL1 &&& ~~~(0x3#32 <<< (u32ChannelNum * 2) ||| 0x10000#32 <<< u32ChannelNum)
    PERIOD := Function.update epwm.PERIOD u32ChannelNum u32CNR
    CMPDAT := Function.update epwm.CMPDAT u32ChannelNum (u32DutyCycle * (u32CNR + 1) / 100)
    WGCTL0 := epwm.WGCTL0 &&& ~~~(0x30003#32 <<< (u32ChannelNum * 2)) ||| 2#32 <<< (u32ChannelNum * 2)
    WGCTL1 := epwm.WGCTL1 &&& ~~~(0x30003#32 <<< (u32ChannelNum * 2)) ||| 1#32 <<< (u32ChannelNum * 2) },
    i)

/-- `Pwm.PWM_ConfigOutputChannel` leaves the registers as this does, and takes a division by zero for
zero. -/
def PWM_ConfigOutputChannel (clk : Clocks) (first : Bool) (pwm : PWM_T) (u32ChannelNum : ℕ)
    (u32Frequency u32DutyCycle : BitVec 32) : Option (PWM_T × BitVec 32) := do
  let u32PWMClockSrc := clk.pwm first
  let _ ← udiv u32PWMClockSrc u32Frequency
  let (u16Prescale, u16CNR) := prescale u32PWMClockSrc u32Frequency 0xFFE 1
  -- the product is of two `int`s
  let i ← udiv u32PWMClockSrc (u16Prescale.setWidth 32 * u16CNR.setWidth 32)
  return (Pwm.PWM_ConfigOutputChannel pwm u32PWMClockSrc u32ChannelNum u32Frequency u32DutyCycle, i)

/-- The registers of `TIMER_T` for its PWM mode. -/
structure TIMER_T where
  PWMCTL : BitVec 32
  PWMCLKPSC : BitVec 32
  PWMPERIOD : BitVec 32
  PWMCMPDAT : BitVec 32

/-- The search of `TPWM_ConfigOutputFreqAndDuty`, and what stands for it after the last prescaler. -/
def period (u32PWMClockFreq u32Frequency : BitVec 32) : ℕ → BitVec 32 → BitVec 32 × BitVec 32
  | 0, _ => (0x100, 0x10000)
  | n + 1, u32Prescaler =>
    let u32Period := u32PWMClockFreq / u32Prescaler / u32Frequency
    if u32Period > 0x10000 then period u32PWMClockFreq u32Frequency n (u32Prescaler + 1)
    else (u32Prescaler, u32Period)

/-- The clock is `PCLK0` for `TIMER0` and `TIMER1`.  The prescaler runs from `1` to `0x100`. -/
def TPWM_ConfigOutputFreqAndDuty (clk : Clocks) (first : Bool) (timer : TIMER_T)
    (u32Frequency u32DutyCycle : BitVec 32) : Option (TIMER_T × BitVec 32) := do
  let u32PWMClockFreq := clk.pclk first
  let _ ← udiv u32PWMClockFreq u32Frequency
  let (u32Prescaler, u32Period) := period u32PWMClockFreq u32Frequency 0x100 1
  let u32TargetFreq ← udiv (u32PWMClockFreq / u32Prescaler) u32Period
  return ({
    PWMCTL := timer.PWMCTL &&& ~~~(1#32 <<< 3) ||| 0#32 <<< 3
    PWMCLKPSC := u32Prescaler - 1
    PWMPERIOD := u32Period - 1
    PWMCMPDAT := if u32DutyCycle ≠ 0 then u32DutyCycle * u32Period / 100 else 0 },
    u32TargetFreq)

/-! ### What they should do -/

/-- What a call leaves in the registers of the channel, and what it returns. -/
structure Result where
  prescaler : ℕ
  period : ℕ
  compare : ℕ
  ret : ℕ
deriving DecidableEq

/-- A call, and the registers that it finds. -/
inductive Call
  | epwm (first : Bool) (regs : EPWM_T) (u32ChannelNum : ℕ)
  | pwm (first : Bool) (regs : PWM_T) (u32ChannelNum : ℕ)
  | tpwm (first : Bool) (regs : TIMER_T)

/-- The clock of the counter. -/
def Call.clock (clk : Clocks) : Call → BitVec 32
  | epwm first _ _ => clk.epwm first
  | pwm first _ _ => clk.pwm first
  | tpwm first _ => clk.pclk first

/-- The width of the prescaler. -/
def Call.bits : Call → ℕ
  | epwm _ _ _ => 12
  | pwm _ _ _ => 12
  | tpwm _ _ => 8

def Call.run (clk : Clocks) (u32Frequency u32DutyCycle : BitVec 32) : Call → Option Result
  | epwm first regs ch =>
    (EPWM_ConfigOutputChannel clk first regs ch u32Frequency u32DutyCycle).map fun (regs, v) =>
      ⟨(regs.CLKPSC (ch / 2)).toNat, (regs.PERIOD ch).toNat, (regs.CMPDAT ch).toNat, v.toNat⟩
  | pwm first regs ch =>
    (PWM_ConfigOutputChannel clk first regs ch u32Frequency u32DutyCycle).map fun (regs, v) =>
      ⟨(regs.CLKPSC (ch / 2)).toNat, (PWM_GET_CNR regs ch).toNat, (regs.CMPDAT ch).toNat, v.toNat⟩
  | tpwm first regs =>
    (TPWM_ConfigOutputFreqAndDuty clk first regs u32Frequency u32DutyCycle).map fun (regs, v) =>
      ⟨regs.PWMCLKPSC.toNat, regs.PWMPERIOD.toNat, regs.PWMCMPDAT.toNat, v.toNat⟩

/-- From a clock of `c`, with a frequency of `f` and a duty of `d`: the values fit their fields, the
compare value and the frequency that is returned are those of the period, and if there is a prescaler
for which the period fits then the smallest one is taken, with the period for it. -/
structure Exact (bits c f d : ℕ) (r : Result) : Prop where
  prescaler_fits : r.prescaler < 2 ^ bits
  period_fits : r.period < 2 ^ 16
  compare_fits : r.compare < 2 ^ 16
  compare : r.compare = d * (r.period + 1) / 100
  ret : r.ret = c / ((r.prescaler + 1) * (r.period + 1))
  smallest : ∀ p, 1 ≤ p → p ≤ 2 ^ bits → c / f / p ≤ 2 ^ 16 →
    r.prescaler + 1 ≤ p ∧ r.period + 1 = c / f / (r.prescaler + 1)

/-! ### A prescaler and a count -/

/-- What the registers and the return value are for a prescaler of `k` and a count of `n`. -/
def result (c d k n : ℕ) : Result := ⟨k - 1, n - 1, d * n / 100, c / (k * n)⟩

theorem exact_result_iff {bits c f d k n q : ℕ} (hq : c / f = q) (hk : 1 ≤ k) (hn : 1 ≤ n) :
    Exact bits c f d (result c d k n) ↔
      (k ≤ 2 ^ bits ∧ n ≤ 2 ^ 16 ∧ d * n / 100 < 2 ^ 16) ∧
        (q / 65537 < 2 ^ bits → k = q / 65537 + 1 ∧ n = q / k) := by
  have hfits : ∀ p, 1 ≤ p → (q / p ≤ 2 ^ 16 ↔ q / 65537 < p) := fun p hp =>
    Nat.lt_succ_iff.symm.trans (div_lt_swap hp (by decide))
  have hk' : k - 1 + 1 = k := Nat.sub_add_cancel hk
  have hn' : n - 1 + 1 = n := Nat.sub_add_cancel hn
  constructor
  · rintro ⟨hp, hper, hcmp, -, -, hsmall⟩
    dsimp only [result] at hp hper hcmp hsmall
    rw [hk', hn', hq] at hsmall
    refine ⟨⟨by omega, by omega, hcmp⟩, fun hlt => ?_⟩
    -- the first prescaler that fits is an upper bound, and the one taken fits
    obtain ⟨hle, hcount⟩ := hsmall (q / 65537 + 1) (by omega) hlt ((hfits _ (by omega)).2 (by omega))
    have hmore := (hfits k hk).1 (by omega)
    exact ⟨by omega, hcount⟩
  · rintro ⟨⟨hp, hper, hcmp⟩, hsmall⟩
    refine ⟨by dsimp only [result]; omega, by dsimp only [result]; omega, hcmp, ?_, ?_, ?_⟩
    · rw [result, hn']
    · rw [result, hk', hn']
    · intro p hp1 hp2 hfit
      rw [hq] at hfit ⊢
      have hmore := (hfits p hp1).1 hfit
      obtain ⟨hkeq, hneq⟩ := hsmall (by omega)
      rw [result, hk', hn']
      exact ⟨by omega, hneq⟩

section Words

variable {P N D C : BitVec 32}

theorem toNat_sub_one (h : 1 ≤ P.toNat) : (P - 1).toNat = P.toNat - 1 := by
  have := P.isLt
  rw [BitVec.toNat_sub, show (1 : BitVec 32).toNat = 1 from rfl]
  omega

theorem toNat_compare (hn : N.toNat ≤ 65536) (hd : D.toNat ≤ 100) :
    (D * N / 100).toNat = D.toNat * N.toNat / 100 := by
  have hmul : D.toNat * N.toNat ≤ 100 * 65536 := Nat.mul_le_mul hd hn
  rw [BitVec.toNat_udiv, BitVec.toNat_mul, Nat.mod_eq_of_lt (by omega)]
  rfl

/-- The rate that is returned. -/
theorem udiv_mul (hk : 1 ≤ P.toNat ∧ P.toNat ≤ 4096) (hn : 1 ≤ N.toNat ∧ N.toNat ≤ 65536) :
    ∃ v, udiv C (P * N) = some v ∧ v.toNat = C.toNat / (P.toNat * N.toNat) := by
  have hlo : 1 * 1 ≤ P.toNat * N.toNat := Nat.mul_le_mul hk.1 hn.1
  have hhi : P.toNat * N.toNat ≤ 4096 * 65536 := Nat.mul_le_mul hk.2 hn.2
  have hmul : (P * N).toNat = P.toNat * N.toNat := by
    rw [BitVec.toNat_mul, Nat.mod_eq_of_lt (by omega)]
  have hne : P * N ≠ 0 := by
    intro h
    rw [h] at hmul
    rw [← hmul] at hlo
    exact absurd hlo (by decide)
  exact ⟨_, if_neg hne, by rw [BitVec.toNat_udiv, hmul]⟩

end Words

/-! ### The calls -/

section Calls

variable {clk : Clocks} {first : Bool} {f d : BitVec 32}

theorem udiv_frequency (hf : f ≠ 0) (c : BitVec 32) : udiv c f = some (c / f) := if_neg hf

theorem run_epwm {q k n : ℕ} (regs : EPWM_T) (ch : ℕ) (hf : f ≠ 0) (hd : d.toNat ≤ 100)
    (hq : (clk.epwm first).toNat / f.toNat = q) (hk : 1 ≤ k ∧ k ≤ 4096) (hn : 1 ≤ n ∧ n ≤ 65536)
    (hs : EpwmOut.search q 0xFFE 1 = (k, n)) :
    (Call.epwm first regs ch).run clk f d =
      some (result (clk.epwm first).toNat d.toNat k n) := by
  have hk' : (BitVec.ofNat 32 k).toNat = k := Nat.mod_eq_of_lt (by omega)
  have hn' : (BitVec.ofNat 32 n).toNat = n := Nat.mod_eq_of_lt (by omega)
  obtain ⟨v, hv, hret⟩ := @udiv_mul (BitVec.ofNat 32 k) (BitVec.ofNat 32 n) (clk.epwm first)
    (by rwa [hk']) (by rwa [hn'])
  rw [← hq, ← BitVec.toNat_udiv] at hs
  simp only [Call.run, EPWM_ConfigOutputChannel, udiv_frequency hf, Option.bind_eq_bind,
    Option.bind_some, hs, hv, Option.pure_def, Option.map_some,
    Function.update_self, BitVec.sub_add_cancel]
  rw [toNat_sub_one (by omega), toNat_sub_one (by omega), toNat_compare (by omega) hd, hret, hk', hn',
    result]

theorem run_pwm {P N : BitVec 16} (regs : PWM_T) (ch : ℕ) (hf : f ≠ 0) (hd : d.toNat ≤ 100)
    (hk : 1 ≤ P.toNat ∧ P.toNat ≤ 4096) (hn : 1 ≤ N.toNat)
    (hs : prescale (clk.pwm first) f 0xFFE 1 = (P, N)) :
    (Call.pwm first regs ch).run clk f d =
      some (result (clk.pwm first).toNat d.toNat P.toNat N.toNat) := by
  have hk' : (P.setWidth 32).toNat = P.toNat := by
    rw [BitVec.toNat_setWidth, Nat.mod_eq_of_lt (by omega)]
  have hn' : (N.setWidth 32).toNat = N.toNat := by
    rw [BitVec.toNat_setWidth, Nat.mod_eq_of_lt (by have := N.isLt; omega)]
  have hN := N.isLt
  obtain ⟨v, hv, hret⟩ := @udiv_mul (P.setWidth 32) (N.setWidth 32) (clk.pwm first)
    (by rwa [hk']) (by rw [hn']; omega)
  -- the decrement before the width is changed
  have hdec : ∀ W : BitVec 16, 1 ≤ W.toNat → (W - 1).setWidth 32 = W.setWidth 32 - 1 := by
    intro W hW
    have := W.isLt
    refine BitVec.eq_of_toNat_eq ?_
    rw [BitVec.toNat_setWidth, BitVec.toNat_sub, BitVec.toNat_sub, BitVec.toNat_setWidth,
      show (1 : BitVec 16).toNat = 1 from rfl, show (1 : BitVec 32).toNat = 1 from rfl]
    omega
  simp only [Call.run, PWM_ConfigOutputChannel, udiv_frequency hf, Option.bind_eq_bind,
    Option.bind_some, hs, hv, Option.pure_def, Option.map_some, Pwm.PWM_ConfigOutputChannel,
    PWM_SET_PRESCALER, PWM_SET_CNR, PWM_SET_CMR, PWM_GET_CNR, Function.update_self, hdec P hk.1,
    hdec N hn, BitVec.sub_add_cancel]
  rw [toNat_sub_one (by omega), toNat_sub_one (by omega), toNat_compare (by omega) hd, hret, hk', hn',
    result]

/-- The count is zero when it was `0x10000`. -/
theorem run_pwm_zero {P : BitVec 16} (regs : PWM_T) (ch : ℕ) (hf : f ≠ 0)
    (hs : prescale (clk.pwm first) f 0xFFE 1 = (P, 0)) :
    (Call.pwm first regs ch).run clk f d = none := by
  have hzero : udiv (clk.pwm first) (P.setWidth 32 * (0 : BitVec 16).setWidth 32) = none :=
    if_pos (BitVec.mul_zero)
  simp only [Call.run, PWM_ConfigOutputChannel, udiv_frequency hf, Option.bind_eq_bind,
    Option.bind_some, hs, hzero, Option.bind_none, Option.map_none]

theorem run_tpwm {P N : BitVec 32} (regs : TIMER_T) (hf : f ≠ 0) (hd : d.toNat ≤ 100)
    (hk : 1 ≤ P.toNat) (hn : 1 ≤ N.toNat ∧ N.toNat ≤ 65536)
    (hs : period (clk.pclk first) f 0x100 1 = (P, N)) :
    (Call.tpwm first regs).run clk f d =
      some (result (clk.pclk first).toNat d.toNat P.toNat N.toNat) := by
  have hne : N ≠ 0 := by
    rintro rfl
    exact absurd hn.1 (by decide)
  have hcmp : (if d ≠ 0 then d * N / 100 else 0).toNat = d.toNat * N.toNat / 100 := by
    rw [← toNat_compare hn.2 hd]
    split
    · rfl
    · next h =>
      rw [not_not.1 h]
      simp
  have hv : udiv (clk.pclk first / P) N = some (clk.pclk first / P / N) := if_neg hne
  simp only [Call.run, TPWM_ConfigOutputFreqAndDuty, udiv_frequency hf, Option.bind_eq_bind,
    Option.bind_some, hs, hv, Option.pure_def, Option.map_some]
  rw [toNat_sub_one hk, toNat_sub_one hn.1, hcmp, BitVec.toNat_udiv, BitVec.toNat_udiv,
    Nat.div_div_eq_div_mul, result]

end Calls

/-! ### The searches -/

section Searches

variable (c f : BitVec 32)

/-- The count for a prescaler, against the largest one. -/
theorem count_gt_iff (i : BitVec 32) : i > 0x10000 ↔ ¬ i.toNat < 65537 := by
  rw [gt_iff_lt, BitVec.lt_def, show (0x10000 : BitVec 32).toNat = 65536 from rfl]
  omega

theorem prescale_eq : prescale c f 0xFFE 1 =
    if c.toNat / f.toNat / 65537 + 1 < 0xFFF then
      (BitVec.ofNat 16 (c.toNat / f.toNat / 65537 + 1),
        BitVec.ofNat 16 (c.toNat / f.toNat / (c.toNat / f.toNat / 65537 + 1)))
    else (0xFFF, 0xFFFF) := by
  refine @loop_eq _ (fun fuel p => prescale c f fuel (BitVec.ofNat 16 p))
    (fun p => (BitVec.ofNat 16 p, BitVec.ofNat 16 (c.toNat / f.toNat / p)))
    (fun p => (BitVec.ofNat 16 p, 0xFFFF)) (c.toNat / f.toNat) 65537 0xFFF (by decide)
    (fun _ => rfl) (fun fuel p hp hlt => ?_) 0xFFE 1 (by decide) (by decide) (Nat.le_add_left 1 _)
  have hcount : (c / f / (BitVec.ofNat 16 p).setWidth 32).toNat = c.toNat / f.toNat / p := by
    rw [BitVec.toNat_udiv, BitVec.toNat_udiv, BitVec.toNat_setWidth, BitVec.toNat_ofNat,
      Nat.mod_eq_of_lt (by omega), Nat.mod_eq_of_lt (by omega)]
  have hnarrow : (c / f / (BitVec.ofNat 16 p).setWidth 32).setWidth 16 =
      BitVec.ofNat 16 (c.toNat / f.toNat / p) := by
    rw [← hcount, BitVec.ofNat_toNat]
  rw [prescale, hnarrow]
  simp only [count_gt_iff, hcount, ite_not]
  rw [BitVec.ofNat_add]
  rfl

theorem period_eq : period c f 0x100 1 =
    if c.toNat / f.toNat / 65537 + 1 < 0x101 then
      (BitVec.ofNat 32 (c.toNat / f.toNat / 65537 + 1),
        BitVec.ofNat 32 (c.toNat / f.toNat / (c.toNat / f.toNat / 65537 + 1)))
    else (0x100, 0x10000) := by
  refine @loop_eq _ (fun fuel p => period c f fuel (BitVec.ofNat 32 p))
    (fun p => (BitVec.ofNat 32 p, BitVec.ofNat 32 (c.toNat / f.toNat / p)))
    (fun _ => (0x100, 0x10000)) (c.toNat / f.toNat) 65537 0x101 (by decide)
    (fun _ => rfl) (fun fuel p hp hlt => ?_) 0x100 1 (by decide) (by decide) (Nat.le_add_left 1 _)
  have hcount : (c / BitVec.ofNat 32 p / f).toNat = c.toNat / f.toNat / p := by
    rw [BitVec.toNat_udiv, BitVec.toNat_udiv, BitVec.toNat_ofNat, Nat.mod_eq_of_lt (by omega),
      Nat.div_right_comm]
  have hword : c / BitVec.ofNat 32 p / f = BitVec.ofNat 32 (c.toNat / f.toNat / p) := by
    rw [← hcount, BitVec.ofNat_toNat, BitVec.setWidth_eq]
  rw [period]
  simp only [count_gt_iff, hcount, ite_not]
  rw [BitVec.ofNat_add, hword]
  rfl

end Searches

/-! ### When they are right -/

/-- The quotients of clock and frequency that `PWM` and `EPWM` have registers for.  The smallest
prescaler must not leave `0x10000` counts; the prescalers `0xFFF` and `0x1000` are not tried, and where
one of them is needed `0xFFF` is taken, with `0xFFFF` counts. -/
def Reached (q : ℕ) : Prop :=
  q < 0xFFE * 65537 ∧ q / 65537 = q / 65536 ∨ q / 0xFFF = 0xFFFF ∨ 0x1000 * 65537 ≤ q

/-- The quotients and duties that a call serves.  The timers can count `0x10000`, but not compare with
it. -/
def Call.Serves (q d : ℕ) : Call → Prop
  | epwm _ _ _ => Reached q
  | pwm _ _ _ => Reached q
  | tpwm _ _ => d < 100 ∨ q < 0x100 * 65537 ∧ q / 65537 = q / 65536

section Serves

variable {clk : Clocks} {first : Bool} {f d : BitVec 32} {c q : ℕ}

theorem exists_iff {o : Option Result} {r : Result} {E : Result → Prop} (h : o = some r) :
    (∃ r', o = some r' ∧ E r') ↔ E r := by
  rw [h]
  constructor
  · rintro ⟨r', hr, hE⟩
    rwa [Option.some.inj hr]
  · exact fun hE => ⟨r, rfl, hE⟩

/-- A compare value for less than `0x10000` counts fits. -/
theorem compare_lt {d n : ℕ} (hd : d ≤ 100) (hn : n < 65536) : d * n / 100 < 2 ^ 16 := by
  have hmul : d * n ≤ 100 * n := Nat.mul_le_mul_right n hd
  omega

/-- The first prescaler leaves at least one count, and fewer than it looks for. -/
theorem count_spec {w : ℕ} (hw : 1 < w) (hpos : 1 ≤ q) :
    1 ≤ q / (q / w + 1) ∧ q / (q / w + 1) < w := by
  have hlt : q / w < q := Nat.div_lt_self hpos hw
  exact ⟨Nat.div_pos hlt (Nat.succ_pos _), (div_lt_swap (Nat.succ_pos _) (by omega)).2 (Nat.lt_succ_self _)⟩

/-- The loop has run to its end. -/
theorem exact_fallback_iff {f d : ℕ} (hq : c / f = q) (hd : d ≤ 100) (hend : 0xFFE * 65536 ≤ q) :
    Exact 12 c f d (result c d 0xFFF 0xFFFF) ↔ Reached q := by
  have hcmp := compare_lt hd (show 0xFFFF < 65536 by decide)
  rw [exact_result_iff hq (by decide) (by decide), and_iff_right ⟨by decide, by decide, hcmp⟩, Reached]
  omega

theorem epwm_iff (regs : EPWM_T) (ch : ℕ) (hf : f ≠ 0) (hd : d.toNat ≤ 100)
    (hq : (clk.epwm first).toNat / f.toNat = q) (hpos : 1 ≤ q) :
    (∃ r, (Call.epwm first regs ch).run clk f d = some r ∧
      Exact 12 (clk.epwm first).toNat f.toNat d.toNat r) ↔ Reached q := by
  have hs := EpwmOut.search_eq q
  obtain ⟨hn, hn'⟩ := count_spec (show 1 < 65536 by decide) hpos
  by_cases hreach : q / 65536 + 1 < 0xFFF
  · -- it stops below `0x10000` counts, so at `0x10000` of them it has gone on
    rw [if_pos hreach] at hs
    generalize hcount : q / (q / 65536 + 1) = n at *
    rw [exists_iff (run_epwm regs ch hf hd hq (by omega) (by omega) hs),
      exact_result_iff hq (by omega) hn, and_iff_right ⟨by omega, by omega, compare_lt hd hn'⟩, hcount,
      Reached]
    omega
  · rw [if_neg hreach] at hs
    rw [exists_iff (run_epwm regs ch hf hd hq (by decide) (by decide) hs)]
    exact exact_fallback_iff hq hd (by omega)

theorem pwm_iff (regs : PWM_T) (ch : ℕ) (hf : f ≠ 0) (hd : d.toNat ≤ 100)
    (hq : (clk.pwm first).toNat / f.toNat = q) (hpos : 1 ≤ q) :
    (∃ r, (Call.pwm first regs ch).run clk f d = some r ∧
      Exact 12 (clk.pwm first).toNat f.toNat d.toNat r) ↔ Reached q := by
  have hs := prescale_eq (clk.pwm first) f
  obtain ⟨hn, hn'⟩ := count_spec (show 1 < 65537 by decide) hpos
  have hfull := @div_lt_swap q (q / 65537 + 1) 65536 (by omega) (by decide)
  rw [hq] at hs
  by_cases hreach : q / 65537 + 1 < 0xFFF
  · rw [if_pos hreach] at hs
    generalize hcount : q / (q / 65537 + 1) = n at *
    by_cases h0 : n = 65536
    · -- the count is cut off to zero
      rw [h0, show BitVec.ofNat 16 65536 = 0 from rfl] at hs
      refine iff_of_false ?_ (by rw [Reached]; omega)
      rintro ⟨r, hr, -⟩
      rw [run_pwm_zero regs ch hf hs] at hr
      exact nomatch hr
    · -- the count fits its sixteen bits
      have hP : (BitVec.ofNat 16 (q / 65537 + 1)).toNat = q / 65537 + 1 := Nat.mod_eq_of_lt (by omega)
      have hN : (BitVec.ofNat 16 n).toNat = n := Nat.mod_eq_of_lt (by omega)
      rw [exists_iff (run_pwm regs ch hf hd (by omega) (by omega) hs), hP, hN,
        exact_result_iff hq (by omega) hn, and_iff_right ⟨by omega, by omega, compare_lt hd (by omega)⟩,
        hcount, Reached]
      omega
  · rw [if_neg hreach] at hs
    rw [exists_iff (run_pwm regs ch hf hd (by decide) (by decide) hs)]
    exact exact_fallback_iff hq hd (by omega)

theorem tpwm_iff (regs : TIMER_T) (hf : f ≠ 0) (hd : d.toNat ≤ 100)
    (hq : (clk.pclk first).toNat / f.toNat = q) (hpos : 1 ≤ q) :
    (∃ r, (Call.tpwm first regs).run clk f d = some r ∧
      Exact 8 (clk.pclk first).toNat f.toNat d.toNat r) ↔
      d.toNat < 100 ∨ q < 0x100 * 65537 ∧ q / 65537 = q / 65536 := by
  have hs := period_eq (clk.pclk first) f
  obtain ⟨hn, hn'⟩ := count_spec (show 1 < 65537 by decide) hpos
  have hfull := @div_lt_swap q (q / 65537 + 1) 65536 (by omega) (by decide)
  rw [hq] at hs
  by_cases hreach : q / 65537 + 1 < 0x101
  · rw [if_pos hreach] at hs
    generalize hcount : q / (q / 65537 + 1) = n at *
    have hP : (BitVec.ofNat 32 (q / 65537 + 1)).toNat = q / 65537 + 1 := Nat.mod_eq_of_lt (by omega)
    have hN : (BitVec.ofNat 32 n).toNat = n := Nat.mod_eq_of_lt (by omega)
    -- `0x10000` counts with a full duty
    have hcmp : d.toNat * n / 100 < 2 ^ 16 ↔ d.toNat < 100 ∨ n < 65536 := by
      rcases Nat.lt_or_ge d.toNat 100 with hlt | hge
      · have hmul : d.toNat * n ≤ 99 * n := Nat.mul_le_mul_right n (by omega)
        exact iff_of_true (by omega) (Or.inl hlt)
      · rw [show d.toNat = 100 by omega]
        omega
    rw [exists_iff (run_tpwm regs hf hd (by omega) (by omega) hs), hP, hN,
      exact_result_iff hq (by omega) hn, hcmp, hcount]
    omega
  · -- no prescaler fits, and the longest period is taken
    rw [if_neg hreach] at hs
    rw [exists_iff (run_tpwm regs hf hd (by decide) (by decide) hs),
      exact_result_iff hq (by decide) (by decide), show (0x100 : BitVec 32).toNat = 256 from rfl,
      show (0x10000 : BitVec 32).toNat = 65536 from rfl]
    omega

end Serves

/-- A crystal of 24.576 MHz, and the bus clocks as sources. -/
def crystal : Clocks := ⟨3, 0xc0, 0, 24576000, 24576000⟩

/-- The registers out of reset. -/
def EPWM_T.reset : EPWM_T := ⟨fun _ => 0, fun _ => 0, fun _ => 0, 0, 0, 0⟩

def pwmReset : PWM_T := ⟨fun _ => 0, fun _ => 0, fun _ => 0, 0, 0, 0, 0, 0⟩

end Pwm.Frequency
