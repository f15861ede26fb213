/-
What the PWM drivers set, and what they read back.

A period and a pulse in nanoseconds become a frequency of whole hertz and a duty of whole percent,
from which a prescaler, a count and a compare value are found.  To read them back, the registers are
multiplied by a tick of whole picoseconds.  The three drivers have their own ways to the clock for
either direction, and the counter has one of its own.

* **`nu_pwm_set`**, **`EpwmOut.nu_epwm_set`**, **`nu_tpwm_set`** and the `get`s — the drivers;
* **`Agrees`** — what a set command and the get command after it should do;
* **`set_eq`** — the registers after a set command, in numbers;
* **`mul_cut_div_eq_iff`** — when a cut tick does not show;
* **`readback_iff`** — the clocks and requests for which set and get agree.
-/
import NuMaker.Pwm.Frequency
import NuMaker.Timer.Driver

namespace Pwm.Readback

open Pwm.Frequency (TIMER_T TPWM_ConfigOutputFreqAndDuty Result result)

def RT_EOK : ℤ := 0
def RT_ERROR : ℤ := 1

/-! ### The drivers -/

/-- The clocks, with that of the core, the selection of those of the timers, and what the counter of a
timer runs at in its PWM mode. -/
structure Clocks extends Frequency.Clocks where
  HCLK : BitVec 32
  CLKSEL1 : BitVec 32
  TMRx_PWMCLK : BitVec 32

/-- The frequency and the duty that all three drivers hand to the solver, `pulse * 100` in 32 bits. -/
def arguments (period pulse : BitVec 32) : BitVec 32 × BitVec 32 :=
  (1000000000 / period, pulse * 100 / period)

/-- `Pwm.nu_pwm_set` leaves the device as this does, and takes a division by zero for zero. -/
def nu_pwm_set (clk : Clocks) (first : Bool) (dev : nu_pwm) (channel : ℕ) (period pulse : BitVec 32) :
    Option (ℤ × nu_pwm) :=
  if period = 0 then some (-RT_ERROR, dev)
  else
    let period := dev.used channel period
    let (freq, dutycycle) := arguments period pulse
    (Frequency.PWM_ConfigOutputChannel clk.toClocks first dev.base channel freq dutycycle).map
      fun (base, _) => (RT_EOK, { dev with base := base, period_time := period })

/-- The timers. -/
def timer (i : Fin 4) : Timer.Base :=
  match i with
  | 0 => .TIMER0
  | 1 => .TIMER1
  | 2 => .TIMER2
  | 3 => .TIMER3

def nu_tpwm_set (clk : Clocks) (i : Fin 4) (base : TIMER_T) (period pulse : BitVec 32) :
    Option (ℤ × TIMER_T) :=
  if period = 0 then some (-RT_ERROR, base)
  else
    let (tpwm_freq, tpwm_dutycycle) := arguments period pulse
    (TPWM_ConfigOutputFreqAndDuty clk.toClocks (i.val < 2) base tpwm_freq tpwm_dutycycle).map
      fun (base, _) => (RT_EOK, base)

/-- The fields of a channel that a get command reads. -/
structure Fields where
  prescale : BitVec 32
  period : BitVec 32
  pulse : BitVec 32

def pwmFields (pwm : PWM_T) (ch : ℕ) : Fields :=
  ⟨pwm.CLKPSC (ch / 2), PWM_GET_CNR pwm ch, pwm.CMPDAT ch⟩

def epwmFields (e : EpwmOut.EPWM_T) (ch : ℕ) : Fields :=
  ⟨(e.CLKPSC (ch / 2)).setWidth 32, (e.PERIOD ch).setWidth 32, (e.CMPDAT ch).setWidth 32⟩

/-- `CMP` has sixteen bits of its register. -/
def tpwmFields (base : TIMER_T) : Fields :=
  ⟨base.PWMCLKPSC, base.PWMPERIOD, (base.PWMCMPDAT.setWidth 16).setWidth 32⟩

/-- What all three get commands make of them: the period and the pulse. -/
def reported (u32ClockSrc : BitVec 32) (r : Fields) : Option (BitVec 32 × BitVec 32) :=
  if u32ClockSrc = 0 then none
  else
    let time_tick := (1000000000000#64 / u32ClockSrc.setWidth 64).setWidth 32
    some ((r.prescale + 1) * (r.period + 1) * time_tick / 1000,
      (r.prescale + 1) * r.pulse * time_tick / 1000)

def nu_pwm_clksr (clk : Clocks) (first : Bool) : BitVec 32 :=
  let u32Src := if first then clk.CLKSEL3 &&& 1#32 <<< 6 else clk.CLKSEL3 &&& 1#32 <<< 7
  if u32Src = 0 then clk.HCLK else clk.pclk first

/-- For either of the modules. -/
def nu_epwm_clksr (clk : Clocks) : BitVec 32 := clk.PCLK0

def TIMER_GetModuleClock (clk : Clocks) (i : Fin 4) : BitVec 32 :=
  Timer.GetModuleClock ⟨clk.CLKSEL1, 0, clk.PCLK0, clk.PCLK1⟩ (timer i)

def nu_pwm_get (clk : Clocks) (first : Bool) (dev : nu_pwm) (channel : ℕ) :
    Option (BitVec 32 × BitVec 32) :=
  reported (nu_pwm_clksr clk first) (pwmFields dev.base channel)

def nu_epwm_get (clk : Clocks) (epwm : EpwmOut.EPWM_T) (channel : ℕ) :
    Option (BitVec 32 × BitVec 32) :=
  reported (nu_epwm_clksr clk) (epwmFields epwm channel)

def nu_tpwm_get (clk : Clocks) (i : Fin 4) (base : TIMER_T) : Option (BitVec 32 × BitVec 32) :=
  reported (TIMER_GetModuleClock clk i) (tpwmFields base)

/-! ### What they should do -/

/-- A request: a pulse that is not longer than its period. -/
structure Request where
  period : BitVec 32
  pulse : BitVec 32
  pos : period ≠ 0
  le : pulse.toNat ≤ period.toNat

/-- A channel of one of the drivers, in any state; of a PWM, no other channel is enabled. -/
inductive Channel
  | pwm (first : Bool) (dev : nu_pwm) (channel : ℕ)
      (alone : ∀ k, k ≠ channel → dev.chn_mask.getLsbD k = false)
  | epwm (first : Bool) (epwm : EpwmOut.EPWM_T) (channel : ℕ)
  | tpwm (i : Fin 4) (base : TIMER_T)

namespace Channel

/-- The clock that its counter runs at, as it is selected. -/
def source (clk : Clocks) : Channel → BitVec 32
  | pwm first _ _ _ =>
    if (if first then clk.CLKSEL3 &&& 1#32 <<< 6 else clk.CLKSEL3 &&& 1#32 <<< 7) = 0 then clk.HCLK
    else clk.pclk first
  | epwm first _ _ =>
    if (if first then clk.CLKSEL2 &&& 1#32 <<< 0 else clk.CLKSEL2 &&& 1#32 <<< 1) = 0 then clk.HCLK
    else clk.pclk first
  | tpwm _ _ => clk.TMRx_PWMCLK

/-- The clock that a set command works with. -/
def solved (clk : Clocks) : Channel → BitVec 32
  | pwm first _ _ _ => clk.toClocks.pwm first
  | epwm first _ _ => clk.toClocks.epwm first
  | tpwm i _ => clk.pclk (i.val < 2)

/-- The clock that a get command works with. -/
def clksr (clk : Clocks) : Channel → BitVec 32
  | pwm first _ _ _ => nu_pwm_clksr clk first
  | epwm _ _ _ => nu_epwm_clksr clk
  | tpwm i _ => TIMER_GetModuleClock clk i

/-- The width of the prescaler. -/
def bits : Channel → ℕ
  | pwm _ _ _ _ => 12
  | epwm _ _ _ => 12
  | tpwm _ _ => 8

/-- A set command: the fields of the channel after it, and what the get command after it returns. -/
def setGet (clk : Clocks) (r : Request) : Channel → Option (Fields × Option (BitVec 32 × BitVec 32))
  | pwm first dev ch _ => (nu_pwm_set clk first dev ch r.period r.pulse).map fun (_, dev) =>
    (pwmFields dev.base ch, nu_pwm_get clk first dev ch)
  | epwm first e ch =>
    (EpwmOut.nu_epwm_set e (clk.toClocks.epwm first).toNat ch r.period.toNat
      r.pulse.toNat).map fun (_, e) => (epwmFields e ch, nu_epwm_get clk e ch)
  | tpwm i base => (nu_tpwm_set clk i base r.period r.pulse).map fun (_, base) =>
    (tpwmFields base, nu_tpwm_get clk i base)

end Channel

/-- So many clocks of `c` Hz, in nanoseconds. -/
def nanoseconds (c clocks : ℕ) : ℕ := clocks * 1000000000 / c

/-- Within one percent of the period of `period` nanoseconds, `clocks` of `c` Hz are `ns`. -/
def Within (c period clocks ns : ℕ) : Prop :=
  100 * (clocks * 1000000000) ≤ 100 * (ns * c) + period * c ∧
    100 * (ns * c) ≤ 100 * (clocks * 1000000000) + period * c

/-- The period is one clock at least, and no more than the prescaler and the counter can count. -/
def InRange (bits c period : ℕ) : Prop :=
  1000000000 ≤ period * c ∧ period * c ≤ 2 ^ (bits + 16) * 1000000000

/-- The clocks in one period, and in one pulse. -/
def Fields.periodClocks (f : Fields) : ℕ := (f.prescale.toNat + 1) * (f.period.toNat + 1)
def Fields.pulseClocks (f : Fields) : ℕ := (f.prescale.toNat + 1) * f.pulse.toNat

/-- **Set and get agree**: the solver is called with a frequency and with the duty nearest below, and
if the period is within the range of the counter then a get command returns what is programmed, which
is what was set within one percent of the period. -/
structure Agrees (clk : Clocks) (x : Channel) (r : Request) : Prop where
  frequency : 1 ≤ (arguments r.period r.pulse).1.toNat
  duty : (arguments r.period r.pulse).2.toNat * r.period.toNat ≤ 100 * r.pulse.toNat ∧
    100 * r.pulse.toNat < ((arguments r.period r.pulse).2.toNat + 1) * r.period.toNat
  readback : InRange x.bits (x.source clk).toNat r.period.toNat →
    ∃ f period pulse, x.setGet clk r = some (f, some (period, pulse)) ∧
      period.toNat = nanoseconds (x.source clk).toNat f.periodClocks ∧
      pulse.toNat = nanoseconds (x.source clk).toNat f.pulseClocks ∧
      Within (x.source clk).toNat r.period.toNat f.periodClocks r.period.toNat ∧
      Within (x.source clk).toNat r.period.toNat f.pulseClocks r.pulse.toNat

/-! ### The request in numbers -/

/-- The duty in 32 bits is the one nearest below just if the product fits. -/
theorem duty_iff {p w : ℕ} (hp : 0 < p) (hp' : p < 2 ^ 32) :
    (100 * w % 2 ^ 32 / p * p ≤ 100 * w ∧ 100 * w < (100 * w % 2 ^ 32 / p + 1) * p) ↔
      100 * w < 2 ^ 32 := by
  have hlow := Nat.div_mul_le_self (100 * w % 2 ^ 32) p
  have hhigh := Nat.lt_div_mul_add (a := 100 * w % 2 ^ 32) hp
  rw [Nat.add_mul, Nat.one_mul]
  generalize 100 * w % 2 ^ 32 / p * p = a at hlow hhigh ⊢
  omega

section Arguments

variable {period pulse : BitVec 32}

theorem arguments_frequency (period pulse : BitVec 32) :
    (arguments period pulse).1.toNat = 1000000000 / period.toNat := by
  rw [arguments, BitVec.toNat_udiv]
  rfl

theorem arguments_duty (period pulse : BitVec 32) :
    (arguments period pulse).2.toNat = 100 * pulse.toNat % 2 ^ 32 / period.toNat := by
  rw [arguments, BitVec.toNat_udiv, BitVec.toNat_mul, Nat.mul_comm]
  rfl

end Arguments

theorem Request.pos' (r : Request) : 0 < r.period.toNat :=
  Nat.pos_of_ne_zero fun h => r.pos (BitVec.eq_of_toNat_eq h)

/-- The first divider that leaves fewer than `w` counts, and how many, or else what is taken for them. -/
def split (w last : ℕ) (otherwise : ℕ × ℕ) (q : ℕ) : ℕ × ℕ :=
  if q / w + 1 < last then (q / w + 1, q / (q / w + 1)) else otherwise

/-- The divider, the count and the mark that `q` clocks in a period and a duty of `d` percent come to.
The registers hold one less of the first two. -/
def pwmPlan (q d : ℕ) : Option (ℕ × ℕ × ℕ) :=
  let (k, n) := split 65537 0xFFF (0xFFF, 0xFFFF) q
  if n = 0 ∨ n = 65536 then none else some (k, n, d * n / 100)

/-- Where the divider was `pre` before, and coarser, the count is one of such units. -/
def epwmPlan (pre q d : ℕ) : Option (ℕ × ℕ × ℕ) :=
  let (k, n) := split 65536 0xFFF (0xFFF, 0xFFFF) q
  if n = 0 then none
  else if pre ≤ k then some (k, n, d * n / 100)
  else some (k, n * k / pre + 1, d * n / 100 * k / pre)

/-- A mark of `0x10000` does not fit. -/
def tpwmPlan (q d : ℕ) : Option (ℕ × ℕ × ℕ) :=
  let (k, n) := split 65537 0x101 (0x100, 0x10000) q
  if n = 0 then none else some (k, n, d * n / 100 % 65536)

def Channel.plan (q d : ℕ) : Channel → Option (ℕ × ℕ × ℕ)
  | .pwm _ _ _ _ => pwmPlan q d
  | .epwm _ e ch => epwmPlan (EpwmOut.EPWM_GET_PRESCALER e ch + 1) q d
  | .tpwm _ _ => tpwmPlan q d

/-- The registers for a divider, a count and a mark. -/
def fields : ℕ × ℕ × ℕ → Fields
  | (k, n, m) => ⟨BitVec.ofNat 32 (k - 1), BitVec.ofNat 32 (n - 1), BitVec.ofNat 32 m⟩

/-! ### The registers after a set command -/

section Registers

variable {clk : Clocks} {first : Bool} {f d : BitVec 32} {q : ℕ}

theorem eq_ofNat {a : BitVec 32} {n : ℕ} (h : a.toNat = n) : a = BitVec.ofNat 32 n := by
  rw [← h, BitVec.ofNat_toNat, BitVec.setWidth_eq]

/-- The registers, from their numbers. -/
theorem map_fields {α : Type*} {o : Option (α × BitVec 32)} {g : α → Fields} {c d k n : ℕ}
    (h : o.map (fun (regs, v) => (⟨(g regs).prescale.toNat, (g regs).period.toNat,
      (g regs).pulse.toNat, v.toNat⟩ : Result)) = some (result c d k n)) :
    o.map (fun (regs, _) => g regs) = some (fields (k, n, d * n / 100)) := by
  obtain ⟨⟨regs, v⟩, ho, hres⟩ := Option.map_eq_some_iff.1 h
  rw [result, Result.mk.injEq] at hres
  obtain ⟨hk, hn, hm, -⟩ := hres
  rw [ho, Option.map_some, fields, ← eq_ofNat hk, ← eq_ofNat hn, ← eq_ofNat hm]

/-- The divider and the count that are split off. -/
theorem split_bounds {w last : ℕ} {otherwise : ℕ × ℕ} (hw : 0 < w)
    (ho : 1 ≤ otherwise.1 ∧ otherwise.1 ≤ last ∧ otherwise.2 < w) (q : ℕ) :
    1 ≤ (split w last otherwise q).1 ∧ (split w last otherwise q).1 ≤ last ∧
      (split w last otherwise q).2 < w := by
  rw [split]
  split
  · next h =>
    exact ⟨Nat.succ_pos _, h.le, (div_lt_swap (Nat.succ_pos _) hw).2 (Nat.lt_succ_self _)⟩
  · exact ho

theorem prescale_split (c f : BitVec 32) : prescale c f 0xFFE 1 =
    (BitVec.ofNat 16 (split 65537 0xFFF (0xFFF, 0xFFFF) (c.toNat / f.toNat)).1,
      BitVec.ofNat 16 (split 65537 0xFFF (0xFFF, 0xFFFF) (c.toNat / f.toNat)).2) := by
  rw [Frequency.prescale_eq, split]
  split <;> rfl

theorem period_split (c f : BitVec 32) : Frequency.period c f 0x100 1 =
    (BitVec.ofNat 32 (split 65537 0x101 (0x100, 0x10000) (c.toNat / f.toNat)).1,
      BitVec.ofNat 32 (split 65537 0x101 (0x100, 0x10000) (c.toNat / f.toNat)).2) := by
  rw [Frequency.period_eq, split]
  split <;> rfl

theorem pwm_fields (regs : PWM_T) (ch : ℕ) (hf : f ≠ 0) (hd : d.toNat ≤ 100)
    (hq : (clk.toClocks.pwm first).toNat / f.toNat = q) :
    ((Frequency.PWM_ConfigOutputChannel clk.toClocks first regs ch f d).map fun (base, _) =>
        pwmFields base ch) =
      (pwmPlan q d.toNat).map fields := by
  have hs := prescale_split (clk.toClocks.pwm first) f
  have hspec := @split_bounds 65537 0xFFF (0xFFF, 0xFFFF) (by decide) (by decide) q
  rw [hq] at hs
  rw [pwmPlan]
  generalize split 65537 0xFFF (0xFFF, 0xFFFF) q = t at hs hspec ⊢
  obtain ⟨k, n⟩ := t
  dsimp only at hs hspec ⊢
  split
  · next h =>
    -- a count of `0x10000` is cut off to zero
    have hzero : BitVec.ofNat 16 n = 0 := by
      rcases h with rfl | rfl <;> rfl
    rw [hzero] at hs
    rw [Option.map_eq_none_iff.1 (Frequency.run_pwm_zero regs ch hf hs)]
    rfl
  · next h =>
    have hP : (BitVec.ofNat 16 k).toNat = k := Nat.mod_eq_of_lt (by omega)
    have hN : (BitVec.ofNat 16 n).toNat = n := Nat.mod_eq_of_lt (by omega)
    have hrun := Frequency.run_pwm regs ch hf hd (by omega) (by omega) hs
    rw [hP, hN] at hrun
    exact @map_fields _ (Frequency.PWM_ConfigOutputChannel clk.toClocks first regs ch f d)
      (fun base => pwmFields base ch) _ _ _ _ hrun

theorem tpwm_fields (regs : TIMER_T) (hf : f ≠ 0) (hd : d.toNat ≤ 100)
    (hq : (clk.pclk first).toNat / f.toNat = q) :
    ((TPWM_ConfigOutputFreqAndDuty clk.toClocks first regs f d).map fun (base, _) =>
        tpwmFields base) =
      (tpwmPlan q d.toNat).map fields := by
  have hs := period_split (clk.pclk first) f
  have hspec := @split_bounds 65537 0x101 (0x100, 0x10000) (by decide) (by decide) q
  rw [hq] at hs
  rw [tpwmPlan]
  generalize split 65537 0x101 (0x100, 0x10000) q = t at hs hspec ⊢
  obtain ⟨k, n⟩ := t
  dsimp only at hs hspec ⊢
  split
  · next h =>
    -- no count at all: the frequency that is returned divides by zero
    have hzero : udiv (clk.pclk first / BitVec.ofNat 32 k) (BitVec.ofNat 32 n) = none :=
      if_pos (by rw [h]; rfl)
    simp only [TPWM_ConfigOutputFreqAndDuty, Frequency.udiv_frequency hf, Option.bind_eq_bind,
      Option.bind_some, hs, hzero, Option.bind_none, Option.map_none]
  · next h =>
    have hP : (BitVec.ofNat 32 k).toNat = k := Nat.mod_eq_of_lt (by omega)
    have hN : (BitVec.ofNat 32 n).toNat = n := Nat.mod_eq_of_lt (by omega)
    have hrun := Frequency.run_tpwm regs hf hd (by omega) (by omega) hs
    rw [hP, hN] at hrun
    have hfields := @map_fields _ (TPWM_ConfigOutputFreqAndDuty clk.toClocks first regs f d)
      (fun base => ⟨base.PWMCLKPSC, base.PWMPERIOD, base.PWMCMPDAT⟩) _ _ _ _ hrun
    obtain ⟨⟨base, v⟩, hbase, hwords⟩ := Option.map_eq_some_iff.1 hfields
    rw [fields, Fields.mk.injEq] at hwords
    obtain ⟨hk, hn, hm⟩ := hwords
    -- the compare value in its field
    have hcut : ((BitVec.ofNat 32 (d.toNat * n / 100)).setWidth 16).setWidth 32 =
        BitVec.ofNat 32 (d.toNat * n / 100 % 65536) := by
      refine eq_ofNat ?_
      rw [BitVec.toNat_setWidth, BitVec.toNat_setWidth, BitVec.toNat_ofNat]
      omega
    rw [hbase, Option.map_some, Option.map_some, fields]
    dsimp only [tpwmFields]
    rw [hk, hn, hm, hcut]

theorem epwmFields_eq {e : EpwmOut.EPWM_T} {ch k n m : ℕ}
    (hk : EpwmOut.EPWM_GET_PRESCALER e ch = k - 1) (hn : EpwmOut.EPWM_GET_CNR e ch = n - 1)
    (hm : EpwmOut.EPWM_GET_CMR e ch = m) : epwmFields e ch = fields (k, n, m) := by
  have hpsc := (e.CLKPSC (ch / 2)).isLt
  have hper := (e.PERIOD ch).isLt
  have hcmp := (e.CMPDAT ch).isLt
  rw [epwmFields, fields, eq_ofNat (a := (e.CLKPSC (ch / 2)).setWidth 32) (n := k - 1),
    eq_ofNat (a := (e.PERIOD ch).setWidth 32) (n := n - 1),
    eq_ofNat (a := (e.CMPDAT ch).setWidth 32) (n := m)]
  · rw [BitVec.toNat_setWidth, Nat.mod_eq_of_lt (by omega)]
    exact hm
  · rw [BitVec.toNat_setWidth, Nat.mod_eq_of_lt (by omega)]
    exact hn
  · rw [BitVec.toNat_setWidth, Nat.mod_eq_of_lt (by omega)]
    exact hk

theorem epwm_fields (e : EpwmOut.EPWM_T) (ch : ℕ) {c f d : ℕ} (hf : f ≠ 0) (hd : d ≤ 100) :
    ((EpwmOut.EPWM_ConfigOutputChannel e c ch f d).map fun e₁ =>
        epwmFields (EpwmOut.rescale e₁ ch (EpwmOut.EPWM_GET_PRESCALER e ch)) ch) =
      (epwmPlan (EpwmOut.EPWM_GET_PRESCALER e ch + 1) (c / f) d).map fields := by
  have hs : EpwmOut.search (c / f) 0xFFE 1 = split 65536 0xFFF (0xFFF, 0xFFFF) (c / f) :=
    EpwmOut.search_eq (c / f)
  have hspec := @split_bounds 65536 0xFFF (0xFFF, 0xFFFF) (by decide) (by decide) (c / f)
  rw [EpwmOut.EPWM_ConfigOutputChannel, if_neg hf, hs, epwmPlan]
  generalize split 65536 0xFFF (0xFFF, 0xFFFF) (c / f) = t at hspec
  obtain ⟨k, n⟩ := t
  obtain ⟨hk, hk', hn⟩ := hspec
  dsimp only at hk hk' hn ⊢
  by_cases h0 : n = 0
  · rw [if_pos (by rw [h0, Nat.mul_zero]), if_pos h0]
    rfl
  · have hconf := EpwmOut.output_registers_configured e ch ⟨hk, by omega⟩
      ⟨Nat.pos_of_ne_zero h0, hn⟩ hd
    have hm : d * n / 100 < 65536 := Frequency.compare_lt hd hn
    obtain ⟨hpsc, hkept, hshrunk⟩ := hconf.rescale hn hm (EpwmOut.EPWM_GET_PRESCALER e ch)
    rw [if_neg (Nat.mul_ne_zero (by omega) h0), if_neg h0, Option.map_some]
    split
    · next hle =>
      obtain ⟨hcnr, hcmr⟩ := hkept (by omega)
      exact congrArg some (epwmFields_eq hpsc (by omega) hcmr)
    · next hgt =>
      obtain ⟨hcnr, hcmr⟩ := hshrunk (by omega)
      rw [Nat.sub_add_cancel hk] at hcnr hcmr
      exact congrArg some (epwmFields_eq hpsc hcnr hcmr)

end Registers

/-- A channel that is alone goes by the period of its request. -/
theorem used_of_alone {dev : nu_pwm} {ch : ℕ} (alone : ∀ k, k ≠ ch → dev.chn_mask.getLsbD k = false)
    (period : BitVec 32) : dev.used ch period = period := by
  have hne : pair ch ≠ ch := by
    rw [pair]
    split <;> omega
  have hmask : dev.chn_mask &&& 1#32 <<< pair ch = 0 := by
    by_contra h
    rw [← ne_eq, and_bit_ne_zero, alone _ hne] at h
    exact Bool.false_ne_true h
  rw [nu_pwm.used, nu_pwm.determined, hmask]
  rfl

/-- **The registers after a set command**, and what is made of them after it. -/
theorem setGet_eq (clk : Clocks) (x : Channel) (r : Request) (hp : r.period.toNat ≤ 1000000000)
    (hw : 100 * r.pulse.toNat < 2 ^ 32) :
    x.setGet clk r = (x.plan ((x.solved clk).toNat / (1000000000 / r.period.toNat))
      (100 * r.pulse.toNat / r.period.toNat)).map fun t =>
        (fields t, reported (x.clksr clk) (fields t)) := by
  have hfreq := arguments_frequency r.period r.pulse
  have hduty := arguments_duty r.period r.pulse
  rw [Nat.mod_eq_of_lt hw] at hduty
  have hpos : 0 < 1000000000 / r.period.toNat := Nat.div_pos hp r.pos'
  have hf : (arguments r.period r.pulse).1 ≠ 0 := by
    intro h
    rw [h] at hfreq
    exact absurd hfreq.symm hpos.ne'
  have hd : (arguments r.period r.pulse).2.toNat ≤ 100 := by
    rw [hduty]
    exact Nat.div_le_of_le_mul (by rw [Nat.mul_comm]; exact Nat.mul_le_mul_right 100 r.le)
  cases x with
  | pwm first dev ch alone =>
    have hset : Channel.setGet clk r (.pwm first dev ch alone) =
        ((Frequency.PWM_ConfigOutputChannel clk.toClocks first dev.base ch
          (arguments r.period r.pulse).1 (arguments r.period r.pulse).2).map fun (base, _) =>
            pwmFields base ch).map fun f => (f, reported (nu_pwm_clksr clk first) f) := by
      rw [Channel.setGet, nu_pwm_set, if_neg r.pos, used_of_alone alone]
      dsimp only
      rw [Option.map_map, Option.map_map]
      rfl
    rw [hset, pwm_fields dev.base ch hf hd rfl, hfreq, hduty, Option.map_map]
    rfl
  | epwm first e ch =>
    have hword : EpwmOut.u32 (r.pulse.toNat * 100) / r.period.toNat =
        100 * r.pulse.toNat / r.period.toNat := by
      rw [EpwmOut.u32, Nat.mul_comm, Nat.mod_eq_of_lt hw]
    have hset : Channel.setGet clk r (.epwm first e ch) =
        ((EpwmOut.EPWM_ConfigOutputChannel e (clk.toClocks.epwm first).toNat ch
          (1000000000 / r.period.toNat) (100 * r.pulse.toNat / r.period.toNat)).map fun e₁ =>
            epwmFields (EpwmOut.rescale e₁ ch (EpwmOut.EPWM_GET_PRESCALER e ch)) ch).map fun f =>
              (f, reported (nu_epwm_clksr clk) f) := by
      rw [Channel.setGet, EpwmOut.nu_epwm_set, if_neg r.pos'.ne', hword, Option.map_map, Option.map_map]
      rfl
    rw [hset, epwm_fields e ch hpos.ne' (hduty ▸ hd), Option.map_map]
    rfl
  | tpwm i base =>
    have hset : Channel.setGet clk r (.tpwm i base) =
        ((TPWM_ConfigOutputFreqAndDuty clk.toClocks (i.val < 2) base
          (arguments r.period r.pulse).1 (arguments r.period r.pulse).2).map fun (base, _) =>
            tpwmFields base).map fun f => (f, reported (TIMER_GetModuleClock clk i) f) := by
      rw [Channel.setGet, nu_tpwm_set, if_neg r.pos]
      dsimp only
      rw [Option.map_map, Option.map_map]
      rfl
    rw [hset, tpwm_fields base hf hd rfl, hfreq, hduty, Option.map_map]
    rfl

theorem plan_bounds {x : Channel} {q d k n m : ℕ} (hd : d ≤ 100) (h : x.plan q d = some (k, n, m)) :
    (1 ≤ k ∧ k ≤ 4096) ∧ (1 ≤ n ∧ n ≤ 65536) ∧ m < 65536 := by
  cases x with
  | pwm first dev ch alone =>
    have hs := @split_bounds 65537 0xFFF (0xFFF, 0xFFFF) (by decide) (by decide) q
    rw [Channel.plan, pwmPlan] at h
    generalize split 65537 0xFFF (0xFFF, 0xFFFF) q = t at h hs
    dsimp only at h hs
    split at h
    · exact nomatch h
    · next h0 =>
      simp only [Option.some.injEq, Prod.mk.injEq] at h
      obtain ⟨rfl, rfl, rfl⟩ := h
      exact ⟨by omega, by omega, Frequency.compare_lt hd (by omega)⟩
  | epwm first e ch =>
    have hs := @split_bounds 65536 0xFFF (0xFFF, 0xFFFF) (by decide) (by decide) q
    rw [Channel.plan, epwmPlan] at h
    generalize split 65536 0xFFF (0xFFF, 0xFFFF) q = t at h hs
    dsimp only at h hs
    split at h
    · exact nomatch h
    · next h0 =>
      have hm : d * t.2 / 100 < 65536 := Frequency.compare_lt hd hs.2.2
      split at h
      · simp only [Option.some.injEq, Prod.mk.injEq] at h
        obtain ⟨rfl, rfl, rfl⟩ := h
        exact ⟨by omega, by omega, hm⟩
      · next hpre =>
        simp only [Option.some.injEq, Prod.mk.injEq] at h
        obtain ⟨rfl, rfl, rfl⟩ := h
        -- the same in coarser units is less
        have hless (v : ℕ) : v * t.1 / (EpwmOut.EPWM_GET_PRESCALER e ch + 1) ≤ v := by
          refine Nat.div_le_of_le_mul ?_
          rw [Nat.mul_comm]
          exact Nat.mul_le_mul_right v (by omega)
        have hn := hless t.2
        have hm' := hless (d * t.2 / 100)
        exact ⟨by omega, ⟨Nat.succ_pos _, by omega⟩, by omega⟩
  | tpwm i base =>
    have hs := @split_bounds 65537 0x101 (0x100, 0x10000) (by decide) (by decide) q
    rw [Channel.plan, tpwmPlan] at h
    generalize split 65537 0x101 (0x100, 0x10000) q = t at h hs
    dsimp only at h hs
    split at h
    · exact nomatch h
    · next h0 =>
      simp only [Option.some.injEq, Prod.mk.injEq] at h
      obtain ⟨rfl, rfl, rfl⟩ := h
      exact ⟨by omega, by omega, Nat.mod_lt _ (by decide)⟩

/-! ### What is read back -/

section Reported

variable {k n m : ℕ} (hk : 1 ≤ k ∧ k ≤ 4096) (hn : 1 ≤ n ∧ n ≤ 65536) (hm : m < 65536)

include hk hn hm

theorem fields_clocks :
    (fields (k, n, m)).periodClocks = k * n ∧ (fields (k, n, m)).pulseClocks = k * m := by
  have hofNat {v : ℕ} (hv : v < 65536) : (BitVec.ofNat 32 v).toNat = v := Nat.mod_eq_of_lt (by omega)
  rw [Fields.periodClocks, Fields.pulseClocks, fields]
  dsimp only
  rw [hofNat (show k - 1 < 65536 by omega), hofNat (show n - 1 < 65536 by omega), hofNat hm,
    Nat.sub_add_cancel hk.1, Nat.sub_add_cancel hn.1]
  exact ⟨rfl, rfl⟩

/-- The products of three words are those of the numbers, as far as 32 bits go. -/
theorem reported_eq {src : BitVec 32} (hsrc : src ≠ 0) :
    ∃ period pulse, reported src (fields (k, n, m)) = some (period, pulse) ∧
      period.toNat = k * n * (1000000000000 / src.toNat) % 2 ^ 32 / 1000 ∧
      pulse.toNat = k * m * (1000000000000 / src.toNat) % 2 ^ 32 / 1000 := by
  have hlt := src.isLt
  have htick : ((1000000000000#64 / src.setWidth 64).setWidth 32).toNat =
      1000000000000 / src.toNat % 2 ^ 32 := by
    rw [BitVec.toNat_setWidth, BitVec.toNat_udiv, BitVec.toNat_setWidth,
      Nat.mod_eq_of_lt (show src.toNat < 2 ^ 64 by omega)]
    rfl
  have hsucc {v : ℕ} (hv : 1 ≤ v ∧ v ≤ 65536) : (BitVec.ofNat 32 (v - 1) + 1).toNat = v := by
    rw [BitVec.toNat_add, BitVec.toNat_ofNat, show (1 : BitVec 32).toNat = 1 from rfl]
    omega
  have hprod (a b : BitVec 32) {i j : ℕ} (ha : a.toNat = i) (hb : b.toNat = j) :
      (a * b * (1000000000000#64 / src.setWidth 64).setWidth 32 / 1000).toNat =
        i * j * (1000000000000 / src.toNat) % 2 ^ 32 / 1000 := by
    rw [BitVec.toNat_udiv, BitVec.toNat_mul, BitVec.toNat_mul, htick, ha, hb, ← Nat.mul_mod]
    rfl
  refine ⟨_, _, if_neg hsrc, ?_, ?_⟩
  · exact hprod _ _ (hsucc ⟨hk.1, by omega⟩) (hsucc hn)
  · exact hprod _ _ (hsucc ⟨hk.1, by omega⟩) (Nat.mod_eq_of_lt (by omega))

end Reported

/-- So many clocks are read back for what they are.  With the clock that they are of, the product has to
fit 32 bits and the cut of the tick must not show; with another clock it is by chance. -/
def Faithful (src get clocks : ℕ) : Prop :=
  if get = src then
    clocks * (1000000000000 / src) < 2 ^ 32 ∧
      clocks * (1000000000000 / src) % 1000 * src + clocks * (1000000000000 % src) < 1000 * src
  else clocks * (1000000000000 / get) % 2 ^ 32 / 1000 = nanoseconds src clocks

theorem faithful_clocks_iff {src : ℕ} (hsrc : 0 < src) (get clocks : ℕ) :
    clocks * (1000000000000 / get) % 2 ^ 32 / 1000 = nanoseconds src clocks ↔
      Faithful src get clocks := by
  rw [Faithful]
  split
  · next h =>
    have hcut := @mul_cut_div_eq_iff 1000000000 1000 src hsrc (by decide) clocks
    have hle := @mul_cut_div_le 1000000000 1000 src hsrc (by decide) clocks
    rw [h, nanoseconds]
    simp only [Nat.reduceMul] at hcut hle
    rw [← hcut]
    generalize clocks * (1000000000000 / src) = y at hle ⊢
    -- a product that has wrapped around is too small
    omega
  · exact Iff.rfl

/-! ### When they agree -/

/-- The frequency is a whole hertz at least and the duty fits 32 bits, and if the period is in range then
the clock that the get command goes by runs, and the clocks of the solver in whole hertz and whole
percent, counted by the counter, make the period and the pulse within one percent, and are read back. -/
def Channel.Fits (clk : Clocks) (x : Channel) (r : Request) : Prop :=
  r.period.toNat ≤ 1000000000 ∧ 100 * r.pulse.toNat < 2 ^ 32 ∧
    (InRange x.bits (x.source clk).toNat r.period.toNat →
      x.clksr clk ≠ 0 ∧ ∃ k n m,
        x.plan ((x.solved clk).toNat / (1000000000 / r.period.toNat))
          (100 * r.pulse.toNat / r.period.toNat) = some (k, n, m) ∧
        Faithful (x.source clk).toNat (x.clksr clk).toNat (k * n) ∧
        Faithful (x.source clk).toNat (x.clksr clk).toNat (k * m) ∧
        Within (x.source clk).toNat r.period.toNat (k * n) r.period.toNat ∧
        Within (x.source clk).toNat r.period.toNat (k * m) r.pulse.toNat)

theorem readback_iff_plan (clk : Clocks) (x : Channel) (r : Request)
    (hp : r.period.toNat ≤ 1000000000) (hw : 100 * r.pulse.toNat < 2 ^ 32)
    (hrange : InRange x.bits (x.source clk).toNat r.period.toNat) :
    (∃ f period pulse, x.setGet clk r = some (f, some (period, pulse)) ∧
        period.toNat = nanoseconds (x.source clk).toNat f.periodClocks ∧
        pulse.toNat = nanoseconds (x.source clk).toNat f.pulseClocks ∧
        Within (x.source clk).toNat r.period.toNat f.periodClocks r.period.toNat ∧
        Within (x.source clk).toNat r.period.toNat f.pulseClocks r.pulse.toNat) ↔
      x.clksr clk ≠ 0 ∧ ∃ k n m,
        x.plan ((x.solved clk).toNat / (1000000000 / r.period.toNat))
          (100 * r.pulse.toNat / r.period.toNat) = some (k, n, m) ∧
        Faithful (x.source clk).toNat (x.clksr clk).toNat (k * n) ∧
        Faithful (x.source clk).toNat (x.clksr clk).toNat (k * m) ∧
        Within (x.source clk).toNat r.period.toNat (k * n) r.period.toNat ∧
        Within (x.source clk).toNat r.period.toNat (k * m) r.pulse.toNat := by
  have hsrc : 0 < (x.source clk).toNat := by
    refine Nat.pos_of_ne_zero fun h0 => ?_
    have := hrange.1
    rw [h0, Nat.mul_zero] at this
    exact absurd this (by decide)
  have hd : 100 * r.pulse.toNat / r.period.toNat ≤ 100 :=
    Nat.div_le_of_le_mul (by rw [Nat.mul_comm]; exact Nat.mul_le_mul_right 100 r.le)
  rw [setGet_eq clk x r hp hw]
  constructor
  · rintro ⟨f, period, pulse, hset, hperiod, hpulse, hwithin, hwithin'⟩
    obtain ⟨⟨k, n, m⟩, hplan, ht⟩ := Option.map_eq_some_iff.1 hset
    rw [Prod.mk.injEq] at ht
    obtain ⟨rfl, hrep⟩ := ht
    obtain ⟨hk, hn, hm⟩ := plan_bounds hd hplan
    obtain ⟨hclocks, hclocks'⟩ := fields_clocks hk hn hm
    have hget : x.clksr clk ≠ 0 := by
      intro h0
      rw [reported, if_pos h0] at hrep
      exact nomatch hrep
    obtain ⟨P, W, hrep', hP, hW⟩ := reported_eq hk hn hm hget
    rw [hrep, Option.some.injEq, Prod.mk.injEq] at hrep'
    rw [hclocks] at hperiod hwithin
    rw [hclocks'] at hpulse hwithin'
    refine ⟨hget, k, n, m, hplan, ?_, ?_, hwithin, hwithin'⟩
    · rw [← faithful_clocks_iff hsrc, ← hP, ← hrep'.1, hperiod]
    · rw [← faithful_clocks_iff hsrc, ← hW, ← hrep'.2, hpulse]
  · rintro ⟨hget, k, n, m, hplan, hfaith, hfaith', hwithin, hwithin'⟩
    obtain ⟨hk, hn, hm⟩ := plan_bounds hd hplan
    obtain ⟨hclocks, hclocks'⟩ := fields_clocks hk hn hm
    obtain ⟨P, W, hrep, hP, hW⟩ := reported_eq hk hn hm hget
    refine ⟨fields (k, n, m), P, W, ?_, ?_, ?_, ?_, ?_⟩
    · rw [hplan, Option.map_some, hrep]
    · rw [hP, hclocks, faithful_clocks_iff hsrc]
      exact hfaith
    · rw [hW, hclocks', faithful_clocks_iff hsrc]
      exact hfaith'
    · exact hclocks.symm ▸ hwithin
    · exact hclocks'.symm ▸ hwithin'

/-- A board with all clocks at 12 MHz, `PCLK0` and `PCLK1` selected. -/
def board : Clocks :=
  { CLKSEL2 := 3, CLKSEL3 := 0xc0, PLL := 12000000, PCLK0 := 12000000, PCLK1 := 12000000,
    HCLK := 12000000, CLKSEL1 := 0x2222 <<< 8, TMRx_PWMCLK := 12000000 }

end Pwm.Readback
