/-
Hardware timers: `drv_timer.c`, `drv_ttmr.c` and the framework's `hwtimer.c`.

Each driver has a table of devices, which say what registers, interrupt and framework record are
theirs, and one record of limits for all of them.

* **`exec`** — a call on a device, from what it has access to;
* **`step`** — a step of the system: a call, or something the hardware of a timer does;
* **`State.view_put_of_ne`** — what a call on one device shows to another.
-/
import Mathlib.Logic.Function.Basic
import NuMaker.Lib.BitField

namespace Timer

/-! ### The timers and their clocks -/

/-- The timers, by their registers. -/
inductive Base | TIMER0 | TIMER1 | TIMER2 | TIMER3 | TTMR0 | TTMR1
  deriving DecidableEq, Repr

def __HXT : BitVec 32 := 12000000
def __LXT : BitVec 32 := 32768
def __LIRC : BitVec 32 := 32000
def __HIRC : BitVec 32 := 12000000
def __MIRC : BitVec 32 := 4000000

/-- What the clocks of the timers are selected by, `CLK->CLKSEL1` and `LPSCC->CLKSEL0`, and the
clocks of the buses. -/
structure Clocks where
  CLKSEL1 : BitVec 32
  CLKSEL0 : BitVec 32
  PCLK0 : BitVec 32
  PCLK1 : BitVec 32

def TIMER_au32Clk : List (BitVec 32) := [__HXT, __LXT, 0, 0, 0, __LIRC, 0, __HIRC]
def TTMR_au32Clk : List (BitVec 32) := [__HIRC, __MIRC, __LXT, __LIRC]

/-- A source of `TIMER_GetModuleClock`. -/
def TIMER_clock (pclk : BitVec 32) (u32Src : ℕ) : BitVec 32 :=
  if u32Src = 2 then pclk else TIMER_au32Clk.getD u32Src 0

/-- `TIMER_GetModuleClock` and `TTMR_GetModuleClock`. -/
def GetModuleClock (c : Clocks) : Base → BitVec 32
  | .TIMER0 => TIMER_clock c.PCLK0 (field c.CLKSEL1 8 3)
  | .TIMER1 => TIMER_clock c.PCLK0 (field c.CLKSEL1 12 3)
  | .TIMER2 => TIMER_clock c.PCLK1 (field c.CLKSEL1 16 3)
  | .TIMER3 => TIMER_clock c.PCLK1 (field c.CLKSEL1 20 3)
  | .TTMR0 => TTMR_au32Clk.getD (field c.CLKSEL0 4 2) 0
  | .TTMR1 => TTMR_au32Clk.getD (field c.CLKSEL0 6 2) 0

/-! ### The registers -/

structure Regs where
  CTL : BitVec 32
  CMP : BitVec 32
  INTSTS : BitVec 32
  CNT : BitVec 32
  EXTCTL : BitVec 32
  deriving DecidableEq, Repr

/-- The drivers. -/
inductive Driver | drv_timer | drv_ttmr
  deriving DecidableEq, Repr

def TIMER_CTL_PSC_Msk : BitVec 32 := 0xff
def TIMER_CTL_OPMODE_Msk : BitVec 32 := 3 <<< 27
def TIMER_CTL_INTEN_Msk : BitVec 32 := 1 <<< 29
def TIMER_CTL_CNTEN_Msk : BitVec 32 := 1 <<< 30
def TIMER_CNT_RSTACT_Msk : BitVec 32 := 1 <<< 31
def TIMER_INTSTS_TIF_Msk : BitVec 32 := 1
def TIMER_ONESHOT_MODE : BitVec 32 := 0 <<< 27
def TIMER_PERIODIC_MODE : BitVec 32 := 1 <<< 27

namespace Regs

variable (r : Regs)

/-- `TIMER_Open` and `TTMR_Open`; a quotient by zero is 0. -/
def Open (u32Clk u32Mode u32Freq : BitVec 32) : Regs :=
  if u32Clk / 2 < u32Freq then { r with CTL := u32Mode, CMP := 2 }
  else
    let u32Cmpr := u32Clk / u32Freq
    let u32Prescale := u32Cmpr >>> 24
    { r with
      CTL := u32Mode ||| u32Prescale
      CMP := if 0 < u32Prescale then u32Cmpr / (u32Prescale + 1) else u32Cmpr }

/-- `TIMER_Close` and `TTMR_Close`. -/
def Close : Driver → Regs
  | .drv_timer => { r with CTL := 0, EXTCTL := 0 }
  | .drv_ttmr => { r with CTL := 0 }

def EnableInt : Regs := { r with CTL := r.CTL ||| TIMER_CTL_INTEN_Msk }
def DisableInt : Regs := { r with CTL := r.CTL &&& ~~~TIMER_CTL_INTEN_Msk }
def Start : Regs := { r with CTL := r.CTL ||| TIMER_CTL_CNTEN_Msk }
def Stop : Regs := { r with CTL := r.CTL &&& ~~~TIMER_CTL_CNTEN_Msk }
def SET_CMP_VALUE (v : BitVec 32) : Regs := { r with CMP := v }
def SET_OPMODE (v : BitVec 32) : Regs :=
  { r with CTL := (r.CTL &&& ~~~TIMER_CTL_OPMODE_Msk) ||| v }
def SET_PRESCALE_VALUE (v : BitVec 32) : Regs :=
  { r with CTL := (r.CTL &&& ~~~TIMER_CTL_PSC_Msk) ||| v }
def GetIntFlag : Bool := r.INTSTS &&& TIMER_INTSTS_TIF_Msk ≠ 0
/-- Writing a 1 clears the flag. -/
def ClearIntFlag : Regs := { r with INTSTS := r.INTSTS &&& ~~~TIMER_INTSTS_TIF_Msk }

/-- `TIMER_ResetCounter`, which sets the bit in `CTL`, and `TTMR_ResetCounter`; neither driver looks at
how the wait ends. -/
def ResetCounter : Driver → Regs
  | .drv_timer => { r with CTL := r.CTL ||| TIMER_CNT_RSTACT_Msk }
  | .drv_ttmr => { r with CNT := r.CNT ||| TIMER_CNT_RSTACT_Msk }

end Regs

/-! ### The drivers -/

def RT_EOK : ℤ := 0
def RT_ERROR : ℤ := 1
def RT_EEMPTY : ℤ := 4
def RT_ENOSYS : ℤ := 6
def RT_EINVAL : ℤ := 10
def HWTIMER_MODE_ONESHOT : BitVec 32 := 1
def HWTIMER_MODE_PERIOD : BitVec 32 := 2

/-- `struct rt_hwtimer_info`, with the fields that are ever written; both are signed. -/
structure Info where
  maxfreq : BitVec 32
  minfreq : BitVec 32
  deriving DecidableEq, Repr

/-- `nu_timer_info` as it is initialised. -/
def nu_timer_info : Info := ⟨12000000, 46875⟩

/-- What the framework keeps of a device, `struct rt_hwtimer_device`. -/
structure Record where
  freq : BitVec 32
  overflow : BitVec 32
  cycles : BitVec 32
  reload : BitVec 32
  mode : BitVec 32
  deriving DecidableEq, Repr

/-- What a device has access to: the registers at its `base`, the limits of its driver, whether its
interrupt is enabled, and its record. -/
structure Local where
  regs : Regs
  info : Info
  irqn : Bool
  record : Record
  deriving DecidableEq, Repr

section Ops

variable (k : Driver) (clk : BitVec 32) (l : Local)

def nu_timer_init (state : BitVec 32) : Local :=
  if state = 1 then
    { l with
      info := ⟨clk, clk / 256⟩
      regs := (l.regs.Open clk TIMER_ONESHOT_MODE 1).EnableInt
      irqn := true }
  else { l with regs := l.regs.DisableInt.Close k, irqn := false }

/-- The modes of `nu_timer_start`. -/
def u32OpMode (opmode : BitVec 32) : Option (BitVec 32) :=
  if opmode = HWTIMER_MODE_PERIOD then some TIMER_PERIODIC_MODE
  else if opmode = HWTIMER_MODE_ONESHOT then some TIMER_ONESHOT_MODE
  else none

def nu_timer_start (cnt opmode : BitVec 32) : ℤ × Local :=
  if cnt ≤ 1 ∨ 0xFFFFFF < cnt then (-RT_EINVAL, l)
  else
    match u32OpMode opmode with
    | none => (-RT_EINVAL, l)
    | some u32OpMode =>
      (RT_EOK, { l with
        regs := (((l.regs.SET_CMP_VALUE cnt).SET_OPMODE u32OpMode).EnableInt).Start
        irqn := true })

def nu_timer_stop : Local :=
  { l with regs := (l.regs.DisableInt.Stop).ResetCounter k, irqn := false }

def nu_timer_count_get : BitVec 32 := l.regs.CNT

/-- The commands of `nu_timer_control`. -/
inductive OpCmd
  | FREQ_SET (f : BitVec 32)
  | STOP
  | other
  deriving DecidableEq, Repr

/-- `nu_timer_control`: the result, and what `*args` is then. -/
def nu_timer_control : OpCmd → (ℤ × BitVec 32) × Local
  | .FREQ_SET f =>
    let pre := clk / f - 1
    ((RT_EOK, clk / (pre + 1)), { l with regs := l.regs.SET_PRESCALE_VALUE pre })
  | .STOP => ((RT_EOK, 0), { l with regs := l.regs.Stop })
  | .other => ((-RT_EINVAL, 0), l)

/-! ### The framework -/

/-- `timeout_calc`, which computes in floating point: from the frequency and the time asked for, in
seconds and microseconds, the counter and the cycles. -/
abbrev TimeoutCalc := BitVec 32 → BitVec 32 × BitVec 32 → BitVec 32 × BitVec 32

def rt_hwtimer_init : Local :=
  let freq : BitVec 32 :=
    if (1000000 : BitVec 32).sle l.info.maxfreq ∧ l.info.minfreq.sle 1000000 then 1000000
    else l.info.minfreq
  nu_timer_init k clk
    { l with record := { l.record with
        freq := freq, mode := HWTIMER_MODE_ONESHOT, cycles := 0, overflow := 0 } } 1

def rt_hwtimer_open : Local :=
  let p := nu_timer_control clk l (.FREQ_SET l.record.freq)
  { p.2 with record := { p.2.record with freq := p.1.2 } }

def rt_hwtimer_close : Local := nu_timer_init k clk l 0

/-- `rt_hwtimer_read`, up to the conversion of the two into a time. -/
def rt_hwtimer_read : BitVec 32 × BitVec 32 := (nu_timer_count_get l, l.record.overflow)

def rt_hwtimer_write (timeout_calc : TimeoutCalc) (tv : BitVec 32 × BitVec 32) : ℤ × Local :=
  let l := nu_timer_stop k l
  let t := timeout_calc l.record.freq tv
  let l := { l with record := { l.record with overflow := 0, cycles := t.2, reload := t.2 } }
  let opm := if t.2.sle 1 ∧ l.record.mode = HWTIMER_MODE_ONESHOT then HWTIMER_MODE_ONESHOT
    else HWTIMER_MODE_PERIOD
  let p := nu_timer_start l t.1 opm
  (if p.1 ≠ RT_EOK then 0 else 8, p.2)

/-- The commands of `rt_hwtimer_control`, with what the argument points to. -/
inductive Cmd
  | STOP
  | FREQ_SET (f : Option (BitVec 32))
  | INFO_GET (given : Bool)
  | MODE_SET (m : Option (BitVec 32))
  | other
  deriving DecidableEq, Repr

/-- What a call gives back. -/
inductive Reply
  | done
  | ret (v : ℤ)
  | count (v : BitVec 32)
  | time (cnt overflow : BitVec 32)
  | freq (v : ℤ) (f : BitVec 32)
  | info (i : Info)
  deriving DecidableEq, Repr

def rt_hwtimer_control : Cmd → Reply × Local
  | .STOP => (.ret RT_EOK, nu_timer_stop k l)
  | .FREQ_SET none => (.ret (-RT_EEMPTY), l)
  | .FREQ_SET (some f) =>
    if l.info.maxfreq.slt f ∨ f.slt l.info.minfreq then (.freq (-RT_EINVAL) f, l)
    else
      let p := nu_timer_control clk l (.FREQ_SET f)
      (.freq p.1.1 p.1.2, if p.1.1 = RT_EOK then
        { p.2 with record := { p.2.record with freq := p.1.2 } } else p.2)
  | .INFO_GET false => (.ret (-RT_EEMPTY), l)
  | .INFO_GET true => (.info l.info, l)
  | .MODE_SET none => (.ret (-RT_EEMPTY), l)
  | .MODE_SET (some m) =>
    if m ≠ HWTIMER_MODE_ONESHOT ∧ m ≠ HWTIMER_MODE_PERIOD then (.ret (-RT_ERROR), l)
    else (.ret RT_EOK, { l with record := { l.record with mode := m } })
  | .other => (.ret (-RT_ENOSYS), l)

/-- `rt_device_hwtimer_isr`. -/
def rt_device_hwtimer_isr : Local :=
  let overflow := l.record.overflow + 1
  let cycles := if l.record.cycles ≠ 0 then l.record.cycles - 1 else 0
  if cycles = 0 then
    let l := { l with record := { l.record with overflow := overflow, cycles := l.record.reload } }
    if l.record.mode = HWTIMER_MODE_ONESHOT then nu_timer_stop k l else l
  else { l with record := { l.record with overflow := overflow, cycles := cycles } }

def nu_timer_isr : Local :=
  if l.regs.GetIntFlag then rt_device_hwtimer_isr k { l with regs := l.regs.ClearIntFlag } else l

end Ops

/-! ### Calls -/

/-- The calls of a device's operations, those of the framework on the device, and its interrupt. -/
inductive Call
  | init (state : BitVec 32)
  | start (cnt opmode : BitVec 32)
  | stop
  | count_get
  | control (cmd : OpCmd)
  | rt_init
  | rt_open
  | rt_close
  | rt_read
  | rt_write (tv : BitVec 32 × BitVec 32)
  | rt_control (cmd : Cmd)
  | isr
  deriving DecidableEq, Repr

section Calls

variable (timeout_calc : TimeoutCalc) (k : Driver) (clk : BitVec 32) (l : Local)

def exec : Call → Reply × Local
  | .init state => (.done, nu_timer_init k clk l state)
  | .start cnt opmode => (.ret (nu_timer_start l cnt opmode).1, (nu_timer_start l cnt opmode).2)
  | .stop => (.done, nu_timer_stop k l)
  | .count_get => (.count (nu_timer_count_get l), l)
  | .control cmd => (.freq (nu_timer_control clk l cmd).1.1 (nu_timer_control clk l cmd).1.2,
      (nu_timer_control clk l cmd).2)
  | .rt_init => (.ret RT_EOK, rt_hwtimer_init k clk l)
  | .rt_open => (.ret RT_EOK, rt_hwtimer_open clk l)
  | .rt_close => (.ret RT_EOK, rt_hwtimer_close k clk l)
  | .rt_read => (.time (rt_hwtimer_read l).1 (rt_hwtimer_read l).2, l)
  | .rt_write tv => (.ret (rt_hwtimer_write k l timeout_calc tv).1,
      (rt_hwtimer_write k l timeout_calc tv).2)
  | .rt_control cmd => rt_hwtimer_control k clk l cmd
  | .isr => (.done, nu_timer_isr k l)

end Calls

/-! ### The system -/

/-- The devices of the two tables. -/
inductive Device | timer0 | timer1 | timer2 | timer3 | ttmr0 | ttmr1
  deriving DecidableEq, Repr

/-- `nu_timer_arr` of both drivers: the `base` of each device. -/
def Device.base : Device → Base
  | timer0 => .TIMER0
  | timer1 => .TIMER1
  | timer2 => .TIMER2
  | timer3 => .TIMER3
  | ttmr0 => .TTMR0
  | ttmr1 => .TTMR0

/-- The driver in whose table the device is, and whose `nu_timer_info` its `info` points to. -/
def Device.driver : Device → Driver
  | timer0 | timer1 | timer2 | timer3 => .drv_timer
  | ttmr0 | ttmr1 => .drv_ttmr

/-- The registers of every timer, the limits of both drivers, and what the devices have besides. -/
structure State where
  regs : Base → Regs
  info : Driver → Info
  irqn : Device → Bool
  record : Device → Record

namespace State

variable (s : State) (d : Device)

/-- What a device has access to. -/
def view : Local := ⟨s.regs d.base, s.info d.driver, s.irqn d, s.record d⟩

/-- A change of that. -/
def put (l : Local) : State where
  regs := Function.update s.regs d.base l.regs
  info := Function.update s.info d.driver l.info
  irqn := Function.update s.irqn d l.irqn
  record := Function.update s.record d l.record

@[simp] theorem view_put (l : Local) : (s.put d l).view d = l := by
  simp only [view, put, Function.update_self]

/-- What a change shows to another device: the registers and the limits the two have in common. -/
theorem view_put_of_ne {d d' : Device} (hne : d ≠ d') {l : Local}
    (hregs : d.base = d'.base → l.regs = (s.view d').regs)
    (hinfo : d.driver = d'.driver → l.info = (s.view d').info) : (s.put d' l).view d = s.view d := by
  have hbase : Function.update s.regs d'.base l.regs d.base = s.regs d.base := by
    by_cases h : d.base = d'.base
    · rw [h, Function.update_self, hregs h]
      rfl
    · exact Function.update_of_ne h _ _
  have hdriver : Function.update s.info d'.driver l.info d.driver = s.info d.driver := by
    by_cases h : d.driver = d'.driver
    · rw [h, Function.update_self, hinfo h]
      rfl
    · exact Function.update_of_ne h _ _
  simp only [view, put, hbase, hdriver, Function.update_of_ne hne]

end State

/-- What happens: a call on a device, or something the hardware of a timer does to its registers. -/
inductive Event
  | call (d : Device) (c : Call)
  | hw (b : Base) (f : Regs → Regs)

/-- The clocks, and the calculation of the framework. -/
structure Env where
  clocks : Clocks
  timeout_calc : TimeoutCalc

variable (env : Env)

/-- A call on a device, in what it has access to. -/
def execOn (d : Device) (l : Local) (c : Call) : Reply × Local :=
  exec env.timeout_calc d.driver (GetModuleClock env.clocks d.base) l c

def step (s : State) : Event → State
  | .call d c => s.put d (execOn env d (s.view d) c).2
  | .hw b f => { s with regs := Function.update s.regs b (f (s.regs b)) }

/-- What an event gives back. -/
def reply (s : State) : Event → Reply
  | .call d c => (execOn env d (s.view d) c).1
  | .hw _ _ => .done

end Timer
