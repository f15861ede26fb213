/-
Whether the timers are independent.

The table of `drv_ttmr.c` gives both of its devices the registers of TTMR0, and `nu_timer_init` writes
the limits that all devices of its driver share.

* **`exec_info`**, **`exec_regs`** — what the calls do to the limits, and which of them leave the
  registers alone;
* **`independent`** — where no other device's call writes what a device has in common with it, the
  run is for this device what it is without the others;
* **`not_independent`** — where one does, it shows.
-/
import NuMaker.Lib.Unwinding
import NuMaker.Timer.Driver

namespace Timer

/-! ### What the calls leave alone -/

/-- The calls that write the limits. -/
def Call.Inits : Call → Prop
  | .init state => state = 1
  | .rt_init => True
  | _ => False

/-- The calls that write no register. -/
def Call.Spares (l : Local) : Call → Prop
  | .start cnt opmode => cnt ≤ 1 ∨ 0xFFFFFF < cnt ∨ u32OpMode opmode = none
  | .count_get | .rt_read | .control .other => True
  | .rt_control (.FREQ_SET (some f)) => l.info.maxfreq.slt f ∨ f.slt l.info.minfreq
  | .rt_control .STOP => False
  | .rt_control _ => True
  | .isr => l.regs.GetIntFlag = false
  | _ => False

/-- The limits of a timer with this clock. -/
def limits (clk : BitVec 32) : Info := ⟨clk, clk / 256⟩

section Exec

variable (timeout_calc : TimeoutCalc) (k : Driver) (clk : BitVec 32) (l : Local)

theorem nu_timer_start_info (cnt opmode : BitVec 32) :
    (nu_timer_start l cnt opmode).2.info = l.info := by
  rw [nu_timer_start]
  split
  · rfl
  · split <;> rfl

/-- A start that is refused writes nothing. -/
theorem nu_timer_start_refused {cnt opmode : BitVec 32}
    (h : cnt ≤ 1 ∨ 0xFFFFFF < cnt ∨ u32OpMode opmode = none) :
    (nu_timer_start l cnt opmode).2 = l := by
  rw [nu_timer_start]
  split
  case isTrue => rfl
  case isFalse hcnt =>
    have hmode : u32OpMode opmode = none := (or_assoc.2 h).resolve_left hcnt
    rw [hmode]

theorem nu_timer_init_info (state : BitVec 32) : (nu_timer_init k clk l state).info =
    if state = 1 then limits clk else l.info := by
  rw [nu_timer_init]
  split <;> rfl

theorem rt_hwtimer_control_info (cmd : Cmd) :
    (rt_hwtimer_control k clk l cmd).2.info = l.info := by
  cases cmd with
  | STOP => rfl
  | other => rfl
  | INFO_GET given => cases given <;> rfl
  | FREQ_SET f =>
    cases f with
    | none => rfl
    | some f =>
      rw [rt_hwtimer_control]
      split <;> rfl
  | MODE_SET m =>
    cases m with
    | none => rfl
    | some m =>
      rw [rt_hwtimer_control]
      split <;> rfl

theorem rt_device_hwtimer_isr_info : (rt_device_hwtimer_isr k l).info = l.info := by
  simp only [rt_device_hwtimer_isr]
  generalize (if l.record.cycles ≠ 0 then l.record.cycles - 1 else 0) = cycles
  by_cases hcycles : cycles = 0
  · rw [if_pos hcycles]
    split <;> rfl
  · rw [if_neg hcycles]

/-- **The limits**: only an initialisation writes them, with those of its own clock. -/
theorem exec_info {c : Call} (h : c.Inits → l.info = limits clk) :
    (exec timeout_calc k clk l c).2.info = l.info := by
  cases c with
  | init state =>
    refine (nu_timer_init_info k clk l state).trans ?_
    split
    case isTrue hstate => exact (h hstate).symm
    case isFalse => rfl
  | start cnt opmode => exact nu_timer_start_info l cnt opmode
  | stop => rfl
  | count_get => rfl
  | control cmd => cases cmd <;> rfl
  | rt_init =>
    refine (nu_timer_init_info k clk _ 1).trans ?_
    rw [if_pos rfl, h trivial]
  | rt_open => rfl
  | rt_close => exact (nu_timer_init_info k clk l 0).trans (if_neg (by decide))
  | rt_read => rfl
  | rt_write tv => exact nu_timer_start_info _ _ _
  | rt_control cmd => exact rt_hwtimer_control_info k clk l cmd
  | isr =>
    show (nu_timer_isr k l).info = l.info
    rw [nu_timer_isr]
    split
    · exact rt_device_hwtimer_isr_info k _
    · rfl

/-- **The registers**: what is refused, and what only asks, writes none. -/
theorem exec_regs {c : Call} (h : c.Spares l) :
    (exec timeout_calc k clk l c).2.regs = l.regs := by
  cases c with
  | start cnt opmode => exact congrArg Local.regs (nu_timer_start_refused l h)
  | count_get => rfl
  | rt_read => rfl
  | control cmd =>
    cases cmd with
    | other => rfl
    | FREQ_SET f => exact h.elim
    | STOP => exact h.elim
  | rt_control cmd =>
    cases cmd with
    | STOP => exact h.elim
    | other => rfl
    | INFO_GET given => cases given <;> rfl
    | FREQ_SET f =>
      cases f with
      | none => rfl
      | some f =>
        show (rt_hwtimer_control k clk l (.FREQ_SET (some f))).2.regs = l.regs
        have hout : l.info.maxfreq.slt f ∨ f.slt l.info.minfreq := h
        rw [rt_hwtimer_control, if_pos hout]
    | MODE_SET m =>
      cases m with
      | none => rfl
      | some m =>
        show (rt_hwtimer_control k clk l (.MODE_SET (some m))).2.regs = l.regs
        rw [rt_hwtimer_control]
        split <;> rfl
  | isr =>
    show (nu_timer_isr k l).regs = l.regs
    rw [nu_timer_isr, if_neg (by rw [h]; exact Bool.false_ne_true)]
  | init state => exact h.elim
  | stop => exact h.elim
  | rt_init => exact h.elim
  | rt_open => exact h.elim
  | rt_close => exact h.elim
  | rt_write tv => exact h.elim

end Exec

/-! ### Runs -/

variable (env : Env)

/-- A device's own events: its calls, and what the hardware at its `base` does. -/
def own (d : Device) : Event → Bool
  | .call d' _ => d' = d
  | .hw b _ => b = d.base

/-- The events that do not touch what a device uses: its own apart, a call on a device with the same
`base` writes no register, and one that initialises a device of the same driver finds the limits of
its clock. -/
def Apart (d : Device) (s : State) : Event → Prop
  | .call d' c => d' = d ∨ ((d.base = d'.base → c.Spares (s.view d')) ∧
      (d.driver = d'.driver → c.Inits →
        s.info d'.driver = limits (GetModuleClock env.clocks d'.base)))
  | .hw _ _ => True

theorem view_hw_of_ne (s : State) {d : Device} {b : Base} (h : b ≠ d.base) (f : Regs → Regs) :
    (step env s (.hw b f)).view d = s.view d := by
  simp only [State.view, step, Function.update_of_ne (Ne.symm h)]

theorem view_of_apart {d : Device} {s : State} {e : Event} (h : Apart env d s e)
    (hown : own d e = false) : (step env s e).view d = s.view d := by
  cases e with
  | hw b f => exact view_hw_of_ne env s (of_decide_eq_false hown) f
  | call d' c =>
    have hne : d' ≠ d := of_decide_eq_false hown
    obtain ⟨hspares, hlimits⟩ := h.resolve_left hne
    refine State.view_put_of_ne s (Ne.symm hne) ?_ ?_
    · exact fun hbase => exec_regs _ _ _ _ (hspares hbase)
    · exact fun hdriver => exec_info _ _ _ _ (hlimits hdriver)

/-- A device's own events depend on what it has access to. -/
theorem closed (d : Device) :
    Unwinding.Closed (step env) (reply env) (own d) fun s => s.view d where
  step_eq {s t e} hown hview := by
    cases e with
    | call d' c =>
      obtain rfl : d' = d := of_decide_eq_true hown
      simp only [step, State.view_put, hview]
    | hw b f =>
      obtain rfl : b = d.base := of_decide_eq_true hown
      have hregs : s.regs d.base = t.regs d.base := congrArg Local.regs hview
      have hinfo : s.info d.driver = t.info d.driver := congrArg Local.info hview
      have hirqn : s.irqn d = t.irqn d := congrArg Local.irqn hview
      have hrecord : s.record d = t.record d := congrArg Local.record hview
      simp only [State.view, step, Function.update_self, hregs, hinfo, hirqn, hrecord]
  out_eq {s t e} hown hview := by
    cases e with
    | call d' c =>
      obtain rfl : d' = d := of_decide_eq_true hown
      simp only [reply, hview]
    | hw b f => rfl

/-- What a device's events give back along a run. -/
def replies (d : Device) (s : State) (es : List Event) : List Reply :=
  Unwinding.outputs (step env) (reply env) (own d) s es

/-- **Hardware timers are independent** along the runs whose events do not touch what a device uses:
its registers, limits, interrupt and record, and all it gives back, are what they are without the
other devices. -/
theorem independent (d : Device) (s : State) (es : List Event)
    (h : Guarded.Along (step env) (Apart env d) s es) :
    (es.foldl (step env) s).view d = ((es.filter (own d)).foldl (step env) s).view d ∧
      replies env d s es = replies env d s (es.filter (own d)) :=
  (closed env d).run_eq rfl (h.mono fun _ _ => view_of_apart env)

/-! ### Devices that are not -/

/-- As the system starts. -/
def atBoot : State where
  regs _ := ⟨0, 0, 0, 0, 0⟩
  info _ := nu_timer_info
  irqn _ := false
  record _ := ⟨0, 0, 0, 0, 0⟩

/-- All of the timers at 12 MHz but TIMER1, which is at 32 kHz. -/
def slowTIMER1 : Env where
  clocks := ⟨5 <<< 12, 0, 12000000, 12000000⟩
  timeout_calc _ _ := (0, 0)

/-- TIMER2 has the clock of TIMER0. -/
def sameClock : List Event :=
  [.call .timer0 .rt_init, .call .timer2 .rt_init, .call .timer0 (.start 1000 1),
    .call .timer2 .stop, .call .timer0 (.rt_control (.FREQ_SET (some 1000000)))]

/-- Opening TIMER2 does not show, as it does not change the limits. -/
theorem independent_timer0 :
    Guarded.Along (step slowTIMER1) (Apart slowTIMER1 .timer0) atBoot sameClock ∧
      replies slowTIMER1 .timer0 atBoot sameClock =
        replies slowTIMER1 .timer0 atBoot (sameClock.filter (own .timer0)) := by
  have h : Guarded.Along (step slowTIMER1) (Apart slowTIMER1 .timer0) atBoot sameClock := by
    refine ⟨Or.inl rfl, Or.inr ⟨fun h => ?_, fun _ _ => ?_⟩, Or.inl rfl,
      Or.inr ⟨fun h => ?_, fun _ h => h.elim⟩, Or.inl rfl, trivial⟩
    · exact absurd h (by decide)
    · decide +kernel
    · exact absurd h (by decide)
  exact ⟨h, (independent slowTIMER1 .timer0 atBoot sameClock h).2⟩

/-- TTMR0 is started, and ttmr1 is stopped. -/
def stopped : List Event :=
  [.call .ttmr0 .rt_init, .call .ttmr0 (.start 1000 1), .call .ttmr1 .stop]

/-- timer1 is opened before timer0 is set to 1 MHz. -/
def lowered : List Event :=
  [.call .timer0 .rt_init, .call .timer1 .rt_init,
    .call .timer0 (.rt_control (.FREQ_SET (some 1000000)))]

/-- **Devices that are not independent**: stopping ttmr1 stops TTMR0, and once timer1 is opened at
32 kHz, timer0 refuses the frequency it would have taken. -/
theorem not_independent :
    (stopped.foldl (step slowTIMER1) atBoot).view .ttmr0 ≠
      ((stopped.filter (own .ttmr0)).foldl (step slowTIMER1) atBoot).view .ttmr0 ∧
    replies slowTIMER1 .timer0 atBoot lowered ≠
      replies slowTIMER1 .timer0 atBoot (lowered.filter (own .timer0)) := by
  decide +kernel

end Timer
