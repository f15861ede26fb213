/-
The watchdog driver: a long timeout counted in short ones.

The hardware interrupts after `MIN_CYCLES` cycles without a reset of its counter and resets the
chip `RESET_DELAY` cycles later.  The handler resets the counter, so many interrupts long, and
goes on after that if the application has fed the dog meanwhile.

* **`CONV_SEC_TO_IT`**, **`conv_bounds`** — seconds in interrupts, by floating point, and how far
  off that is;
* **`soft_time_setup`**, **`wdt_control`**, **`WDT_IRQHandler`** — the driver;
* **`run`** — the driver and its hardware, over any sequence of calls, interrupts and cycles.
-/
import Mathlib.Data.Rat.Floor
import NuMaker.Lib.Rounding

namespace Wdt

/-! ### Conversions -/

def MIN_CYCLES : ℕ := 1024

/-- What `WDT_RESET_DELAY_1026CLK` adds. -/
def RESET_DELAY : ℕ := 1026

/-- A `float`, of 24 binary digits. -/
def float (q : ℚ) : ℚ := roundTo 24 q

/-- The conversion to `int`, towards zero. -/
def toInt (q : ℚ) : ℤ := if 0 ≤ q then ⌊q⌋ else ⌈q⌉

def ROUND_TO_INTEGER (value : ℚ) : ℤ := toInt (float (float (float (value * 10) + 5) / 10))

/-- `CONV_SEC_TO_IT`; the product is unsigned. -/
def CONV_SEC_TO_IT (hz secs : BitVec 32) : ℤ :=
  ROUND_TO_INTEGER (float (float (secs * hz).toNat / float MIN_CYCLES))

/-- `CONV_IT_TO_SEC`; the product is an `int`. -/
def CONV_IT_TO_SEC (hz : BitVec 32) (iterations : ℤ) : ℤ :=
  ROUND_TO_INTEGER (float (float (BitVec.ofInt 32 (iterations * MIN_CYCLES)).toInt / float hz.toNat))

theorem le_float {q w : ℚ} (hq : 0 ≤ q) (hw : Representable 24 w) (h : w ≤ q) : w ≤ float q := by
  rcases hq.eq_or_lt with rfl | hq
  · rw [float, roundTo_zero]
    exact h
  · exact le_roundTo (by decide) hq hw h

theorem float_le {q w : ℚ} (hq : 0 ≤ q) (hw : Representable 24 w) (h : q ≤ w) : float q ≤ w := by
  rcases hq.eq_or_lt with rfl | hq
  · rw [float, roundTo_zero]
    exact h
  · exact roundTo_le (by decide) hq hw h

theorem float_eq {q : ℚ} (hq : 0 ≤ q) (h : Representable 24 q) : float q = q :=
  le_antisymm (float_le hq h (le_refl q)) (le_float hq h (le_refl q))

/-- Below 2²⁶ a `float` is off by 2 at most. -/
theorem abs_float_sub_le {q : ℚ} (hq : 0 ≤ q) (h : q < 67108864) : |float q - q| ≤ 2 := by
  rcases hq.eq_or_lt with rfl | hq
  · rw [float, roundTo_zero]
    norm_num
  · have hulp : ulp 24 q ≤ 2 ^ (2 : ℤ) := ulp_le hq (by norm_num; exact h)
    refine (abs_roundTo_sub_le 24 q).trans ?_
    norm_num at hulp
    linarith

theorem representable_nat {n : ℕ} (h : n ≤ 16777216) : Representable 24 n :=
  ⟨n, 0, by rw [abs_of_nonneg (by omega)]; norm_num; exact_mod_cast h, by simp⟩

/-- Rounding a number between two integers stays within two of them. -/
theorem round_bounds {v : ℚ} {n : ℕ} (hlow : n ≤ v) (hhigh : v ≤ n + 1) (hmax : n ≤ 4194304) :
    n ≤ ROUND_TO_INTEGER v ∧ ROUND_TO_INTEGER v ≤ n + 2 := by
  have hn0 : (0 : ℚ) ≤ n := Nat.cast_nonneg n
  have hn1 : (n : ℚ) ≤ 4194304 := by exact_mod_cast hmax
  have hb := abs_le.1 (abs_float_sub_le (q := v * 10) (by linarith) (by linarith))
  obtain ⟨b, hbdef⟩ : ∃ b, b = float (v * 10) := ⟨_, rfl⟩
  rw [← hbdef] at hb
  have hc := abs_le.1 (abs_float_sub_le (q := b + 5) (by linarith [hb.1]) (by linarith [hb.2]))
  obtain ⟨c, hcdef⟩ : ∃ c, c = float (b + 5) := ⟨_, rfl⟩
  rw [← hcdef] at hc
  have hc0 : 0 ≤ c / 10 := by linarith [hb.1, hc.1]
  have hd1 : (n : ℚ) ≤ float (c / 10) :=
    le_float hc0 (representable_nat (by omega)) (by linarith [hb.1, hc.1])
  have hd2 : float (c / 10) ≤ (n + 2 : ℕ) :=
    float_le hc0 (representable_nat (by omega)) (by push_cast; linarith [hb.2, hc.2])
  rw [ROUND_TO_INTEGER, ← hbdef, ← hcdef, toInt, if_pos (hn0.trans hd1)]
  refine ⟨Int.le_floor.2 (by exact_mod_cast hd1), ?_⟩
  have hfloor := (Int.floor_le _).trans hd2
  exact_mod_cast hfloor

/-- **Seconds in interrupts**, when the product fits: at least the whole ones, and up to two
more. -/
theorem conv_bounds {hz secs : BitVec 32} (h : secs.toNat * hz.toNat < 2 ^ 32) :
    (secs.toNat * hz.toNat / MIN_CYCLES : ℕ) ≤ CONV_SEC_TO_IT hz secs ∧
      CONV_SEC_TO_IT hz secs ≤ (secs.toNat * hz.toNat / MIN_CYCLES : ℕ) + 2 := by
  have hprod : (secs * hz).toNat = secs.toNat * hz.toNat := by
    rw [BitVec.toNat_mul, Nat.mod_eq_of_lt h]
  rw [CONV_SEC_TO_IT, hprod]
  generalize secs.toNat * hz.toNat = P at h
  obtain ⟨n, hn⟩ : ∃ n, n = P / MIN_CYCLES := ⟨_, rfl⟩
  rw [← hn]
  have hlow : 1024 * n ≤ P := by rw [hn, MIN_CYCLES]; omega
  have hhigh : P ≤ 1024 * (n + 1) := by rw [hn, MIN_CYCLES]; omega
  have hmax : n + 1 ≤ 4194304 := by rw [hn, MIN_CYCLES]; omega
  -- a number of periods has few enough digits
  have hrep : ∀ k : ℕ, k ≤ 16777216 → Representable 24 (1024 * k : ℕ) := fun k hk =>
    ⟨k, 10, by rw [abs_of_nonneg (by omega)]; norm_num; exact_mod_cast hk, by push_cast; ring⟩
  have hP : (0 : ℚ) ≤ P := Nat.cast_nonneg P
  have h1 : ((1024 * n : ℕ) : ℚ) ≤ float P := le_float hP (hrep n (by omega)) (by exact_mod_cast hlow)
  have h2 : float P ≤ (1024 * (n + 1) : ℕ) :=
    float_le hP (hrep (n + 1) (by omega)) (by exact_mod_cast hhigh)
  have hcyc : float MIN_CYCLES = 1024 := by
    have := float_eq (Nat.cast_nonneg 1024) (representable_nat (by omega : 1024 ≤ 16777216))
    exact_mod_cast this
  push_cast at h1 h2
  have h0 : 0 ≤ float P / 1024 := by
    have : (0 : ℚ) ≤ n := Nat.cast_nonneg n
    linarith
  rw [hcyc]
  refine round_bounds (le_float h0 (representable_nat (by omega)) (by linarith)) ?_ (by omega)
  have h3 : float (float P / 1024) ≤ (n + 1 : ℕ) :=
    float_le h0 (representable_nat (by omega)) (by push_cast; linarith)
  exact_mod_cast h3

/-! ### The driver -/

/-- `struct soft_time_handle`.  (The count goes below zero only once a window has expired.) -/
structure soft_time_handle where
  clock_hz : ℤ
  wanted_sec : ℤ
  report_sec : ℤ
  left_iterations : ℤ
  full_iterations : ℤ
  expired : Bool
  feed_dog : Bool
deriving DecidableEq

def soft_time_init : soft_time_handle := ⟨0, 0, 0, 0, 0, false, false⟩

def soft_time_setup (wanted_sec hz : BitVec 32) : soft_time_handle where
  expired := false
  feed_dog := false
  wanted_sec := wanted_sec.toInt
  full_iterations := CONV_SEC_TO_IT hz wanted_sec
  left_iterations := CONV_SEC_TO_IT hz wanted_sec
  report_sec := CONV_IT_TO_SEC hz (CONV_SEC_TO_IT hz wanted_sec)
  clock_hz := hz.toInt

def soft_time_feed_dog (s : soft_time_handle) : soft_time_handle := { s with feed_dog := true }

/-- The hardware: is it counting, the cycles since its counter was reset, and is its interrupt
pending? -/
structure Hardware where
  enabled : Bool
  count : ℕ
  pending : Bool
deriving DecidableEq, Repr

/-- The commands of `wdt_control`, with the argument of each; a buffer is given or null. -/
inductive Cmd
  | GET_TIMEOUT (args : Bool)
  | SET_TIMEOUT (wanted_sec : BitVec 32)
  | GET_TIMELEFT (args : Bool)
  | KEEPALIVE
  | START
  | STOP
  | other
deriving DecidableEq, Repr

def RT_EOK : ℤ := 0
def RT_ERROR : ℤ := 1
def RT_EINVAL : ℤ := 10

/-- What a call returns and writes to its buffer, and what it leaves. -/
structure Answer where
  ret : ℤ
  buf : Option ℤ
  soft : soft_time_handle
  hw : Hardware

def wdt_control (hz : BitVec 32) (cmd : Cmd) (s : soft_time_handle) (hw : Hardware) : Answer :=
  match cmd with
  | .GET_TIMEOUT args =>
    if args then ⟨-RT_EOK, some s.report_sec, s, hw⟩ else ⟨-RT_EINVAL, none, s, hw⟩
  | .SET_TIMEOUT wanted_sec =>
    if wanted_sec = 0 then ⟨-RT_EINVAL, none, s, hw⟩
    else ⟨-RT_EOK, none, soft_time_setup wanted_sec hz, hw⟩
  | .GET_TIMELEFT args =>
    if args then ⟨-RT_EOK, some (CONV_IT_TO_SEC hz s.left_iterations), s, hw⟩
    else ⟨-RT_EINVAL, none, s, hw⟩
  | .KEEPALIVE => ⟨-RT_EOK, none, soft_time_feed_dog s, hw⟩
  -- the counter is reset first
  | .START => ⟨-RT_EOK, none, s, { hw with enabled := true, count := 0 }⟩
  | .STOP => ⟨-RT_EOK, none, s, { hw with enabled := false }⟩
  | .other => ⟨-RT_ERROR, none, s, hw⟩

/-- `WDT_IRQHandler`: does it reset the counter, and what does it leave? -/
def WDT_IRQHandler (s : soft_time_handle) : Bool × soft_time_handle :=
  let s' := { s with left_iterations := s.left_iterations - 1 }
  if s.left_iterations > 0 then (true, s')
  else if s.feed_dog && !s.expired then
    (true, { s' with feed_dog := false, left_iterations := s.full_iterations })
  else (false, { s' with expired := true })

/-! ### Runs -/

/-- The driver and its hardware; with them, for the statements, the timeout that was set last, was
there a keepalive after it, and the cycles and the resets of the counter by the handler since the
later of the two. -/
structure World where
  soft : soft_time_handle
  hw : Hardware
  /-- The chip has been reset. -/
  reset : Bool
  wanted : BitVec 32
  kept : Bool
  since : ℕ
  fed : ℕ

/-- A call of `wdt_control`, a cycle of the watchdog's clock, or its interrupt if it is
pending. -/
inductive Event
  | control (cmd : Cmd)
  | tick
  | irq
deriving DecidableEq, Repr

/-- The cycle that raises the interrupt, and the one that resets the chip. -/
def World.tick (w : World) : World :=
  if w.hw.enabled then
    { w with
      hw := { w.hw with
        count := w.hw.count + 1
        pending := w.hw.pending || w.hw.count + 1 == MIN_CYCLES }
      reset := w.hw.count + 1 == MIN_CYCLES + RESET_DELAY
      since := w.since + 1 }
  else w

def World.irq (w : World) : World :=
  if w.hw.pending then
    let (resets, soft) := WDT_IRQHandler w.soft
    if resets then
      { w with
        soft := soft, fed := w.fed + 1
        hw := { w.hw with pending := false, count := 0 } }
    else { w with soft := soft, hw := { w.hw with pending := false } }
  else w

/-- What the statements keep of a call. -/
def World.note (cmd : Cmd) (w : World) : World :=
  match cmd with
  | .SET_TIMEOUT wanted_sec =>
    if wanted_sec = 0 then w
    else { w with wanted := wanted_sec, kept := false, since := 0, fed := 0 }
  | .KEEPALIVE => { w with kept := true, since := 0, fed := 0 }
  | _ => w

def World.answered (w : World) (a : Answer) : World := { w with soft := a.soft, hw := a.hw }

def World.control (hz : BitVec 32) (cmd : Cmd) (w : World) : World :=
  (w.answered (wdt_control hz cmd w.soft w.hw)).note cmd

/-- A chip that has been reset stays so here. -/
def World.step (hz : BitVec 32) (w : World) (e : Event) : World :=
  if w.reset then w
  else
    match e with
    | .control cmd => w.control hz cmd
    | .tick => w.tick
    | .irq => w.irq

/-- After `wdt_init`. -/
def World.boot : World := ⟨soft_time_init, ⟨false, 0, false⟩, false, 0, false, 0, 0⟩

/-- The events in turn. -/
def World.after (hz : BitVec 32) (w : World) (evs : List Event) : World := evs.foldl (World.step hz) w

def run (hz : BitVec 32) (evs : List Event) : World := World.boot.after hz evs

end Wdt
