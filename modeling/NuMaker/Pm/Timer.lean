/-
The time the system sleeps: `drv_clk.c`.

A 24-bit timer at 32768 Hz counts while the system sleeps; on waking, its count is converted to
ticks of the system, with the remainder carried to the next sleep, in 32-bit words.

* **`pm_timer_start`**, **`pm_timer_get_tick`** — the driver;
* **`ticks_sum`** — what the ticks of any sleeps add up to;
* **`no_drift_iff`** — the sleeps after which no time is missing;
* **`drifts`** — some after which it is.
-/
import NuMaker.Lib.Carry

namespace Pm

/-! ### The driver -/

def RT_TICK_PER_SECOND : BitVec 32 := 1000#32
def RT_TICK_MAX : BitVec 32 := 0xFFFFFFFF

/-- `TIMER_GetModuleClock` of the timer, which `hw_timer_init` clocks from the 32768 Hz crystal. -/
def __LXT : BitVec 32 := 32768#32

def pm_tick_from_os_tick (os_tick : BitVec 32) : BitVec 32 := __LXT * os_tick / RT_TICK_PER_SECOND

/-- The ticks of the system, and the new `os_tick_remain`. -/
def os_tick_from_pm_tick (pm_tick os_tick_remain : BitVec 32) : BitVec 32 × BitVec 32 :=
  ((pm_tick * RT_TICK_PER_SECOND + os_tick_remain) / __LXT,
    (os_tick_remain + pm_tick * RT_TICK_PER_SECOND) % __LXT)

/-- The compare value of the timer, if it is started. -/
def pm_timer_start (timeout : BitVec 32) : Option (BitVec 32) :=
  if timeout = RT_TICK_MAX then none else some (pm_tick_from_os_tick timeout)

/-- The timer's count has 24 bits. -/
def pm_timer_get_tick (count : BitVec 24) (os_tick_remain : BitVec 32) : BitVec 32 × BitVec 32 :=
  os_tick_from_pm_tick (count.setWidth 32) os_tick_remain

/-- A sleep: the timeout that is asked for, and the timer's count at the end. -/
structure Sleep where
  timeout : BitVec 32
  count : BitVec 24
deriving DecidableEq, Repr

/-- The ticks the system is advanced by after each of the sleeps. -/
def ticks : BitVec 32 → List Sleep → List ℕ
  | _, [] => []
  | os_tick_remain, s :: rest =>
    (pm_timer_get_tick s.count os_tick_remain).1.toNat ::
      ticks (pm_timer_get_tick s.count os_tick_remain).2 rest

/-! ### The ticks -/

/-- The counts of the sleeps, in thousandths. -/
def amounts (sleeps : List Sleep) : List ℕ := sleeps.map fun s => 1000 * s.count.toNat

/-- How often the conversion of a sleep wraps around. -/
def wraps : ℕ → List Sleep → ℕ
  | _, [] => 0
  | r, s :: rest =>
    (1000 * s.count.toNat + r) / 2 ^ 32 + wraps ((1000 * s.count.toNat + r) % 32768) rest

/-- One conversion: the remainder is right, and the ticks but for 131072 each time it wraps. -/
theorem get_tick_spec (count : BitVec 24) {r : BitVec 32} (hr : r.toNat < 32768) :
    (pm_timer_get_tick count r).1.toNat + 131072 * ((1000 * count.toNat + r.toNat) / 2 ^ 32) =
        (1000 * count.toNat + r.toNat) / 32768 ∧
      (pm_timer_get_tick count r).2.toNat = (1000 * count.toNat + r.toNat) % 32768 := by
  have hcount := count.isLt
  simp only [pm_timer_get_tick, os_tick_from_pm_tick, __LXT, RT_TICK_PER_SECOND, BitVec.toNat_udiv,
    BitVec.toNat_umod, BitVec.toNat_add, BitVec.toNat_mul, BitVec.toNat_setWidth, BitVec.toNat_ofNat,
    Nat.reducePow, Nat.reduceMod]
  omega

theorem ticks_add_wraps {r : BitVec 32} (hr : r.toNat < 32768) (sleeps : List Sleep) :
    (ticks r sleeps).sum + 131072 * wraps r.toNat sleeps =
      (carried 32768 r.toNat (amounts sleeps)).sum := by
  induction sleeps generalizing r with
  | nil => rfl
  | cons s rest ih =>
    obtain ⟨htick, hrem⟩ := get_tick_spec s.count hr
    have hrest := ih (r := (pm_timer_get_tick s.count r).2) (by rw [hrem]; omega)
    rw [hrem] at hrest
    rw [ticks, wraps, List.sum_cons, show amounts (s :: rest) = 1000 * s.count.toNat :: amounts rest
      from rfl, carried, List.sum_cons, ← htick, ← hrest]
    omega

/-- **What the ticks add up to**: the time that has passed, less 131072 for every time a
conversion wraps around. -/
theorem ticks_sum (sleeps : List Sleep) :
    (ticks 0 sleeps).sum + 131072 * wraps 0 sleeps = (amounts sleeps).sum / 32768 := by
  rw [show wraps 0 sleeps = wraps (0 : BitVec 32).toNat sleeps from rfl,
    ticks_add_wraps (by decide), sum_carried (by decide)]
  rfl

/-! ### No drift -/

/-- No conversion wraps around: a sleep's count, times 1000, and the fraction that is left of the
counts before it fit a word. -/
def Fits : ℕ → List Sleep → Prop
  | _, [] => True
  | before, s :: rest =>
    1000 * s.count.toNat + 1000 * before % 32768 < 2 ^ 32 ∧ Fits (before + s.count.toNat) rest

theorem wraps_eq_zero (before : ℕ) (sleeps : List Sleep) :
    wraps (1000 * before % 32768) sleeps = 0 ↔ Fits before sleeps := by
  induction sleeps generalizing before with
  | nil => exact ⟨fun _ => trivial, fun _ => rfl⟩
  | cons s rest ih =>
    have hrem : (1000 * s.count.toNat + 1000 * before % 32768) % 32768 =
        1000 * (before + s.count.toNat) % 32768 := by omega
    rw [wraps, Fits, hrem, Nat.add_eq_zero_iff, ih, Nat.div_eq_zero_iff_lt (by decide)]

/-- The compare value is one that the timer takes, and is reached no later than asked for. -/
def Compares (timeout cmp : BitVec 32) : Prop :=
  2 ≤ cmp.toNat ∧ cmp.toNat < 2 ^ 24 ∧ 1000 * cmp.toNat ≤ 32768 * timeout.toNat

theorem compares_iff (timeout : BitVec 32) :
    (∀ cmp ∈ pm_timer_start timeout, Compares timeout cmp) ↔ timeout.toNat % 131072 ≠ 0 := by
  have hlt := timeout.isLt
  have hval : (pm_tick_from_os_tick timeout).toNat = 32768 * timeout.toNat % 2 ^ 32 / 1000 := by
    simp only [pm_tick_from_os_tick, __LXT, RT_TICK_PER_SECOND, BitVec.toNat_udiv, BitVec.toNat_mul,
      BitVec.toNat_ofNat]
  -- the product wraps around with the timeout
  have hwrap : 32768 * timeout.toNat % 2 ^ 32 = 32768 * (timeout.toNat % 131072) :=
    Nat.mul_mod_mul_left 32768 timeout.toNat 131072
  rw [hwrap] at hval
  unfold pm_timer_start
  split
  · rename_i hmax
    rw [hmax]
    exact ⟨fun _ => by decide, fun _ cmp h => by cases h⟩
  · simp only [Option.mem_some_iff, forall_eq', Compares, hval]
    have hle := Nat.mod_le timeout.toNat 131072
    have hmod := Nat.mod_lt timeout.toNat (by decide : 131072 > 0)
    generalize timeout.toNat % 131072 = m at hle hmod ⊢
    omega

/-- **No time is missing** after the sleeps, and every compare value is good, exactly if no
conversion wraps around and no timeout is a multiple of 131072 ticks. -/
theorem no_drift_iff (sleeps : List Sleep) :
    ((ticks 0 sleeps).sum = (amounts sleeps).sum / 32768 ∧
      ∀ s ∈ sleeps, ∀ cmp ∈ pm_timer_start s.timeout, Compares s.timeout cmp) ↔
    Fits 0 sleeps ∧ ∀ s ∈ sleeps, s.timeout.toNat % 131072 ≠ 0 := by
  have hsum := ticks_sum sleeps
  have hwraps : wraps 0 sleeps = 0 ↔ Fits 0 sleeps := wraps_eq_zero 0 sleeps
  refine and_congr ?_ (forall₂_congr fun s _ => compares_iff s.timeout)
  rw [← hwraps]
  omega

/-- After 131071 ticks are asked for, and the system wakes a millisecond late, it is not advanced at
all; and for 131072 ticks the timer is given the compare value 0. -/
theorem drifts : (ticks 0 [⟨131071, 4294968⟩]).sum = 0 ∧
    (amounts [⟨131071, 4294968⟩]).sum / 32768 = 131072 ∧ pm_timer_start 131071 = some 4294934 ∧
    pm_timer_start 131072 = some 0 := by decide

end Pm
