/-
The delays that the core waits for on its SysTick.

`time k` is the count of SysTick clocks at the `k`-th read of a register, so that a run is given by
when the registers are read.  A delay may be short for two reasons: for what is loaded, or for what
is made of what is seen.

* **`CLK_SysTickDelay`**, **`CLK_SysTickLongDelay`**, **`rt_hw_us_delay`** — the three of them;
* **`wait_iff`** — what a wait for the count flag guarantees;
* **`usLoop_eq`** — the third one finds the first read by which it has seen enough;
* **`CLK_SysTickDelay_iff`**, **`CLK_SysTickLongDelay_iff`**, **`rt_hw_us_delay_iff`** — the requests
  for which they are never short;
* **`rt_hw_us_delay_configured`** — the same for the period that the board is configured for.
-/
import NuMaker.Clk.Ready
import NuMaker.Lib.Countdown
import Mathlib.Tactic

namespace Clk

/-- The globals that `SystemCoreClockUpdate` sets, for a core that runs. -/
structure Core where
  SystemCoreClock : BitVec 32
  running : SystemCoreClock ≠ 0

def Core.CyclesPerUs (core : Core) : BitVec 32 :=
  let CyclesPerUs := (core.SystemCoreClock + 500000) / 1000000
  if CyclesPerUs = 0 then 1 else CyclesPerUs

theorem Core.CyclesPerUs_ne_zero (core : Core) : core.CyclesPerUs.toNat ≠ 0 := by
  rw [Core.CyclesPerUs]
  split
  · decide
  · next h => exact fun hzero => h (BitVec.eq_of_toNat_eq hzero)

/-- So many counts of a clock of `clk` Hz take `us` microseconds at least. -/
def LongEnough (us clk counts : ℕ) : Prop := us * clk ≤ 1000000 * counts

theorem LongEnough.mono {us clk m n : ℕ} (h : LongEnough us clk m) (hmn : m ≤ n) :
    LongEnough us clk n :=
  le_trans h (Nat.mul_le_mul_left _ hmn)

/-! ### The waits for the count flag -/

/-- The loop on `COUNTFLAG`, from its `k`-th read on: the counter behind it, and the last read. -/
def waitCountFlag (COUNTFLAG : ℕ → Bool) (u32TimeOutCnt : BitVec 32) (k : ℕ) : BitVec 32 × ℕ :=
  if COUNTFLAG k then (u32TimeOutCnt, k)
  else if u32TimeOutCnt - 1 = 0 then (0, k)
  else waitCountFlag COUNTFLAG (u32TimeOutCnt - 1) (k + 1)
termination_by (u32TimeOutCnt - 1).toNat
decreasing_by bv_omega

/-- `COUNTFLAG` after `LOAD` and `VAL` have been written, of which `LOAD` has 24 bits.  A read clears
the flag, but none is made after one that shows it. -/
def COUNTFLAG (LOAD : BitVec 32) (time : ℕ → ℕ) (k : ℕ) : Bool :=
  (Countdown.after ⟨(LOAD.setWidth 24).toNat, 0, false⟩ (time k)).flag

/-- The part that both delays have in common, with the last read. -/
def waitSysTick (core : Core) (LOAD : BitVec 32) (time : ℕ → ℕ) : ℤ × ℕ :=
  let w := waitCountFlag (COUNTFLAG LOAD time) (core.SystemCoreClock * 2) 0
  (if w.1 = 0 then CLK_TIMEOUT_ERR else 0, w.2)

def CLK_SysTickDelay (core : Core) (us : BitVec 32) (time : ℕ → ℕ) : ℤ × ℕ :=
  waitSysTick core (us * core.CyclesPerUs) time

/-- What is left of `us` is looked at by nobody: both branches behind the wait return. -/
def CLK_SysTickLongDelay (core : Core) (us : BitVec 32) (time : ℕ → ℕ) : ℤ × ℕ :=
  let delay : BitVec 32 := if us > 349525 then 349525 else us
  waitSysTick core (delay * core.CyclesPerUs) time

/-- The counter is not zero behind the loop only if the last read has shown the flag. -/
theorem waitCountFlag_seen {F : ℕ → Bool} {u32TimeOutCnt : BitVec 32} {k : ℕ}
    (h : (waitCountFlag F u32TimeOutCnt k).1 ≠ 0) :
    F (waitCountFlag F u32TimeOutCnt k).2 = true := by
  fun_induction waitCountFlag F u32TimeOutCnt k with
  | case1 u32TimeOutCnt k hseen => exact hseen
  | case2 u32TimeOutCnt k hseen hzero => exact absurd rfl h
  | case3 u32TimeOutCnt k hseen hzero ih => exact ih h

/-- Twice anything is even, and one less is not zero. -/
theorem double_sub_one_ne_zero (c : BitVec 32) : c * 2 - 1 ≠ 0 := by
  bv_omega

theorem waitCountFlag_second {F : ℕ → Bool} (h0 : F 0 = false) (h1 : F 1 = true) (c : BitVec 32) :
    waitCountFlag F (c * 2) 0 = (c * 2 - 1, 1) := by
  rw [waitCountFlag, if_neg (by simp [h0]), if_neg (double_sub_one_ne_zero c), waitCountFlag,
    if_pos h1]

/-- Whenever the flag is read, what is reported as a success has taken `us` microseconds of the core
clock.  That there is an end is due to the counter. -/
def WaitNeverShort (core : Core) (us : ℕ) (delay : (ℕ → ℕ) → ℤ × ℕ) : Prop :=
  ∀ time : ℕ → ℕ, Monotone time → (delay time).1 = 0 →
    LongEnough us core.SystemCoreClock.toNat (time (delay time).2)

/-- **What a wait guarantees** is one count more than what is loaded. -/
theorem wait_iff (core : Core) (us : ℕ) (LOAD : BitVec 32) :
    WaitNeverShort core us (waitSysTick core LOAD) ↔
      LOAD.setWidth 24 = 0 ∨
        LongEnough us core.SystemCoreClock.toNat ((LOAD.setWidth 24).toNat + 1) := by
  have hret (time : ℕ → ℕ) : (waitSysTick core LOAD time).1 = 0 ↔
      (waitCountFlag (COUNTFLAG LOAD time) (core.SystemCoreClock * 2) 0).1 ≠ 0 := by
    rw [waitSysTick]
    split
    · next h => exact iff_of_false (show ¬ CLK_TIMEOUT_ERR = 0 by decide) (not_not_intro h)
    · next h => exact iff_of_true rfl h
  have hzero : LOAD.setWidth 24 = 0 ↔ (LOAD.setWidth 24).toNat = 0 := by
    rw [← BitVec.toNat_inj, BitVec.ofNat_eq_ofNat, BitVec.toNat_ofNat, Nat.zero_mod]
  constructor
  · intro h
    by_cases hload : LOAD.setWidth 24 = 0
    · exact Or.inl hload
    -- the flag is not up at once, and is read again just when it goes up
    let time (k : ℕ) : ℕ := if k = 0 then 0 else (LOAD.setWidth 24).toNat + 1
    have hmono : Monotone time := by
      refine monotone_nat_of_le_succ fun k => ?_
      show (if k = 0 then 0 else _) ≤ if k + 1 = 0 then 0 else _
      rw [if_neg (Nat.succ_ne_zero k)]
      split
      · exact Nat.zero_le _
      · exact le_rfl
    have h0 : COUNTFLAG LOAD time 0 = false := rfl
    have h1 : COUNTFLAG LOAD time 1 = true :=
      (Countdown.flag_after _ _).2 ⟨fun h => hload (hzero.2 h), le_rfl⟩
    have hw := waitCountFlag_second h0 h1 core.SystemCoreClock
    have hlong := h time hmono ((hret time).2 (by rw [hw]; exact double_sub_one_ne_zero _))
    rw [waitSysTick, hw] at hlong
    exact Or.inr hlong
  · intro h time _ h0
    have hflag := waitCountFlag_seen ((hret time).1 h0)
    obtain ⟨hload, hle⟩ := (Countdown.flag_after _ _).1 hflag
    exact (h.resolve_left fun h => hload (hzero.1 h)).mono hle

/-- The request that one loading of `LOAD` can hold is never short if it is loaded exactly enough. -/
theorem CLK_SysTickDelay_iff (core : Core) (us : BitVec 32)
    (hold : us.toNat * core.CyclesPerUs.toNat < 2 ^ 24) :
    WaitNeverShort core us.toNat (CLK_SysTickDelay core us) ↔
      LongEnough us.toNat core.SystemCoreClock.toNat (us.toNat * core.CyclesPerUs.toNat + 1) := by
  have hload : ((us * core.CyclesPerUs).setWidth 24).toNat = us.toNat * core.CyclesPerUs.toNat := by
    rw [BitVec.toNat_setWidth, BitVec.toNat_mul, Nat.mod_mod_of_dvd _ (by decide),
      Nat.mod_eq_of_lt hold]
  refine (wait_iff core us.toNat (us * core.CyclesPerUs)).trans ?_
  rw [hload]
  refine ⟨fun h => h.elim (fun hzero => ?_) id, Or.inr⟩
  -- nothing is loaded for no microseconds only
  have hmul : us.toNat * core.CyclesPerUs.toNat = 0 := by
    rw [← hload, hzero]
    rfl
  have hus : us.toNat = 0 := (Nat.mul_eq_zero.mp hmul).resolve_right core.CyclesPerUs_ne_zero
  rw [hus, LongEnough, Nat.zero_mul]
  exact Nat.zero_le _

/-- What the first round of the long delay loads, of the request that is cut to 349525. -/
def firstRound (core : Core) (us : ℕ) : ℕ := min us 349525 * core.CyclesPerUs.toNat % 2 ^ 24

theorem CLK_SysTickLongDelay_iff (core : Core) (us : BitVec 32) :
    WaitNeverShort core us.toNat (CLK_SysTickLongDelay core us) ↔
      firstRound core us.toNat = 0 ∨
        LongEnough us.toNat core.SystemCoreClock.toNat (firstRound core us.toNat + 1) := by
  have hdelay : (if us > 349525 then 349525 else us : BitVec 32).toNat = min us.toNat 349525 := by
    split
    · next h =>
      have hlt : 349525 < us.toNat := h
      exact (Nat.min_eq_right hlt.le).symm
    · next h =>
      have hle : ¬ 349525 < us.toNat := h
      exact (Nat.min_eq_left (Nat.le_of_not_lt hle)).symm
  have hload : (((if us > 349525 then 349525 else us : BitVec 32) * core.CyclesPerUs).setWidth
      24).toNat = firstRound core us.toNat := by
    rw [BitVec.toNat_setWidth, BitVec.toNat_mul, hdelay, Nat.mod_mod_of_dvd _ (by decide)]
    rfl
  refine (wait_iff core us.toNat _).trans ?_
  rw [← hload, BitVec.toNat_eq]
  exact Iff.rfl

/-! ### The wait on the running counter -/

def RT_TICK_PER_SECOND : BitVec 32 := 1000

/-- The loop from the `k`-th read of `VAL` on: the read by which enough has been counted. -/
def usLoop (reload ticks : BitVec 32) (VAL : ℕ → BitVec 32) :
    ℕ → BitVec 32 → BitVec 32 → ℕ → Option ℕ
  | 0, _, _, _ => none
  | fuel + 1, told, tcnt, k =>
    let tnow := VAL k
    if tnow = told then usLoop reload ticks VAL fuel told tcnt (k + 1)
    else
      let tcnt := if tnow < told then tcnt + (told - tnow) else tcnt + (reload - tnow + told)
      if tcnt ≥ ticks then some k else usLoop reload ticks VAL fuel tnow tcnt (k + 1)

def rt_hw_us_delay (us reload : BitVec 32) (VAL : ℕ → BitVec 32) (fuel : ℕ) : Option ℕ :=
  let ticks := us * reload / (1000000 / RT_TICK_PER_SECOND)
  usLoop reload ticks VAL fuel (VAL 0) 0 1

/-- The reads of a SysTick that runs with `reload` and stands at `val` at first. -/
def VAL (reload : BitVec 24) (val : ℕ) (time : ℕ → ℕ) (k : ℕ) : BitVec 32 :=
  BitVec.ofNat 32 (Countdown.after ⟨reload.toNat, val, false⟩ (time k)).val

/-- Reads that go on for ever, each less than one period of the counter after the one before. -/
structure Sampling (reload : ℕ) (time : ℕ → ℕ) : Prop where
  mono : Monotone time
  unbounded : ∀ t, ∃ k, t ≤ time k
  near : reload ≠ 0 → ∀ k, time (k + 1) ≤ time k + reload

/-- The counts that a request is turned into. -/
def ticksOf (us reload : ℕ) : ℕ := us * reload % 2 ^ 32 / 1000

section Loop

variable {reload : BitVec 24} {val : ℕ} {time : ℕ → ℕ} {ticks : BitVec 32}

/-- The phase of the counter at the `k`-th read. -/
def phase (reload : BitVec 24) (val : ℕ) (time : ℕ → ℕ) (k : ℕ) : ℕ := reload.toNat - val + time k

theorem VAL_toNat (hval : val ≤ reload.toNat) (time : ℕ → ℕ) (k : ℕ) :
    (VAL reload val time k).toNat =
      reload.toNat - phase reload val time k % (reload.toNat + 1) := by
  have hafter : (Countdown.after ⟨reload.toNat, val, false⟩ (time k)).val =
      reload.toNat - phase reload val time k % (reload.toNat + 1) :=
    Countdown.val_after (c := ⟨reload.toNat, val, false⟩) hval (time k)
  have hlt := reload.isLt
  rw [VAL, BitVec.toNat_ofNat, hafter, Nat.mod_eq_of_lt (by omega)]

/-- The counter has moved since the first read, and as much as `ticks` has been seen of it. -/
def Due (reload : BitVec 24) (val : ℕ) (time : ℕ → ℕ) (ticks k : ℕ) : Prop :=
  phase reload val time k ≠ phase reload val time 0 ∧
    Countdown.seen reload.toNat (phase reload val time 0) + ticks ≤
      Countdown.seen reload.toNat (phase reload val time k)

instance (reload : BitVec 24) (val : ℕ) (time : ℕ → ℕ) (ticks : ℕ) :
    DecidablePred (Due reload val time ticks) :=
  fun _ => inferInstanceAs (Decidable (_ ∧ _))

/-- **What one change of the value adds** is what is seen of the counter in between. -/
theorem added {told tnow tcnt : BitVec 32} {φ ψ : ℕ} (hle : φ ≤ ψ) (hnear : ψ ≤ φ + reload.toNat)
    (hne : ψ ≠ φ) (htold : told.toNat = reload.toNat - φ % (reload.toNat + 1))
    (htnow : tnow.toNat = reload.toNat - ψ % (reload.toNat + 1)) (htcnt : tcnt.toNat < 2 ^ 31) :
    (if tnow < told then tcnt + (told - tnow)
      else tcnt + (reload.setWidth 32 - tnow + told)).toNat + Countdown.seen reload.toNat φ =
        tcnt.toNat + Countdown.seen reload.toNat ψ := by
  have hφ := Countdown.seen_add_div reload.toNat φ
  have hψ := Countdown.seen_add_div reload.toNat ψ
  have hφle := Countdown.mod_le φ reload.toNat
  have hψle := Countdown.mod_le ψ reload.toNat
  have hload : (reload.setWidth 32).toNat = reload.toNat := by
    rw [BitVec.toNat_setWidth, Nat.mod_eq_of_lt (by omega)]
  have hlt : tnow < told ↔ ψ / (reload.toNat + 1) = φ / (reload.toNat + 1) := by
    rw [BitVec.lt_def, htold, htnow]
    exact Countdown.val_lt_iff hle hnear hne
  have hreload := reload.isLt
  by_cases h : tnow < told
  · have hsum : (tcnt + (told - tnow)).toNat = tcnt.toNat + (told.toNat - tnow.toNat) := by
      bv_omega
    rw [if_pos h, hsum]
    rcases Countdown.div_of_near hle hnear with ⟨hq, hm⟩ | ⟨hq, hm⟩
    · omega
    · exact absurd (hlt.1 h) (by omega)
  · have hsum : (tcnt + (reload.setWidth 32 - tnow + told)).toNat =
        tcnt.toNat + (reload.toNat - tnow.toNat + told.toNat) := by
      rw [← hload] at htold htnow hreload ⊢
      bv_omega
    rw [if_neg h, hsum]
    rcases Countdown.div_of_near hle hnear with ⟨hq, hm⟩ | ⟨hq, hm⟩
    · exact absurd (hlt.2 hq) h
    · omega

/-- What has been seen by the `k`-th read, before enough has: no sum is near the end of its range. -/
theorem tcnt_lt {tcnt : BitVec 32} {k : ℕ} (hdue : ¬ Due reload val time ticks.toNat k)
    (hticks : ticks.toNat < 2 ^ 31)
    (htcnt : tcnt.toNat + Countdown.seen reload.toNat (phase reload val time 0) =
      Countdown.seen reload.toNat (phase reload val time k)) : tcnt.toNat < 2 ^ 31 := by
  by_cases h : phase reload val time k = phase reload val time 0
  · rw [h] at htcnt
    omega
  · have hlt := not_and.mp hdue h
    omega

/-- **The loop looks for the first read by which enough has been seen.** -/
theorem usLoop_eq (hval : val ≤ reload.toNat) (hmono : Monotone time)
    (hnear : ∀ k, time (k + 1) ≤ time k + reload.toNat) (hticks : ticks.toNat < 2 ^ 31)
    (fuel : ℕ) {k : ℕ} {tcnt : BitVec 32} (hdue : ¬ Due reload val time ticks.toNat k)
    (htcnt : tcnt.toNat + Countdown.seen reload.toNat (phase reload val time 0) =
      Countdown.seen reload.toNat (phase reload val time k)) :
    usLoop (reload.setWidth 32) ticks (VAL reload val time) fuel (VAL reload val time k) tcnt
        (k + 1) =
      (List.range' (k + 1) fuel).find? (Due reload val time ticks.toNat) := by
  induction fuel generalizing k tcnt with
  | zero => rfl
  | succ fuel ih =>
    have hle : phase reload val time k ≤ phase reload val time (k + 1) :=
      Nat.add_le_add_left (hmono (Nat.le_succ k)) _
    have hstep : phase reload val time (k + 1) ≤ phase reload val time k + reload.toNat := by
      rw [phase, phase, Nat.add_assoc]
      exact Nat.add_le_add_left (hnear k) _
    have heq : VAL reload val time (k + 1) = VAL reload val time k ↔
        phase reload val time (k + 1) = phase reload val time k := by
      rw [← BitVec.toNat_inj, VAL_toNat hval, VAL_toNat hval]
      exact Countdown.val_eq_iff hle hstep
    rw [usLoop, List.range'_succ]
    dsimp only
    by_cases h : VAL reload val time (k + 1) = VAL reload val time k
    · -- the counter has not moved, nor has anything become due
      have hphase := heq.1 h
      have hdue' : ¬ Due reload val time ticks.toNat (k + 1) := by
        rwa [Due, hphase]
      rw [if_pos h, List.find?_cons_of_neg (by simpa using hdue'), ← ih hdue' (by rwa [hphase]), h]
    · have hphase : phase reload val time (k + 1) ≠ phase reload val time k := fun h' => h (heq.2 h')
      have hadd := added hle hstep hphase (VAL_toNat hval time k) (VAL_toNat hval time (k + 1))
        (tcnt_lt hdue hticks htcnt)
      rw [if_neg h]
      generalize (if VAL reload val time (k + 1) < VAL reload val time k then
        tcnt + (VAL reload val time k - VAL reload val time (k + 1))
        else tcnt + (reload.setWidth 32 - VAL reload val time (k + 1) + VAL reload val time k))
          = tcnt' at hadd
      have htcnt' : tcnt'.toNat + Countdown.seen reload.toNat (phase reload val time 0) =
          Countdown.seen reload.toNat (phase reload val time (k + 1)) := by
        omega
      have hmoved : phase reload val time (k + 1) ≠ phase reload val time 0 := by
        have h0 : phase reload val time 0 ≤ phase reload val time k :=
          Nat.add_le_add_left (hmono (Nat.zero_le k)) _
        omega
      have hiff : Due reload val time ticks.toNat (k + 1) ↔ tcnt' ≥ ticks := by
        rw [Due, and_iff_right hmoved, ge_iff_le, BitVec.le_def]
        omega
      by_cases hge : tcnt' ≥ ticks
      · rw [if_pos hge, List.find?_cons_of_pos (by simpa using hiff.2 hge)]
      · have hdue' := hiff.not.2 hge
        rw [if_neg hge, List.find?_cons_of_neg (by simpa using hdue'), ih hdue' htcnt']

end Loop

/-- It ends, and not before `us` microseconds of the core clock, wherever the counter stands at first
and whenever it is read. -/
def UsNeverShort (core : Core) (us : BitVec 32) (reload : BitVec 24) : Prop :=
  ∀ (val : ℕ) (time : ℕ → ℕ), val ≤ reload.toNat → Sampling reload.toNat time →
    (∃ fuel, (rt_hw_us_delay us (reload.setWidth 32) (VAL reload val time) fuel).isSome) ∧
    ∀ fuel n, rt_hw_us_delay us (reload.setWidth 32) (VAL reload val time) fuel = some n →
      LongEnough us.toNat core.SystemCoreClock.toNat (time n - time 0)

section Delay

variable {reload : BitVec 24} {val : ℕ} {time : ℕ → ℕ} {us : BitVec 32}

/-- The counts that are guaranteed: the counter has to move, and what is seen is `ticksOf` at least. -/
def guaranteed (us reload : ℕ) : ℕ := max 1 (Countdown.least reload (ticksOf us reload))

theorem ticks_toNat (us : BitVec 32) (reload : BitVec 24) :
    (us * reload.setWidth 32 / (1000000 / RT_TICK_PER_SECOND)).toNat =
      ticksOf us.toNat reload.toNat := by
  have hreload := reload.isLt
  have hload : (reload.setWidth 32).toNat = reload.toNat := by
    rw [BitVec.toNat_setWidth, Nat.mod_eq_of_lt (by omega)]
  rw [BitVec.toNat_udiv, BitVec.toNat_mul, hload]
  rfl

theorem ticksOf_lt (us reload : ℕ) : ticksOf us reload < 2 ^ 31 := by
  rw [ticksOf]
  omega

theorem rt_hw_us_delay_eq (hval : val ≤ reload.toNat) (hmono : Monotone time)
    (hnear : ∀ k, time (k + 1) ≤ time k + reload.toNat) (fuel : ℕ) :
    rt_hw_us_delay us (reload.setWidth 32) (VAL reload val time) fuel =
      (List.range' 1 fuel).find? (Due reload val time (ticksOf us.toNat reload.toNat)) := by
  have hticks := ticks_toNat us reload
  have hlt := ticksOf_lt us.toNat reload.toNat
  rw [← hticks] at hlt ⊢
  exact usLoop_eq hval hmono hnear hlt fuel (fun h => h.1 rfl) (Nat.zero_add _)

/-- A counter that runs is seen to have counted any number at last. -/
theorem exists_due (hload : reload.toNat ≠ 0) (val : ℕ) (hunbounded : ∀ t, ∃ k, t ≤ time k)
    (ticks : ℕ) : ∃ k, Due reload val time ticks k := by
  set s := Countdown.seen reload.toNat (phase reload val time 0)
  obtain ⟨k, hk⟩ := hunbounded (2 * (s + ticks) + phase reload val time 0 + 1)
  have hle : 2 * (s + ticks) + phase reload val time 0 + 1 ≤ phase reload val time k :=
    hk.trans (Nat.le_add_left _ _)
  have hhalf := Countdown.half_le_seen hload (phase reload val time k)
  exact ⟨k, by omega, by omega⟩

/-- **What is due has taken the guaranteed counts.** -/
theorem guaranteed_le (hload : reload.toNat ≠ 0) (hmono : Monotone time) {us n : ℕ}
    (hdue : Due reload val time (ticksOf us reload.toNat) n) :
    guaranteed us reload.toNat ≤ time n - time 0 := by
  obtain ⟨hmoved, hseen⟩ := hdue
  have h0 : time 0 ≤ time n := hmono (Nat.zero_le n)
  have hsub : phase reload val time n - phase reload val time 0 = time n - time 0 := by
    rw [phase, phase]
    omega
  have hle : phase reload val time 0 ≤ phase reload val time n := Nat.add_le_add_left h0 _
  rw [guaranteed, max_le_iff]
  refine ⟨by omega, ?_⟩
  by_cases hticks : ticksOf us reload.toNat = 0
  · rw [hticks, Countdown.least, Nat.zero_sub, Nat.zero_div]
    exact Nat.zero_le _
  · rw [← hsub]
    exact Countdown.le_of_seen hload hticks hle hseen

/-- With the counter just reloaded and a read at each count, nothing more is waited for. -/
theorem due_guaranteed (hload : reload.toNat ≠ 0) (us : ℕ) :
    Due reload reload.toNat id (ticksOf us reload.toNat) (guaranteed us reload.toNat) := by
  have hphase (k : ℕ) : phase reload reload.toNat id k = k := by
    rw [phase, Nat.sub_self, Nat.zero_add, id]
  rw [Due, hphase, hphase]
  refine ⟨Nat.ne_of_gt (Nat.lt_of_lt_of_le Nat.one_pos (le_max_left _ _)), ?_⟩
  calc Countdown.seen reload.toNat 0 + ticksOf us reload.toNat
      = Countdown.seen reload.toNat (Countdown.least reload.toNat (ticksOf us reload.toNat)) := by
        rw [Countdown.seen_least hload, Countdown.seen, Nat.zero_sub, Nat.zero_add]
    _ ≤ Countdown.seen reload.toNat (guaranteed us reload.toNat) :=
        Countdown.seen_mono _ (le_max_right _ _)

/-- A SysTick without a reload value stands still, and is waited for without end. -/
theorem usLoop_stopped {ticks told : BitVec 32} {F : ℕ → BitVec 32} (hF : ∀ k, F k = told)
    (reload tcnt : BitVec 32) (fuel k : ℕ) : usLoop reload ticks F fuel told tcnt k = none := by
  induction fuel generalizing k with
  | zero => rfl
  | succ fuel ih =>
    rw [usLoop]
    dsimp only
    rw [if_pos (hF k), ih]

/-- **The requests for which `rt_hw_us_delay` is never short.** -/
theorem rt_hw_us_delay_iff (core : Core) (us : BitVec 32) (reload : BitVec 24) :
    UsNeverShort core us reload ↔
      reload.toNat ≠ 0 ∧
        LongEnough us.toNat core.SystemCoreClock.toNat (guaranteed us.toNat reload.toNat) := by
  have hid (h : reload.toNat ≠ 0) : Sampling reload.toNat id :=
    ⟨monotone_id, fun t => ⟨t, le_rfl⟩, fun _ k => Nat.add_le_add_left (Nat.pos_of_ne_zero h) k⟩
  constructor
  · intro h
    have hload : reload.toNat ≠ 0 := by
      intro hzero
      -- the counter stands still
      have hsampling : Sampling reload.toNat id :=
        ⟨monotone_id, fun t => ⟨t, le_rfl⟩, fun h => absurd hzero h⟩
      obtain ⟨⟨fuel, hsome⟩, -⟩ := h 0 id (Nat.zero_le _) hsampling
      have hstill (k : ℕ) : VAL reload 0 id k = VAL reload 0 id 0 := by
        rw [← BitVec.toNat_inj, VAL_toNat (Nat.zero_le _), VAL_toNat (Nat.zero_le _), hzero,
          Nat.zero_sub, Nat.zero_sub]
      rw [rt_hw_us_delay, usLoop_stopped hstill] at hsome
      exact absurd hsome Bool.false_ne_true
    refine ⟨hload, ?_⟩
    have hs := hid hload
    obtain ⟨⟨fuel, hsome⟩, hlong⟩ := h reload.toNat id le_rfl hs
    obtain ⟨n, hn⟩ := Option.isSome_iff_exists.mp hsome
    have hn' := hlong fuel n hn
    -- the first read that is due is none after the one that is known to be
    rw [rt_hw_us_delay_eq le_rfl hs.mono (hs.near hload), List.find?_range'_eq_some] at hn
    obtain ⟨-, -, hfirst⟩ := hn
    refine hn'.mono ?_
    rw [id, id, Nat.sub_zero]
    by_contra hlt
    have hone : 1 ≤ guaranteed us.toNat reload.toNat := le_max_left _ _
    have := hfirst (guaranteed us.toNat reload.toNat) hone (Nat.lt_of_not_le hlt)
    simp [due_guaranteed hload] at this
  · rintro ⟨hload, hlong⟩ val time hval hs
    have heq := @rt_hw_us_delay_eq reload val time us hval hs.mono (hs.near hload)
    constructor
    · obtain ⟨k, hk⟩ := exists_due hload val hs.unbounded (ticksOf us.toNat reload.toNat)
      refine ⟨k, ?_⟩
      rw [heq, List.find?_isSome]
      have hpos : k ≠ 0 := fun h0 => hk.1 (by rw [h0])
      exact ⟨k, List.mem_range'_1.mpr ⟨by omega, by omega⟩, by simpa using hk⟩
    · intro fuel n hn
      rw [heq] at hn
      have hdue : Due reload val time (ticksOf us.toNat reload.toNat) n := by
        simpa using List.find?_some hn
      exact hlong.mono (guaranteed_le hload hs.mono hdue)

/-- **With the SysTick as `rt_hw_board_init` configures it**, it is only the requests of one count at
most that are never short: the reload value is taken for the period, which is one count longer. -/
theorem rt_hw_us_delay_configured (core : Core) (us : BitVec 32) {reload : BitVec 24}
    (hconfig : core.SystemCoreClock.toNat / RT_TICK_PER_SECOND.toNat - 1 = reload.toNat)
    (hload : reload.toNat ≠ 0) :
    UsNeverShort core us reload ↔ us.toNat * core.SystemCoreClock.toNat ≤ 1000000 := by
  have hclk : 1000 * (reload.toNat + 1) ≤ core.SystemCoreClock.toNat := by
    have hdiv := Nat.mul_div_le core.SystemCoreClock.toNat 1000
    rw [show RT_TICK_PER_SECOND.toNat = 1000 from rfl] at hconfig
    omega
  have hmul : us.toNat * (1000 * (reload.toNat + 1)) ≤ us.toNat * core.SystemCoreClock.toNat :=
    Nat.mul_le_mul_left _ hclk
  have hticks : 1000 * ticksOf us.toNat reload.toNat ≤ us.toNat * reload.toNat :=
    (Nat.mul_div_le _ 1000).trans (Nat.mod_le _ _)
  rw [rt_hw_us_delay_iff, and_iff_right hload, LongEnough, guaranteed]
  by_cases h : ticksOf us.toNat reload.toNat = 0
  · rw [h, Countdown.least, Nat.zero_sub, Nat.zero_div, Nat.add_zero, max_eq_left (Nat.zero_le 1),
      Nat.mul_one]
  · -- less than the requested counts are waited for, and the reloads do not make up for it
    have hq := Nat.div_mul_le_self (ticksOf us.toNat reload.toNat - 1) reload.toNat
    have hleast : Countdown.least reload.toNat (ticksOf us.toNat reload.toNat) =
        ticksOf us.toNat reload.toNat + (ticksOf us.toNat reload.toNat - 1) / reload.toNat := rfl
    generalize (ticksOf us.toNat reload.toNat - 1) / reload.toNat = q at hq hleast
    have hqus : 1000 * q < us.toNat := by
      refine Nat.lt_of_mul_lt_mul_right (a := reload.toNat) ?_
      rw [Nat.mul_assoc]
      omega
    have hexpand : us.toNat * (1000 * (reload.toNat + 1)) =
        1000 * (us.toNat * reload.toNat) + 1000 * us.toNat := by
      ring
    rw [max_eq_right (by omega), hleast]
    omega

end Delay

end Clk
