/-
The unit time of a capture channel.

`EPWM_ConfigCaptureChannel` and `PWM_ConfigCaptureChannel` try the prescalers from the first one on,
with the clock in kHz, until the unit time of the counter has come up to the request.  A product is
computed in 32 bits and kept with whether its type holds it; where an `int` does not, the value is that
of a wrap-around.

* **`EPWM_search_of_first`**, **`PWM_search_of_first`** and the like — where the searches stop;
* **`NearestUnit`** — what a call should leave in the prescaler, and return;
* **`capture_nearest_iff`** — the clocks and requests for which it does.
-/
import NuMaker.Lib.Nearest
import NuMaker.Pwm.Frequency

namespace Pwm.Capture

open Pwm.Frequency (EPWM_T)

/-! ### The functions -/

/-- The clocks, with that of the core. -/
structure Clocks extends Frequency.Clocks where
  HCLK : BitVec 32

/-- `u32PWMClockSrc` and `u32EPWMClockSrc`. -/
def Clocks.src (clk : Clocks) (u32Src : BitVec 32) (first : Bool) : ℕ :=
  (if u32Src = 0 then clk.HCLK else clk.pclk first).toNat

/-- The clock of `EPWM0` or `EPWM1`. -/
def Clocks.epwm (clk : Clocks) (first : Bool) : ℕ :=
  clk.src (if first then clk.CLKSEL2 &&& 1#32 <<< 0 else clk.CLKSEL2 &&& 1#32 <<< 1) first

/-- The clock of `PWM0` or `PWM1`. -/
def Clocks.pwm (clk : Clocks) (first : Bool) : ℕ :=
  clk.src (if first then clk.CLKSEL3 &&& 1#32 <<< 6 else clk.CLKSEL3 &&& 1#32 <<< 7) first

/-- A product in 32 bits, and whether a type of `w` bits holds it. -/
def mul (w a b : ℕ) : ℕ × Bool := (a * b % 2 ^ 32, decide (a * b < 2 ^ w))

/-- What a search ends with: the prescaler, the unit time, and whether all its products were held. -/
structure Found where
  prescale : ℕ
  nearest : ℕ
  exact : Bool

/-- The products of a turn, before what comes after it. -/
def Found.after (r : Found) (held : Bool) : Found := { r with exact := held && r.exact }

/-- The loop of `EPWM_ConfigCaptureChannel`, with the turns that are left of it and the unit time of
the turn before. -/
def EPWM_search (u32EPWMClockSrc u32UnitTimeNsec : ℕ) : ℕ → ℕ → ℕ → Found
  | 0, u16Prescale, u32NearestUnitTimeNsec => ⟨u16Prescale, u32NearestUnitTimeNsec, true⟩
  | n + 1, u16Prescale, _ =>
    let (a, held) := mul 32 1000000 u16Prescale
    let u32NearestUnitTimeNsec := a / u32EPWMClockSrc
    Found.after (
      if u32NearestUnitTimeNsec < u32UnitTimeNsec then
        -- what `u32Exit` is set to at `0x1000` is overwritten
        let (b, held) := mul 32 1000000 (u16Prescale + 1)
        let (c, held') := mul 32 u32NearestUnitTimeNsec u32EPWMClockSrc
        Found.after (
          if ¬ b > c then ⟨u16Prescale, u32NearestUnitTimeNsec, true⟩
          else EPWM_search u32EPWMClockSrc u32UnitTimeNsec n (u16Prescale + 1)
            u32NearestUnitTimeNsec) (held && held')
      else ⟨u16Prescale, u32NearestUnitTimeNsec, true⟩) held

/-- The loop of `PWM_ConfigCaptureChannel`, whose prescaler and constants are `int`s. -/
def PWM_search (u32PWMClockSrc u32UnitTimeNsec : ℕ) : ℕ → ℕ → ℕ → Found
  | 0, u16Prescale, u32NearestUnitTimeNsec => ⟨u16Prescale, u32NearestUnitTimeNsec, true⟩
  | n + 1, u16Prescale, _ =>
    let (a, held) := mul 31 1000000 u16Prescale
    let u32NearestUnitTimeNsec := a / u32PWMClockSrc
    Found.after (
      if u32NearestUnitTimeNsec < u32UnitTimeNsec then
        if u16Prescale = 0x1000 then ⟨u16Prescale, u32NearestUnitTimeNsec, true⟩
        else
          let (b, held) := mul 31 1000000 (u16Prescale + 1)
          let (c, held') := mul 32 u32NearestUnitTimeNsec u32PWMClockSrc
          Found.after (
            if ¬ b > c then ⟨u16Prescale, u32NearestUnitTimeNsec, true⟩
            else PWM_search u32PWMClockSrc u32UnitTimeNsec n (u16Prescale + 1)
              u32NearestUnitTimeNsec) (held && held')
      else ⟨u16Prescale, u32NearestUnitTimeNsec, true⟩) held

/-- The registers after the call, what it returns, and whether all its products were held. -/
def EPWM_ConfigCaptureChannel (clk : Clocks) (first : Bool) (epwm : EPWM_T) (u32ChannelNum : ℕ)
    (u32UnitTimeNsec : BitVec 32) : EPWM_T × ℕ × Bool :=
  let r := EPWM_search (clk.epwm first / 1000) u32UnitTimeNsec.toNat 0x1000 1 0
  ({ epwm with
      CLKPSC := Function.update epwm.CLKPSC (u32ChannelNum / 2) (BitVec.ofNat 32 (r.prescale - 1))
      CTL1 := (epwm.CTL1 &&& ~~~(0x3#32 <<< (u32ChannelNum * 2)) ||| 1#32 <<< (u32ChannelNum * 2)) &&&
        ~~~(0x10000#32 <<< u32ChannelNum)
      PERIOD := Function.update epwm.PERIOD u32ChannelNum 0xFFFF },
    r.nearest, r.exact)

def PWM_ConfigCaptureChannel (clk : Clocks) (first : Bool) (pwm : PWM_T) (u32ChannelNum : ℕ)
    (u32UnitTimeNsec : BitVec 32) : PWM_T × ℕ × Bool :=
  let r := PWM_search (clk.pwm first / 1000) u32UnitTimeNsec.toNat 0x1000 1 0
  let pwm := PWM_SET_PRESCALER pwm u32ChannelNum (BitVec.ofNat 32 (r.prescale - 1))
  let pwm := { pwm with
    CTL1 := pwm.CTL1 &&& ~~~(0x3#32 <<< (u32ChannelNum / 2 * 4)) ||| 1#32 <<< (u32ChannelNum / 2 * 4) }
  (PWM_SET_CNR pwm u32ChannelNum 0xFFFF, r.nearest, r.exact)

/-! ### What they should do -/

/-- A call, and the registers that it finds. -/
inductive Call
  | epwm (first : Bool) (regs : EPWM_T) (u32ChannelNum : ℕ)
  | pwm (first : Bool) (regs : PWM_T) (u32ChannelNum : ℕ)

/-- The clock of the counter, in Hz. -/
def Call.clock (clk : Clocks) : Call → ℕ
  | epwm first _ _ => clk.epwm first
  | pwm first _ _ => clk.pwm first

/-- The prescaler of the channel after a call, what the call returns, and whether all its products were
held. -/
structure Result where
  prescaler : ℕ
  ret : ℕ
  exact : Bool

def Call.run (clk : Clocks) (u32UnitTimeNsec : BitVec 32) : Call → Result
  | epwm first regs ch =>
    let (regs, ret, exact) := EPWM_ConfigCaptureChannel clk first regs ch u32UnitTimeNsec
    ⟨(regs.CLKPSC (ch / 2)).toNat, ret, exact⟩
  | pwm first regs ch =>
    let (regs, ret, exact) := PWM_ConfigCaptureChannel clk first regs ch u32UnitTimeNsec
    ⟨(regs.CLKPSC (ch / 2)).toNat, ret, exact⟩

/-- The unit time, in whole nanoseconds, of a counter that counts every `p` clocks of `c` Hz. -/
def unitTime (c p : ℕ) : ℕ := 1000000000 * p / c

/-- Nothing wraps around, the prescaler fits its field, its unit time is returned, and none is closer to
the request. -/
structure NearestUnit (c u : ℕ) (r : Result) : Prop where
  exact : r.exact = true
  fits : r.prescaler < 2 ^ 12
  ret : r.ret = unitTime c (r.prescaler + 1)
  nearest : ∀ p, 1 ≤ p → p ≤ 2 ^ 12 → Nat.dist r.ret u ≤ Nat.dist (unitTime c p) u

/-! ### Where the searches stop -/

/-- The unit time as it is computed, with the clock in kHz. -/
def computed (c p : ℕ) : ℕ := 1000000 * p / (c / 1000)

/-- The last prescaler whose products are held. -/
def Call.limit : Call → ℕ
  | epwm _ _ _ => 4096
  | pwm _ _ _ => 2147

section Search

variable {c u : ℕ}

theorem mul_of_le {w a b : ℕ} (h : a * b < 2 ^ 32) : mul w a b = (a * b, decide (a * b < 2 ^ w)) := by
  rw [mul, Nat.mod_eq_of_lt h]

/-- The second test never ends a search: the unit time was rounded down. -/
theorem computed_mul_lt (c p : ℕ) : computed c p * (c / 1000) < 1000000 * (p + 1) := by
  have := Nat.div_mul_le_self (1000000 * p) (c / 1000)
  rw [computed]
  omega

/-- **A turn of the EPWM.** -/
theorem EPWM_search_succ (n near : ℕ) {p : ℕ} (hp : p ≤ 4096) :
    EPWM_search (c / 1000) u (n + 1) p near =
      if computed c p < u then EPWM_search (c / 1000) u n (p + 1) (computed c p)
      else ⟨p, computed c p, true⟩ := by
  have hlt := computed_mul_lt c p
  have ha : mul 32 1000000 p = (1000000 * p, true) := by
    rw [mul_of_le (by omega), decide_eq_true (by omega)]
  have hb : mul 32 1000000 (p + 1) = (1000000 * (p + 1), true) := by
    rw [mul_of_le (by omega), decide_eq_true (by omega)]
  have hc : mul 32 (computed c p) (c / 1000) = (computed c p * (c / 1000), true) := by
    rw [mul_of_le (by omega), decide_eq_true (by omega)]
  have hcomputed : 1000000 * p / (c / 1000) = computed c p := rfl
  rw [EPWM_search]
  simp only [ha, hb, hcomputed, hc, gt_iff_lt, hlt, not_true, if_false, Found.after, Bool.and_self,
    Bool.true_and]

/-- **A turn of the PWM.** -/
theorem PWM_search_succ (n near : ℕ) {p : ℕ} (hp : p ≤ 4096) :
    PWM_search (c / 1000) u (n + 1) p near =
      Found.after (
        if computed c p < u then
          if p = 4096 then ⟨p, computed c p, true⟩
          else Found.after (PWM_search (c / 1000) u n (p + 1) (computed c p)) (decide (p + 1 ≤ 2147))
        else ⟨p, computed c p, true⟩) (decide (p ≤ 2147)) := by
  have hlt := computed_mul_lt c p
  have ha : mul 31 1000000 p = (1000000 * p, decide (p ≤ 2147)) := by
    rw [mul_of_le (by omega)]
    exact congrArg _ (decide_eq_decide.mpr (by omega))
  have hb : mul 31 1000000 (p + 1) = (1000000 * (p + 1), decide (p + 1 ≤ 2147)) := by
    rw [mul_of_le (by omega)]
    exact congrArg _ (decide_eq_decide.mpr (by omega))
  have hc : mul 32 (computed c p) (c / 1000) = (computed c p * (c / 1000), true) := by
    rw [mul_of_le (by omega), decide_eq_true (by omega)]
  have hcomputed : 1000000 * p / (c / 1000) = computed c p := rfl
  rw [PWM_search]
  simp only [ha, hb, hcomputed, hc, gt_iff_lt, hlt, not_true, if_false, Bool.and_true]

/-- **The EPWM stops at the first prescaler that comes up to the request.** -/
theorem EPWM_search_of_first {n p q : ℕ} (near : ℕ) (hn : n + p = 4097) (hpq : p ≤ q) (hq : q ≤ 4096)
    (hreach : u ≤ computed c q) (hbefore : ∀ i, p ≤ i → i < q → computed c i < u) :
    EPWM_search (c / 1000) u n p near = ⟨q, computed c q, true⟩ := by
  induction n generalizing p near with
  | zero => omega
  | succ n ih =>
    rw [EPWM_search_succ n near (by omega)]
    rcases Nat.eq_or_lt_of_le hpq with rfl | hlt
    · rw [if_neg (by omega)]
    · rw [if_pos (hbefore p le_rfl hlt)]
      exact ih _ (by omega) hlt fun i hi => hbefore i (by omega)

/-- Where none does, it goes on to a prescaler more than there are. -/
theorem EPWM_search_of_never {n p : ℕ} (near : ℕ) (hn : n + p = 4097)
    (hnever : ∀ i, p ≤ i → i ≤ 4096 → computed c i < u) :
    (EPWM_search (c / 1000) u n p near).prescale = 4097 := by
  induction n generalizing p near with
  | zero =>
    rw [EPWM_search]
    exact (Nat.zero_add p).symm.trans hn
  | succ n ih =>
    rw [EPWM_search_succ n near (by omega), if_pos (hnever p le_rfl (by omega))]
    exact ih _ (by omega) fun i hi => hnever i (by omega)

/-- **The PWM stops at the same prescaler**, but only the first products are held. -/
theorem PWM_search_of_first {n p q : ℕ} (near : ℕ) (hn : n + p = 4097) (hpq : p ≤ q) (hq : q ≤ 4096)
    (hreach : u ≤ computed c q) (hbefore : ∀ i, p ≤ i → i < q → computed c i < u) :
    PWM_search (c / 1000) u n p near = ⟨q, computed c q, decide (q ≤ 2147)⟩ := by
  induction n generalizing p near with
  | zero => omega
  | succ n ih =>
    rw [PWM_search_succ n near (by omega)]
    rcases Nat.eq_or_lt_of_le hpq with rfl | hlt
    · rw [if_neg (by omega), Found.after, Bool.and_true]
    · rw [if_pos (hbefore p le_rfl hlt), if_neg (by omega),
        ih _ (by omega) hlt fun i hi => hbefore i (by omega)]
      simp only [Found.after, ← Bool.decide_and]
      exact congrArg _ (decide_eq_decide.mpr (by omega))

/-- Where none does, the last products are not held. -/
theorem PWM_search_of_never {n p : ℕ} (near : ℕ) (hn : n + p = 4097) (hp : p ≤ 4096)
    (hnever : ∀ i, p ≤ i → i ≤ 4096 → computed c i < u) :
    (PWM_search (c / 1000) u n p near).exact = false := by
  induction n generalizing p near with
  | zero => omega
  | succ n ih =>
    rw [PWM_search_succ n near hp, if_pos (hnever p le_rfl hp), Found.after]
    by_cases hlast : p = 4096
    · rw [decide_eq_false (show ¬ p ≤ 2147 by omega), Bool.false_and]
    · simp only [if_neg hlast, Found.after, ih _ (show n + (p + 1) = 4097 by omega) (by omega)
        fun i hi => hnever i (by omega), Bool.and_false]

/-- Either a prescaler is the first to come up to the request, or none does. -/
theorem first_or_never (c u : ℕ) :
    (∃ q, 1 ≤ q ∧ q ≤ 4096 ∧ u ≤ computed c q ∧ ∀ i, 1 ≤ i → i < q → computed c i < u) ∨
      ∀ i, 1 ≤ i → i ≤ 4096 → computed c i < u := by
  by_cases h : ∃ q, (1 ≤ q ∧ q ≤ 4096) ∧ u ≤ computed c q
  · obtain ⟨⟨h1, hq⟩, hreach⟩ := Nat.find_spec h
    refine Or.inl ⟨Nat.find h, h1, hq, hreach, fun i hi hlt => ?_⟩
    by_contra hge
    exact Nat.find_min h hlt ⟨⟨hi, by omega⟩, by omega⟩
  · refine Or.inr fun i hi hi' => ?_
    by_contra hge
    exact h ⟨i, ⟨hi, hi'⟩, by omega⟩

end Search

/-! ### The calls -/

section Calls

variable {clk : Clocks} {U : BitVec 32} {call : Call}

/-- What is seen of a call is what its search ends with. -/
theorem run_epwm (first : Bool) (regs : EPWM_T) (ch : ℕ) :
    (Call.epwm first regs ch).run clk U =
      let r := EPWM_search (clk.epwm first / 1000) U.toNat 0x1000 1 0
      ⟨(BitVec.ofNat 32 (r.prescale - 1)).toNat, r.nearest, r.exact⟩ := by
  simp only [Call.run, EPWM_ConfigCaptureChannel, Function.update_self]

theorem run_pwm (first : Bool) (regs : PWM_T) (ch : ℕ) :
    (Call.pwm first regs ch).run clk U =
      let r := PWM_search (clk.pwm first / 1000) U.toNat 0x1000 1 0
      ⟨(BitVec.ofNat 32 (r.prescale - 1)).toNat, r.nearest, r.exact⟩ := by
  simp only [Call.run, PWM_ConfigCaptureChannel, PWM_SET_PRESCALER, PWM_SET_CNR, Function.update_self]

/-- A call that comes to a prescaler. -/
theorem run_of_first {q : ℕ} (h1 : 1 ≤ q) (hq : q ≤ 4096)
    (hreach : U.toNat ≤ computed (call.clock clk) q)
    (hbefore : ∀ i, 1 ≤ i → i < q → computed (call.clock clk) i < U.toNat) :
    call.run clk U = ⟨q - 1, computed (call.clock clk) q, decide (q ≤ call.limit)⟩ := by
  have hword : (BitVec.ofNat 32 (q - 1)).toNat = q - 1 := by
    rw [BitVec.toNat_ofNat, Nat.mod_eq_of_lt (by omega)]
  cases call with
  | epwm first regs ch =>
    rw [Call.clock] at hreach hbefore ⊢
    have hlimit : decide (q ≤ (Call.epwm first regs ch).limit) = true := decide_eq_true hq
    rw [run_epwm, EPWM_search_of_first 0 (by norm_num) h1 hq hreach hbefore, hlimit]
    simp only [hword]
  | pwm first regs ch =>
    rw [Call.clock] at hreach hbefore ⊢
    rw [run_pwm, PWM_search_of_first 0 (by norm_num) h1 hq hreach hbefore]
    simp only [hword]
    rfl

/-- A call that comes to none puts one too many in the field, or has wrapped around. -/
theorem run_of_never (h : ∀ i, 1 ≤ i → i ≤ 4096 → computed (call.clock clk) i < U.toNat) :
    2 ^ 12 ≤ (call.run clk U).prescaler ∨ (call.run clk U).exact = false := by
  cases call with
  | epwm first regs ch =>
    have hs := EPWM_search_of_never (n := 4096) 0 (by norm_num) h
    rw [Call.clock] at hs
    rw [run_epwm]
    simp only [hs]
    exact Or.inl (by decide)
  | pwm first regs ch =>
    rw [run_pwm]
    exact Or.inr (PWM_search_of_never 0 (by norm_num) (by norm_num) h)

/-- A prescaler that is found first, whose unit time is computed exactly, and which is not further off
than the one before. -/
def Reached (c u limit p : ℕ) : Prop :=
  1 ≤ p ∧ p ≤ limit ∧ u ≤ unitTime c p ∧ computed c p = unitTime c p ∧
    (p = 1 ∨ computed c (p - 1) < u ∧ unitTime c (p - 1) + unitTime c p ≤ 2 * u)

theorem computed_mono (c : ℕ) : Monotone (computed c) := fun _ _ h =>
  Nat.div_le_div_right (Nat.mul_le_mul_left _ h)

theorem unitTime_mono (c : ℕ) : Monotone (unitTime c) := fun _ _ h =>
  Nat.div_le_div_right (Nat.mul_le_mul_left _ h)

/-- The clock in kHz is rounded down, and the unit time may come out too long. -/
theorem unitTime_le_computed {c : ℕ} (hc : 1000 ≤ c) (p : ℕ) : unitTime c p ≤ computed c p := by
  rw [computed, Nat.le_div_iff_mul_le (by omega)]
  have hk : c / 1000 * 1000 ≤ c := Nat.div_mul_le_self c 1000
  have hle : unitTime c p * c ≤ 1000000000 * p := Nat.div_mul_le_self _ _
  have hmul : unitTime c p * (c / 1000 * 1000) ≤ unitTime c p * c := Nat.mul_le_mul_left _ hk
  rw [← Nat.mul_assoc] at hmul
  omega

/-- What is right of the prescaler that a search comes to. -/
theorem nearestUnit_iff {c u q limit : ℕ} (hc : 1000 ≤ c) (h1 : 1 ≤ q) (hq : q ≤ 4096)
    (hreach : u ≤ computed c q) (hbefore : ∀ i, 1 ≤ i → i < q → computed c i < u) :
    NearestUnit c u ⟨q - 1, computed c q, decide (q ≤ limit)⟩ ↔
      q ≤ limit ∧ computed c q = unitTime c q ∧
        (q = 1 ∨ unitTime c (q - 1) + unitTime c q ≤ 2 * u) := by
  have hsucc : q - 1 + 1 = q := Nat.sub_add_cancel h1
  have hprev : q = 1 ∨ unitTime c (q - 1) < u := by
    by_cases hone : q = 1
    · exact Or.inl hone
    · exact Or.inr ((unitTime_le_computed hc _).trans_lt (hbefore _ (by omega) (by omega)))
  constructor
  · rintro ⟨hexact, -, hret, hnearest⟩
    simp only [hsucc] at hret hnearest
    refine ⟨of_decide_eq_true hexact, hret, ?_⟩
    rw [hret] at hreach hnearest
    exact (Nearest.first_iff (unitTime_mono c) h1 hq hreach hprev).mp hnearest
  · rintro ⟨hlimit, hret, hhalf⟩
    rw [hret] at hreach ⊢
    refine ⟨decide_eq_true hlimit, ?_, ?_, ?_⟩
    · show q - 1 < 2 ^ 12
      omega
    · exact congrArg (unitTime c) hsucc.symm
    · exact (Nearest.first_iff (unitTime_mono c) h1 hq hreach hprev).mpr hhalf

/-- There is one prescaler that a search comes to first. -/
theorem first_unique {c u p q : ℕ} (hp : 1 ≤ p) (hpreach : u ≤ computed c p)
    (hpprev : p = 1 ∨ computed c (p - 1) < u) (hq : 1 ≤ q) (hqreach : u ≤ computed c q)
    (hbefore : ∀ i, 1 ≤ i → i < q → computed c i < u) : p = q := by
  have hge : q ≤ p := by
    by_contra hlt
    exact absurd (hbefore p hp (by omega)) (by omega)
  rcases hpprev with rfl | hprev
  · omega
  · -- a prescaler before `p` has not come up to the request
    by_contra hne
    have hmono := computed_mono c (show q ≤ p - 1 by omega)
    omega

/-- **The clocks and requests for which a call finds the nearest unit time.** -/
theorem capture_nearest_iff (clk : Clocks) (U : BitVec 32) (call : Call)
    (hc : 1000 ≤ call.clock clk) :
    NearestUnit (call.clock clk) U.toNat (call.run clk U) ↔
      ∃ p, Reached (call.clock clk) U.toNat call.limit p := by
  have hlimit : call.limit ≤ 4096 := by cases call <;> simp [Call.limit]
  rcases first_or_never (call.clock clk) U.toNat with ⟨q, h1, hq, hreach, hbefore⟩ | hnever
  · rw [run_of_first h1 hq hreach hbefore, nearestUnit_iff hc h1 hq hreach hbefore]
    constructor
    · rintro ⟨hle, hret, hhalf⟩
      refine ⟨q, h1, hle, hret ▸ hreach, hret, ?_⟩
      by_cases hone : q = 1
      · exact Or.inl hone
      · exact Or.inr ⟨hbefore _ (by omega) (by omega), hhalf.resolve_left hone⟩
    · rintro ⟨p, hp, hple, hpreach, hpret, hphalf⟩
      obtain rfl := first_unique hp (hpret ▸ hpreach) (hphalf.imp_right And.left) h1 hreach hbefore
      exact ⟨hple, hpret, hphalf.imp_right And.right⟩
  · refine iff_of_false (fun h => ?_) ?_
    · rcases run_of_never hnever with hbig | hwrap
      · exact absurd h.fits (by omega)
      · exact absurd (hwrap.symm.trans h.exact) (by decide)
    · rintro ⟨p, hp, hple, hpreach, hpret, -⟩
      exact absurd (hnever p hp (hple.trans hlimit)) (by omega)

/-- Every clock at 12 MHz, and the core for the source of the modules. -/
def clk12 : Clocks := ⟨⟨0, 0, 12000000, 12000000, 12000000⟩, 12000000⟩

/-- The registers of an EPWM module after a reset. -/
def epwm0 : EPWM_T := ⟨fun _ => 0, fun _ => 0, fun _ => 0, 0, 0, 0⟩

theorem capture_nearest_iff_12MHz :
    1000 ≤ (Call.epwm true epwm0 0).clock clk12 ∧
      (NearestUnit ((Call.epwm true epwm0 0).clock clk12) (166#32).toNat
          ((Call.epwm true epwm0 0).run clk12 166) ↔
        ∃ p, Reached ((Call.epwm true epwm0 0).clock clk12) (166#32).toNat 4096 p) :=
  ⟨by decide, capture_nearest_iff clk12 166 (.epwm true epwm0 0) (by decide)⟩

/-- From 12 MHz, 84 ns is answered with 166 ns: 83 ns would be nearer. -/
theorem capture_not_nearest_84ns : ¬ ∀ clk U call, 1000 ≤ Call.clock clk call →
    NearestUnit (call.clock clk) U.toNat (call.run clk U) := by
  intro h
  have hreach : (84#32).toNat ≤ computed 12000000 2 := by decide
  have hbefore : ∀ i, 1 ≤ i → i < 2 → computed 12000000 i < (84#32).toNat := by
    intro i hi hi'
    obtain rfl : i = 1 := by omega
    decide
  have hright := h clk12 84 (.epwm true epwm0 0) (by decide)
  rw [run_of_first (by decide) (by decide) hreach hbefore] at hright
  have hhalf := (nearestUnit_iff (by decide) (by decide) (by decide) hreach hbefore).mp hright
  exact absurd hhalf.2.2 (by decide)

end Calls

end Pwm.Capture
