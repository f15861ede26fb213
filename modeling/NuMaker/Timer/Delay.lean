/-
The delay that the core waits for on a timer, and all four busy waits together.

A run is given by what the status bit and the counter show at each clock of the timer, and by when
the registers are read.  Of a timer that has been told to count to zero or one nothing is known.

* **`TIMER_Delay`** — the driver's function;
* **`delaySetting_fits`** — the compare value and the prescale fit their fields;
* **`delayLoop_success`**, **`delayLoop_ends`** — what its loop does;
* **`TIMER_Delay_iff`** — the clocks and requests for which it is never short;
* **`never_short_iff`** — the same for the delays on the SysTick too.
-/
import NuMaker.Clk.Delay
import NuMaker.Timer.Rates

namespace Timer

def TIMER_TIMEOUT_ERR : ℤ := -1

/-! ### The function -/

/-- `u32Usec` as it is brought into range. -/
def clampUsec (u32Clk u32Usec : BitVec 32) : BitVec 32 :=
  if u32Clk ≤ 1000000 then
    let u32Usec := if u32Usec < 1000 then 1000 else u32Usec
    if u32Usec > 1000000 then 1000000 else u32Usec
  else
    let u32Usec := if u32Usec < 100 then 100 else u32Usec
    if u32Usec > 1000000 then 1000000 else u32Usec

/-- `u32Cmpr` and `u32Prescale`. -/
def delaySetting (u32Clk u32Usec : BitVec 32) : BitVec 32 × BitVec 32 :=
  if u32Clk ≤ 1000000 then
    let u32NsecPerTick := 1000000000 / u32Clk
    ((u32Usec * 1000) / u32NsecPerTick, 0)
  else
    let u32Cmpr := u32Usec * (u32Clk / 1000000)
    let u32Prescale := u32Cmpr >>> 24
    (if u32Prescale > 0 then u32Cmpr / (u32Prescale + 1) else u32Cmpr, u32Prescale)

/-- `ACTSTS` and `CNT` at each clock after the timer has been started, and the clock at which the
`k`-th read is made. -/
structure Run where
  ACTSTS : ℕ → Bool
  CNT : ℕ → BitVec 32
  time : ℕ → ℕ

/-- The loop from the `k`-th read on: what is returned, and the last read. -/
def delayLoop (run : Run) (u32Delay : BitVec 32) :
    ℕ → BitVec 32 → BitVec 32 → ℕ → Option (ℤ × ℕ)
  | 0, _, _, _ => none
  | fuel + 1, u32Cntr, i, k =>
    if run.ACTSTS (run.time k) then
      if u32Cntr = run.CNT (run.time (k + 1)) then
        if i > u32Delay then some (TIMER_TIMEOUT_ERR, k + 1)
        else delayLoop run u32Delay fuel u32Cntr (i + 1) (k + 2)
      else delayLoop run u32Delay fuel (run.CNT (run.time (k + 2))) 0 (k + 3)
    else some (0, k)

/-- Without a clock it divides by zero. -/
def TIMER_Delay (core : Clk.Core) (u32Clk u32Usec : BitVec 32) (run : Run) (fuel : ℕ) :
    Option (ℤ × ℕ) :=
  if u32Clk = 0 then none
  else
    let (_, u32Prescale) := delaySetting u32Clk (clampUsec u32Clk u32Usec)
    let u32Delay := core.SystemCoreClock / u32Clk * (u32Prescale + 1)
    delayLoop run u32Delay fuel (run.CNT (run.time 0)) 0 1

/-- How often `__NOP` is executed before the first read. -/
def nops (core : Clk.Core) (u32Clk : BitVec 32) : BitVec 32 := core.SystemCoreClock / u32Clk + 1

/-- The timer clocks that the `__NOP`s take at least, at one core clock each. -/
def lead (core : Clk.Core) (u32Clk : BitVec 32) : ℕ :=
  (nops core u32Clk).toNat * u32Clk.toNat / core.SystemCoreClock.toNat

/-- **The timer as it is documented**, with `CMPDAT` and `PSC` in their registers: by the time of the
first read it is active, and it is until `CMPDAT` has been reached. -/
structure Documented (CMPDAT PSC lead : ℕ) (run : Run) : Prop where
  mono : Monotone run.time
  unbounded : ∀ t, ∃ k, t ≤ run.time k
  led : lead ≤ run.time 0
  active : 2 ≤ CMPDAT → ∀ t, lead ≤ t → (run.ACTSTS t = true ↔ t < CMPDAT * (PSC + 1))
  counts : 2 ≤ CMPDAT → ∀ t < CMPDAT * (PSC + 1), (run.CNT t).toNat = t / (PSC + 1)

/-- The fields that are written for a request. -/
def CMPDAT (u32Clk u32Usec : BitVec 32) : ℕ :=
  ((delaySetting u32Clk (clampUsec u32Clk u32Usec)).1.setWidth 24).toNat

def PSC (u32Clk u32Usec : BitVec 32) : ℕ :=
  ((delaySetting u32Clk (clampUsec u32Clk u32Usec)).2.setWidth 8).toNat

/-- A request, brought into the range that is documented for it. -/
def requested (u32Usec : ℕ) : ℕ := min 1000000 (max 100 u32Usec)

/-- It ends, and where it reports success the request has elapsed. -/
def NeverShort (core : Clk.Core) (u32Clk u32Usec : BitVec 32) : Prop :=
  ∀ run : Run, Documented (CMPDAT u32Clk u32Usec) (PSC u32Clk u32Usec) (lead core u32Clk) run →
    (∃ fuel, (TIMER_Delay core u32Clk u32Usec run fuel).isSome) ∧
    ∀ fuel n, TIMER_Delay core u32Clk u32Usec run fuel = some (0, n) →
      Clk.LongEnough (requested u32Usec.toNat) u32Clk.toNat (run.time n)

/-! ### What is written -/

section Setting

variable {u32Clk : BitVec 32}

theorem clampUsec_slow (hclk : u32Clk.toNat ≤ 1000000) (u32Usec : BitVec 32) :
    (clampUsec u32Clk u32Usec).toNat = min 1000000 (max 1000 u32Usec.toNat) := by
  have hle : u32Clk ≤ 1000000 := hclk
  rw [clampUsec, if_pos hle]
  dsimp only
  split <;> split <;> bv_omega

theorem clampUsec_fast (hclk : 1000000 < u32Clk.toNat) (u32Usec : BitVec 32) :
    (clampUsec u32Clk u32Usec).toNat = requested u32Usec.toNat := by
  have hle : ¬ u32Clk ≤ 1000000 := Nat.not_le_of_lt hclk
  rw [clampUsec, if_neg hle, requested]
  dsimp only
  split <;> split <;> bv_omega

/-- The compare value for a clock of 1 MHz at most, that is not prescaled. -/
def slowCompare (clk us : ℕ) : ℕ := min 1000000 (max 1000 us) * 1000 / (1000000000 / clk)

/-- The count for a faster clock, which is split: whole clocks for each microsecond. -/
def fastCount (clk us : ℕ) : ℕ := requested us * (clk / 1000000)

theorem fields_slow (hclk : u32Clk.toNat ≤ 1000000) (u32Usec : BitVec 32) :
    CMPDAT u32Clk u32Usec = slowCompare u32Clk.toNat u32Usec.toNat ∧ PSC u32Clk u32Usec = 0 := by
  have hle : u32Clk ≤ 1000000 := hclk
  have hclamp := clampUsec_slow hclk u32Usec
  rw [CMPDAT, PSC, delaySetting, if_pos hle]
  refine ⟨?_, rfl⟩
  have hmul : (clampUsec u32Clk u32Usec * 1000).toNat =
      min 1000000 (max 1000 u32Usec.toNat) * 1000 := by
    rw [BitVec.toNat_mul, hclamp, show (1000 : BitVec 32).toNat = 1000 from rfl]
    omega
  have hlt : slowCompare u32Clk.toNat u32Usec.toNat < 2 ^ 24 := by
    rw [slowCompare]
    rcases Nat.eq_zero_or_pos u32Clk.toNat with h0 | hpos
    · rw [h0, Nat.div_zero]
      exact Nat.two_pow_pos 24
    · -- a tick takes a microsecond at least
      have hns : 1000 ≤ 1000000000 / u32Clk.toNat := by
        rw [Nat.le_div_iff_mul_le hpos]
        omega
      refine Nat.lt_of_le_of_lt (Nat.div_le_div_left hns (by decide)) ?_
      omega
  rw [BitVec.toNat_setWidth, BitVec.toNat_udiv, BitVec.toNat_udiv, hmul,
    show (1000000000 : BitVec 32).toNat = 1000000000 from rfl]
  exact Nat.mod_eq_of_lt hlt

theorem fastCount_bounds (hclk : 1000000 < u32Clk.toNat) (us : ℕ) :
    100 ≤ fastCount u32Clk.toNat us ∧ fastCount u32Clk.toNat us < 2 ^ 32 := by
  have hq : 1 ≤ u32Clk.toNat / 1000000 := by omega
  have hq' : u32Clk.toNat / 1000000 ≤ 4294 := by omega
  have hus : 100 ≤ requested us ∧ requested us ≤ 1000000 := by
    rw [requested]
    omega
  exact ⟨Nat.mul_le_mul hus.1 hq, Nat.lt_of_le_of_lt (Nat.mul_le_mul hus.2 hq') (by decide)⟩

theorem fields_fast (hclk : 1000000 < u32Clk.toNat) (u32Usec : BitVec 32) :
    let n := fastCount u32Clk.toNat u32Usec.toNat
    CMPDAT u32Clk u32Usec = n / (n / 2 ^ 24 + 1) ∧ PSC u32Clk u32Usec = n / 2 ^ 24 := by
  intro n
  have hle : ¬ u32Clk ≤ 1000000 := Nat.not_le_of_lt hclk
  obtain ⟨h100, h32⟩ := fastCount_bounds hclk u32Usec.toNat
  obtain ⟨hpsc, -, hcmp⟩ := split_count (show 2 ≤ n by omega) h32
  have hcount : (clampUsec u32Clk u32Usec * (u32Clk / 1000000)).toNat = n := by
    rw [BitVec.toNat_mul, clampUsec_fast hclk, BitVec.toNat_udiv]
    exact Nat.mod_eq_of_lt h32
  rw [CMPDAT, PSC, delaySetting, if_neg hle]
  dsimp only
  generalize clampUsec u32Clk u32Usec * (u32Clk / 1000000) = c at hcount
  have hshift : (c >>> 24).toNat = n / 2 ^ 24 := by
    rw [BitVec.toNat_ushiftRight, hcount, Nat.shiftRight_eq_div_pow]
  constructor
  · have hdiv : (if c >>> 24 > 0 then c / (c >>> 24 + 1) else c).toNat = n / (n / 2 ^ 24 + 1) := by
      split
      · have hsucc : (c >>> 24 + 1).toNat = n / 2 ^ 24 + 1 := by
          rw [BitVec.toNat_add, hshift]
          exact Nat.mod_eq_of_lt (show n / 2 ^ 24 + 1 < 2 ^ 32 by omega)
        rw [BitVec.toNat_udiv, hcount, hsucc]
      · next h =>
        have hzero : ¬ 0 < (c >>> 24).toNat := h
        rw [hshift] at hzero
        rw [hcount, Nat.eq_zero_of_not_pos hzero, Nat.zero_add, Nat.div_one]
    rw [BitVec.toNat_setWidth, hdiv]
    exact Nat.mod_eq_of_lt hcmp
  · rw [BitVec.toNat_setWidth, hshift]
    exact Nat.mod_eq_of_lt hpsc

end Setting

/-! ### The loop -/

section Loop

variable {run : Run}

/-- Success is the last read showing the timer inactive. -/
theorem delayLoop_success {u32Delay : BitVec 32} {fuel : ℕ} {u32Cntr i : BitVec 32} {k n : ℕ}
    (h : delayLoop run u32Delay fuel u32Cntr i k = some (0, n)) :
    run.ACTSTS (run.time n) = false := by
  induction fuel generalizing u32Cntr i k with
  | zero => exact absurd h (by rw [delayLoop]; exact nofun)
  | succ fuel ih =>
    rw [delayLoop] at h
    split at h
    · split at h
      · split at h
        · -- the bail-out is not reported as success
          have hret : TIMER_TIMEOUT_ERR = 0 := congrArg Prod.fst (Option.some.inj h)
          exact absurd hret (by decide)
        · exact ih h
      · exact ih h
    · next hoff =>
      have hk := congrArg Prod.snd (Option.some.inj h)
      rw [← show k = n from hk]
      exact Bool.not_eq_true _ ▸ hoff

/-- It ends with the first read of a timer that has stopped, if not before. -/
theorem delayLoop_ends (u32Delay : BitVec 32) {K : ℕ}
    (hoff : ∀ k ≥ K, run.ACTSTS (run.time k) = false) (fuel : ℕ) {u32Cntr i : BitVec 32} {k : ℕ}
    (hK : K ≤ k + fuel) : (delayLoop run u32Delay (fuel + 1) u32Cntr i k).isSome := by
  induction fuel generalizing u32Cntr i k with
  | zero =>
    rw [delayLoop, hoff k hK]
    rfl
  | succ fuel ih =>
    rw [delayLoop]
    split
    · split
      · split
        · rfl
        · exact ih (by omega)
      · exact ih (by omega)
    · rfl

/-- A timer that is active for ever, and whose counter never shows the same value again, is waited
for without end. -/
theorem delayLoop_forever (hon : ∀ t, run.ACTSTS t = true) {F : ℕ → BitVec 32}
    (hF : ∀ k, run.CNT (run.time k) = F k) (hne : ∀ k, F k ≠ F (k + 2)) (u32Delay : BitVec 32)
    (fuel : ℕ) (i : BitVec 32) (k : ℕ) :
    delayLoop run u32Delay fuel (F k) i (k + 1) = none := by
  induction fuel generalizing i k with
  | zero => rfl
  | succ fuel ih =>
    rw [delayLoop, if_pos (hon _), hF, if_neg (hne k), hF]
    exact ih 0 (k + 3)

end Loop

/-! ### The clocks and requests for which it is never short -/

section NeverShort

variable {core : Clk.Core} {u32Clk u32Usec : BitVec 32}

theorem TIMER_Delay_of_ne_zero (hclk : u32Clk ≠ 0) (core : Clk.Core) (u32Usec : BitVec 32)
    (run : Run) (fuel : ℕ) :
    TIMER_Delay core u32Clk u32Usec run fuel =
      delayLoop run (core.SystemCoreClock / u32Clk *
        ((delaySetting u32Clk (clampUsec u32Clk u32Usec)).2 + 1)) fuel (run.CNT (run.time 0)) 0 1 := by
  rw [TIMER_Delay, if_neg hclk]

/-- A timer that does as it likes, read at each clock from the first read on. -/
def restless (lead : ℕ) : Run where
  ACTSTS _ := true
  CNT t := BitVec.ofNat 32 t
  time k := lead + k

theorem not_neverShort_of_lt (h : CMPDAT u32Clk u32Usec < 2) : ¬ NeverShort core u32Clk u32Usec := by
  intro hshort
  have hdoc : Documented (CMPDAT u32Clk u32Usec) (PSC u32Clk u32Usec) (lead core u32Clk)
      (restless (lead core u32Clk)) :=
    { mono := fun _ _ hab => Nat.add_le_add_left hab _
      unbounded := fun t => ⟨t, Nat.le_add_left _ _⟩
      led := le_rfl
      active := fun h2 => absurd h2 (by omega)
      counts := fun h2 => absurd h2 (by omega) }
  obtain ⟨⟨fuel, hsome⟩, -⟩ := hshort _ hdoc
  by_cases hclk : u32Clk = 0
  · rw [TIMER_Delay, if_pos hclk] at hsome
    exact Bool.false_ne_true hsome
  · have hne (k : ℕ) : BitVec.ofNat 32 (lead core u32Clk + k) ≠
        BitVec.ofNat 32 (lead core u32Clk + (k + 2)) := by
      intro hk
      have hmod := congrArg BitVec.toNat hk
      rw [BitVec.toNat_ofNat, BitVec.toNat_ofNat] at hmod
      omega
    have hnone := @delayLoop_forever (restless (lead core u32Clk)) (fun _ => rfl) _
      (fun _ => rfl) hne (core.SystemCoreClock / u32Clk *
        ((delaySetting u32Clk (clampUsec u32Clk u32Usec)).2 + 1)) fuel 0 0
    rw [TIMER_Delay_of_ne_zero hclk] at hsome
    exact Option.not_isSome_iff_eq_none.mpr hnone hsome

/-- A timer as documented, read just when it has stopped. -/
def punctual (CMPDAT PSC lead : ℕ) : Run where
  ACTSTS t := decide (t < CMPDAT * (PSC + 1))
  CNT t := BitVec.ofNat 32 (t / (PSC + 1))
  time k := max (CMPDAT * (PSC + 1)) lead + (k - 1)

theorem punctual_documented {CMPDAT : ℕ} (hCMPDAT : CMPDAT < 2 ^ 24) (PSC lead : ℕ) :
    Documented CMPDAT PSC lead (punctual CMPDAT PSC lead) where
  mono a b hab := Nat.add_le_add_left (Nat.sub_le_sub_right hab 1) _
  unbounded t := ⟨t + 1, Nat.le_add_left _ _⟩
  led := (le_max_right _ _).trans (Nat.le_add_right _ _)
  active _ t _ := decide_eq_true_iff
  counts _ t ht := by
    have hlt : t / (PSC + 1) < CMPDAT := Nat.div_lt_of_lt_mul (by rwa [Nat.mul_comm] at ht)
    show (BitVec.ofNat 32 (t / (PSC + 1))).toNat = _
    rw [BitVec.toNat_ofNat, Nat.mod_eq_of_lt (by omega)]

/-- **A timer as documented** makes the function wait for its period, or for the `__NOP`s if they
take longer. -/
theorem NeverShort_iff_fields (core : Clk.Core) (u32Clk u32Usec : BitVec 32) :
    NeverShort core u32Clk u32Usec ↔
      u32Clk ≠ 0 ∧ 2 ≤ CMPDAT u32Clk u32Usec ∧
        Clk.LongEnough (requested u32Usec.toNat) u32Clk.toNat
          (max (CMPDAT u32Clk u32Usec * (PSC u32Clk u32Usec + 1)) (lead core u32Clk)) := by
  have hfield : CMPDAT u32Clk u32Usec < 2 ^ 24 := BitVec.isLt _
  generalize hT : CMPDAT u32Clk u32Usec * (PSC u32Clk u32Usec + 1) = T
  constructor
  · intro h
    have h2 : 2 ≤ CMPDAT u32Clk u32Usec := Nat.le_of_not_lt fun h2 => not_neverShort_of_lt h2 h
    obtain ⟨⟨fuel, hsome⟩, hlong⟩ := h _ (punctual_documented hfield _ _)
    have hclk : u32Clk ≠ 0 := by
      rintro rfl
      rw [TIMER_Delay, if_pos rfl] at hsome
      exact Bool.false_ne_true hsome
    refine ⟨hclk, h2, ?_⟩
    -- the first look at the status bit finds it clear
    set run := punctual (CMPDAT u32Clk u32Usec) (PSC u32Clk u32Usec) (lead core u32Clk)
    have htime : run.time 1 = max T (lead core u32Clk) := by
      show max (CMPDAT u32Clk u32Usec * (PSC u32Clk u32Usec + 1)) (lead core u32Clk) + 0 = _
      rw [hT, Nat.add_zero]
    have hoff : ¬ run.ACTSTS (run.time 1) = true := by
      rw [htime]
      show ¬ decide (_ < CMPDAT u32Clk u32Usec * (PSC u32Clk u32Usec + 1)) = true
      rw [hT, decide_eq_true_iff]
      exact Nat.not_lt_of_le (le_max_left _ _)
    have hrun : TIMER_Delay core u32Clk u32Usec run 1 = some (0, 1) := by
      rw [TIMER_Delay_of_ne_zero hclk, delayLoop, if_neg hoff]
    have := hlong 1 1 hrun
    rwa [htime] at this
  · rintro ⟨hclk, h2, hlong⟩ run hdoc
    have hlead (k : ℕ) : lead core u32Clk ≤ run.time k :=
      hdoc.led.trans (hdoc.mono (Nat.zero_le k))
    have hon (k : ℕ) : run.ACTSTS (run.time k) = true ↔ run.time k < T := by
      rw [hdoc.active h2 _ (hlead k), hT]
    refine ⟨?_, fun fuel n hn => ?_⟩
    · obtain ⟨K, hK⟩ := hdoc.unbounded T
      refine ⟨K + 1, ?_⟩
      rw [TIMER_Delay_of_ne_zero hclk]
      refine delayLoop_ends _ (K := K) (fun k hk => ?_) K (by omega)
      have hle := hK.trans (hdoc.mono hk)
      exact Bool.eq_false_iff.mpr ((hon k).not.2 (by omega))
    · rw [TIMER_Delay_of_ne_zero hclk] at hn
      have hoff := delayLoop_success hn
      refine hlong.mono (max_le ?_ (hlead n))
      exact Nat.le_of_not_lt ((hon n).not.1 (Bool.eq_false_iff.mp hoff))

/-- A fast clock is counted exactly if it is whole megahertz, of which no part is lost by the
prescale. -/
theorem LongEnough_fast {us clk n : ℕ} (hcount : fastCount clk us = n) :
    Clk.LongEnough (requested us) clk (n / (n / 2 ^ 24 + 1) * (n / 2 ^ 24 + 1)) ↔
      clk % 1000000 = 0 ∧ n / 2 ^ 24 + 1 ∣ n := by
  have hus : 0 < requested us := by
    rw [requested]
    omega
  have hmul : requested us * clk = 1000000 * n + requested us * (clk % 1000000) := by
    conv_lhs => rw [← Nat.div_add_mod clk 1000000]
    rw [← hcount, fastCount]
    ring
  have hn := Nat.div_add_mod n (n / 2 ^ 24 + 1)
  rw [Clk.LongEnough, hmul, Nat.dvd_iff_mod_eq_zero, Nat.mul_comm (n / _)]
  generalize (n / 2 ^ 24 + 1) * (n / (n / 2 ^ 24 + 1)) = a at hn ⊢
  generalize n % (n / 2 ^ 24 + 1) = r at hn ⊢
  constructor
  · intro hle
    have hrest : requested us * (clk % 1000000) = 0 := by omega
    exact ⟨(Nat.mul_eq_zero.mp hrest).resolve_left hus.ne', by omega⟩
  · rintro ⟨hclk, rfl⟩
    rw [hclk]
    omega

/-- **The clocks and requests for which `TIMER_Delay` is never short.** -/
theorem TIMER_Delay_iff (core : Clk.Core) (u32Clk u32Usec : BitVec 32) :
    NeverShort core u32Clk u32Usec ↔
      if u32Clk.toNat ≤ 1000000 then
        2 ≤ slowCompare u32Clk.toNat u32Usec.toNat ∧
          Clk.LongEnough (requested u32Usec.toNat) u32Clk.toNat
            (max (slowCompare u32Clk.toNat u32Usec.toNat) (lead core u32Clk))
      else
        u32Clk.toNat % 1000000 = 0 ∧
            fastCount u32Clk.toNat u32Usec.toNat / 2 ^ 24 + 1 ∣
              fastCount u32Clk.toNat u32Usec.toNat ∨
          Clk.LongEnough (requested u32Usec.toNat) u32Clk.toNat (lead core u32Clk) := by
  have hzero : u32Clk = 0 ↔ u32Clk.toNat = 0 := BitVec.toNat_inj.symm
  rw [NeverShort_iff_fields]
  by_cases hclk : u32Clk.toNat ≤ 1000000
  · obtain ⟨hcmp, hpsc⟩ := fields_slow hclk u32Usec
    rw [if_pos hclk, hcmp, hpsc, Nat.zero_add, Nat.mul_one]
    refine and_iff_right_of_imp fun h h0 => ?_
    -- a clock that stands still would be compared with zero
    rw [slowCompare, hzero.1 h0, Nat.div_zero] at h
    exact absurd h.1 (by decide)
  · have hfast := Nat.lt_of_not_le hclk
    obtain ⟨hcmp, hpsc⟩ := fields_fast hfast u32Usec
    obtain ⟨h100, h32⟩ := fastCount_bounds hfast u32Usec.toNat
    obtain ⟨-, h2, -⟩ := split_count (show 2 ≤ fastCount u32Clk.toNat u32Usec.toNat by omega) h32
    have hne : u32Clk ≠ 0 := fun h0 => hclk (by rw [hzero.1 h0]; exact Nat.zero_le _)
    rw [if_neg hclk, hcmp, hpsc, and_iff_right hne, and_iff_right h2,
      ← LongEnough_fast rfl, Clk.LongEnough, Clk.LongEnough, Clk.LongEnough,
      ← Nat.mul_max_mul_left, le_max_iff]

end NeverShort

/-! ### All of them -/

/-- A call of one of the delays. -/
inductive BusyWait where
  | rt_hw_us_delay (us : BitVec 32) (reload : BitVec 24)
  | CLK_SysTickDelay (us : BitVec 32)
  | CLK_SysTickLongDelay (us : BitVec 32)
  | TIMER_Delay (u32Clk u32Usec : BitVec 32)

namespace BusyWait

/-- It ends, and what it reports as a success has taken as long as was requested.  One loading of
`LOAD` has to hold the request of `CLK_SysTickDelay`. -/
def NeverShort (core : Clk.Core) : BusyWait → Prop
  | rt_hw_us_delay us reload => Clk.UsNeverShort core us reload
  | CLK_SysTickDelay us => us.toNat * core.CyclesPerUs.toNat < 2 ^ 24 →
      Clk.WaitNeverShort core us.toNat (Clk.CLK_SysTickDelay core us)
  | CLK_SysTickLongDelay us => Clk.WaitNeverShort core us.toNat (Clk.CLK_SysTickLongDelay core us)
  | TIMER_Delay u32Clk u32Usec => Timer.NeverShort core u32Clk u32Usec

/-- What the request and the clock have to be for that. -/
def Fits (core : Clk.Core) : BusyWait → Prop
  | rt_hw_us_delay us reload => reload.toNat ≠ 0 ∧
      Clk.LongEnough us.toNat core.SystemCoreClock.toNat (Clk.guaranteed us.toNat reload.toNat)
  | CLK_SysTickDelay us => us.toNat * core.CyclesPerUs.toNat < 2 ^ 24 →
      Clk.LongEnough us.toNat core.SystemCoreClock.toNat (us.toNat * core.CyclesPerUs.toNat + 1)
  | CLK_SysTickLongDelay us => Clk.firstRound core us.toNat = 0 ∨
      Clk.LongEnough us.toNat core.SystemCoreClock.toNat (Clk.firstRound core us.toNat + 1)
  | TIMER_Delay u32Clk u32Usec =>
      if u32Clk.toNat ≤ 1000000 then
        2 ≤ slowCompare u32Clk.toNat u32Usec.toNat ∧
          Clk.LongEnough (requested u32Usec.toNat) u32Clk.toNat
            (max (slowCompare u32Clk.toNat u32Usec.toNat) (lead core u32Clk))
      else
        u32Clk.toNat % 1000000 = 0 ∧
            fastCount u32Clk.toNat u32Usec.toNat / 2 ^ 24 + 1 ∣
              fastCount u32Clk.toNat u32Usec.toNat ∨
          Clk.LongEnough (requested u32Usec.toNat) u32Clk.toNat (lead core u32Clk)

/-- **The busy waits that are never short**, for any core clock. -/
theorem never_short_iff (core : Clk.Core) (d : BusyWait) : d.NeverShort core ↔ d.Fits core := by
  cases d with
  | rt_hw_us_delay us reload => exact Clk.rt_hw_us_delay_iff core us reload
  | CLK_SysTickDelay us =>
    exact imp_congr_right fun hold => Clk.CLK_SysTickDelay_iff core us hold
  | CLK_SysTickLongDelay us => exact Clk.CLK_SysTickLongDelay_iff core us
  | TIMER_Delay u32Clk u32Usec => exact Timer.TIMER_Delay_iff core u32Clk u32Usec

/-- A second at 12 MHz: only the first round of the long delay is waited for. -/
theorem short_second :
    ¬ NeverShort ⟨12000000, by decide⟩ (CLK_SysTickLongDelay 1000000) := by
  have hround : Clk.firstRound ⟨12000000, by decide⟩ (1000000 : BitVec 32).toNat = 4194300 := by
    decide
  show ¬ Clk.WaitNeverShort _ _ _
  rw [Clk.CLK_SysTickLongDelay_iff, hround, Clk.LongEnough]
  decide

end BusyWait

end Timer
