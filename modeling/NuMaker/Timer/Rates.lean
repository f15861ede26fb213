/-
The rates that the timers are set to.

* **`TIMER_Open_right`** — `TIMER_Open` finds a compare value and a prescale that fit their fields,
  for any clock and rate, and returns the rate that they make;
* **`rates_right_iff`** — that, and the frequencies, of those that `nu_timer_init` advertises, that
  `nu_timer_control` has a prescale for.
-/
import NuMaker.Timer.Driver
import Mathlib.Tactic

namespace Timer

/-! ### Opening a timer -/

/-- `TIMER_Open`, with what it returns. -/
def TIMER_Open (r : Regs) (u32Clk u32Mode u32Freq : BitVec 32) : BitVec 32 × Regs :=
  let (u32Cmpr, u32Prescale) : BitVec 32 × BitVec 32 :=
    if u32Freq > u32Clk / 2 then (2, 0)
    else
      let u32Cmpr := u32Clk / u32Freq
      let u32Prescale := u32Cmpr >>> 24
      (if u32Prescale > 0 then u32Cmpr / (u32Prescale + 1) else u32Cmpr, u32Prescale)
  (u32Clk / (u32Cmpr * (u32Prescale + 1)), { r with CTL := u32Mode ||| u32Prescale, CMP := u32Cmpr })

/-- It is what opens a timer for the driver. -/
theorem TIMER_Open_regs (r : Regs) (u32Clk u32Mode u32Freq : BitVec 32) :
    (TIMER_Open r u32Clk u32Mode u32Freq).2 = r.Open u32Clk u32Mode u32Freq := by
  rw [TIMER_Open, Regs.Open]
  by_cases h : u32Freq > u32Clk / 2
  · have hor : u32Mode ||| 0 = u32Mode := BitVec.or_zero
    simp only [if_pos h, hor]
  · simp only [if_neg h, gt_iff_lt]

/-- A compare value and a prescale that fit their fields are programmed, and the rate that they make
of the clock is returned. -/
def Opened (clk mode : BitVec 32) (p : BitVec 32 × Regs) : Prop :=
  ∃ psc < 2 ^ 8, p.2.CTL = mode ||| BitVec.ofNat 32 psc ∧
    2 ≤ p.2.CMP.toNat ∧ p.2.CMP.toNat < 2 ^ 24 ∧
    p.1.toNat = clk.toNat / (p.2.CMP.toNat * (psc + 1))

/-- The top bits of a count as the prescale: what is left of the count has 24 bits, and is still two
at least. -/
theorem split_count {q : ℕ} (h2 : 2 ≤ q) (hq : q < 2 ^ 32) :
    q / 2 ^ 24 < 2 ^ 8 ∧ 2 ≤ q / (q / 2 ^ 24 + 1) ∧ q / (q / 2 ^ 24 + 1) < 2 ^ 24 := by
  have hmul := Nat.div_mul_le_self q (2 ^ 24)
  have hlt := Nat.lt_div_mul_add (a := q) (b := 2 ^ 24) (by decide)
  generalize q / 2 ^ 24 = p at hmul hlt
  refine ⟨by omega, ?_, ?_⟩
  · rw [Nat.le_div_iff_mul_le (by omega)]
    omega
  · rw [Nat.div_lt_iff_lt_mul (by omega)]
    omega

/-- Both branches of the function are one: a count without top bits is divided by one. -/
theorem TIMER_Open_of_le {u32Clk u32Freq : BitVec 32} (hle : ¬ u32Freq > u32Clk / 2) (r : Regs)
    (u32Mode : BitVec 32) :
    TIMER_Open r u32Clk u32Mode u32Freq =
      let u32Cmpr := u32Clk / u32Freq
      let cmp := u32Cmpr / (u32Cmpr >>> 24 + 1)
      (u32Clk / (cmp * (u32Cmpr >>> 24 + 1)),
        { r with CTL := u32Mode ||| u32Cmpr >>> 24, CMP := cmp }) := by
  have hcmp (q : BitVec 32) :
      (if q >>> 24 > 0 then q / (q >>> 24 + 1) else q) = q / (q >>> 24 + 1) := by
    split
    · rfl
    · next h =>
      have hzero : q >>> 24 = 0 := by
        refine BitVec.eq_of_toNat_eq ?_
        have := BitVec.lt_def.not.mp h
        simp only [BitVec.ofNat_eq_ofNat, BitVec.toNat_ofNat, Nat.zero_mod] at this ⊢
        omega
      rw [hzero]
      exact BitVec.eq_of_toNat_eq (by simp)
  simp only [TIMER_Open, if_neg hle, hcmp]

/-- **`TIMER_Open` is right for every clock and every rate.** -/
theorem TIMER_Open_right {u32Freq : BitVec 32} (hfreq : 1 ≤ u32Freq.toNat) (r : Regs)
    (u32Clk u32Mode : BitVec 32) :
    Opened u32Clk u32Mode (TIMER_Open r u32Clk u32Mode u32Freq) := by
  by_cases hlt : u32Freq > u32Clk / 2
  · refine ⟨0, by decide, ?_⟩
    rw [TIMER_Open, if_pos hlt]
    refine ⟨rfl, by simp, by simp, ?_⟩
    simp [BitVec.toNat_udiv]
  · rw [TIMER_Open_of_le hlt]
    have hhalf : u32Freq.toNat ≤ u32Clk.toNat / 2 := by
      have := BitVec.lt_def.not.mp hlt
      rw [BitVec.toNat_udiv] at this
      simpa using this
    -- the count is two at least, since the rate is half of the clock at most
    have hq : (u32Clk / u32Freq).toNat = u32Clk.toNat / u32Freq.toNat := BitVec.toNat_udiv
    have h2 : 2 ≤ (u32Clk / u32Freq).toNat := by
      rw [hq, Nat.le_div_iff_mul_le (by omega)]
      omega
    obtain ⟨hpsc, hcmp, hfits⟩ := split_count h2 (u32Clk / u32Freq).isLt
    generalize u32Clk / u32Freq = q at h2 hpsc hcmp hfits
    have hshift : (q >>> 24).toNat = q.toNat / 2 ^ 24 := by
      rw [BitVec.toNat_ushiftRight, Nat.shiftRight_eq_div_pow]
    have hsucc : (q >>> 24 + 1).toNat = q.toNat / 2 ^ 24 + 1 := by
      rw [BitVec.toNat_add, hshift]
      simp only [BitVec.ofNat_eq_ofNat, BitVec.toNat_ofNat]
      omega
    refine ⟨q.toNat / 2 ^ 24, hpsc, ?_⟩
    dsimp only
    generalize q >>> 24 + 1 = d at hsucc
    have hval : (q / d).toNat = q.toNat / (q.toNat / 2 ^ 24 + 1) := by rw [BitVec.toNat_udiv, hsucc]
    -- and the product, which is not above the count, does not wrap
    have hprod : (q / d * d).toNat =
        q.toNat / (q.toNat / 2 ^ 24 + 1) * (q.toNat / 2 ^ 24 + 1) := by
      have hle := Nat.div_mul_le_self q.toNat (q.toNat / 2 ^ 24 + 1)
      rw [BitVec.toNat_mul, hval, hsucc, Nat.mod_eq_of_lt (hle.trans_lt q.isLt)]
    refine ⟨?_, ?_, ?_, ?_⟩
    · simp only [← hshift, BitVec.ofNat_toNat, BitVec.setWidth_eq]
    · rwa [hval]
    · rwa [hval]
    · rw [BitVec.toNat_udiv, hprod, hval]

/-! ### Setting a frequency -/

/-- A frequency is set rightly: neither division is by zero, the prescale fits its field and nothing
else of `CTL` changes, and the rate that it makes of the clock is stored back. -/
def FreqSet (clk f : BitVec 32) : Prop :=
  f ≠ 0 ∧ clk / f - 1 + 1 ≠ 0 ∧
  ∀ l : Local, ∃ psc < 2 ^ 8,
    (nu_timer_control clk l (.FREQ_SET f)).2.regs.CTL =
      (l.regs.CTL &&& ~~~TIMER_CTL_PSC_Msk) ||| BitVec.ofNat 32 psc ∧
    (nu_timer_control clk l (.FREQ_SET f)).1.2.toNat = clk.toNat / (psc + 1)

/-- A device with its registers as they are after a reset. -/
def resetLocal : Local := ⟨⟨0, 0, 0, 0, 0⟩, nu_timer_info, false, ⟨0, 0, 0, 0, 0⟩⟩

/-- The prescale fits where the clock is not above 256 times the frequency, rounded down. -/
theorem freqSet_iff {clk f : BitVec 32} (hle : f.toNat ≤ clk.toNat) :
    FreqSet clk f ↔ 0 < f.toNat ∧ clk.toNat / f.toNat ≤ 256 := by
  have hzero : f ≠ 0 ↔ 0 < f.toNat := by
    rw [Nat.pos_iff_ne_zero, ne_eq, ne_eq, ← BitVec.toNat_inj]
    rfl
  have hcancel : clk / f - 1 + 1 = clk / f := BitVec.sub_add_cancel _ _
  rw [FreqSet, hcancel, hzero]
  refine and_congr_right fun hpos => ?_
  have hq : (clk / f).toNat = clk.toNat / f.toNat := BitVec.toNat_udiv
  have hone : 1 ≤ (clk / f).toNat := by
    rw [hq]
    exact Nat.div_pos hle hpos
  have hpre : (clk / f - 1).toNat = clk.toNat / f.toNat - 1 := by
    have hle : (1 : BitVec 32) ≤ clk / f := BitVec.le_def.mpr hone
    rw [BitVec.toNat_sub_of_le hle, hq]
    rfl
  constructor
  · rintro ⟨-, hset⟩
    -- after a reset, the prescale is all of `CTL`
    obtain ⟨psc, hpsc, hctl, -⟩ := hset resetLocal
    have hctl : clk / f - 1 = BitVec.ofNat 32 psc := by
      simpa [nu_timer_control, Regs.SET_PRESCALE_VALUE, resetLocal] using hctl
    have := congrArg BitVec.toNat hctl
    rw [hpre, BitVec.toNat_ofNat, Nat.mod_eq_of_lt (by omega)] at this
    omega
  · intro hfits
    refine ⟨fun h => by simp [h] at hone, fun l => ⟨clk.toNat / f.toNat - 1, by omega, ?_, ?_⟩⟩
    · rw [← hpre, BitVec.ofNat_toNat, BitVec.setWidth_eq]
      rfl
    · have hval : (nu_timer_control clk l (.FREQ_SET f)).1.2 = clk / (clk / f - 1 + 1) := rfl
      rw [hval, hcancel, BitVec.toNat_udiv, hq, Nat.sub_add_cancel (hq ▸ hone)]

/-- The lower limit is rounded down, and can be too low by that. -/
theorem fits_iff {c n : ℕ} (hmin : c / 256 ≤ n) :
    (0 < n ∧ c / n ≤ 256) ↔ c / 256 < n ∨ c % 256 < c / 256 := by
  by_cases hn : 0 < n
  · have hdiv : c / n ≤ 256 ↔ c < 257 * n := by
      rw [← Nat.lt_succ_iff, Nat.div_lt_iff_lt_mul hn]
    rw [hdiv]
    omega
  · omega

/-- What a timer is asked for: to be opened in a mode with a rate, or to be set to a frequency. -/
inductive Request
  | opens (mode f : BitVec 32)
  | sets (f : BitVec 32)

/-- A request is answered rightly: a rate of 1 Hz at least, whatever the registers, and a frequency
between the limits that `nu_timer_init` stores. -/
def Request.Right (clk : BitVec 32) : Request → Prop
  | opens mode f => 1 ≤ f.toNat → ∀ r : Regs, Opened clk mode (TIMER_Open r clk mode f)
  | sets f => ∀ l : Local,
    let info := (nu_timer_init .drv_timer clk l 1).info
    info.minfreq ≤ f → f ≤ info.maxfreq → FreqSet clk f

/-- There is a prescale for the frequency: it is above the lower limit, or the limit lost so little when
it was rounded down that it is one itself. -/
def Request.Fits (clk : BitVec 32) : Request → Prop
  | opens _ _ => True
  | sets f => clk / 256 ≤ f → f ≤ clk → clk / 256 < f ∨ clk % 256 < clk / 256

/-- **The requests that are answered rightly**: every rate that a timer is opened with, and of the
advertised frequencies those that there is a prescale for. -/
theorem rates_right_iff (clk : BitVec 32) (q : Request) : q.Right clk ↔ q.Fits clk := by
  cases q with
  | opens mode f => exact iff_of_true (fun hf r => TIMER_Open_right hf r clk mode) trivial
  | sets f =>
    have hinfo (l : Local) : (nu_timer_init .drv_timer clk l 1).info = ⟨clk, clk / 256⟩ := by
      simp [nu_timer_init]
    have : Nonempty Local := ⟨resetLocal⟩
    simp only [Request.Right, Request.Fits, hinfo, forall_const]
    refine forall_congr' fun hmin => forall_congr' fun hmax => ?_
    have hdiv : (clk / 256).toNat = clk.toNat / 256 := BitVec.toNat_udiv
    have hmod : (clk % 256).toNat = clk.toNat % 256 := BitVec.toNat_umod
    have hmin : clk.toNat / 256 ≤ f.toNat := hdiv ▸ BitVec.le_def.mp hmin
    rw [freqSet_iff (BitVec.le_def.mp hmax), fits_iff hmin, BitVec.lt_def, BitVec.lt_def, hdiv, hmod]

/-- A clock of 10922 Hz, the 32768 Hz crystal divided by three: 42 Hz is advertised, and would take a
prescale of 259. -/
theorem freq_set_42Hz : ¬ ∀ clk (q : Request), q.Right clk := by
  intro h
  have hset := h 10922 (.sets 42) resetLocal (by decide) (by decide)
  exact absurd ((freqSet_iff (by decide)).mp hset).2 (by decide)

end Timer
