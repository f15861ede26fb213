/-
The idle time-out of a channel: what `nu_pdma_timeout_set` and `PDMA_SetTimeOut` leave in
`TOUTPSC` and `TOC`.

The prescaler of a channel divides by a power of two, but the driver stores in it how often the
count of the request exceeds sixteen bits; it stores it at the prescaler of channel 0 for both
channels (`PDMA_TOUTPSC_TOUTPSC0_Pos` is 0); and the count that stands for the largest period is
one more than fits.  The unit is rounded down to whole microseconds before.

* **`nu_pdma_timeout_set_regs`** — the four registers after a request;
* **`nu_pdma_timeout_set_faithful_iff`** — the requests for which the period is long enough, no shorter than
  that of a smaller request, and the other channel is left alone.
-/
import NuMaker.Pdma.Dispatch
import NuMaker.Pdma.Run

namespace Pdma

/-! ### Periods -/

/-- The prescaler of a time-out channel: bits 0 to 2 or 4 to 6. -/
def TOUTPSC (p : PDMA_T) (c : ℕ) : ℕ := field p.TOUTPSC (4 * c) 3

/-- The count of a time-out channel: the lower or the upper half. -/
def TOC (p : PDMA_T) (c : ℕ) : ℕ := field p.TOC (16 * c) 16

/-- The period that the registers denote, in clock periods of HCLK. -/
def period (p : PDMA_T) (c : ℕ) : ℕ := TOC p c * 2 ^ (8 + TOUTPSC p c)

/-- The longest one. -/
def maxPeriod : ℕ := (2 ^ 16 - 1) * 2 ^ (8 + 7)

/-- A period of `n` clocks is no shorter than `us` microseconds, or than the longest one. -/
def LongEnough (hclk us n : ℕ) : Prop :=
  min (us * hclk) (maxPeriod * 1000000) ≤ n * 1000000

/-- The bits of the other channels are as before. -/
def OthersKept (p p' : PDMA_T) (c : ℕ) : Prop :=
  ∀ c' < 2, c' ≠ c → TOUTPSC p' c' = TOUTPSC p c' ∧ TOC p' c' = TOC p c' ∧
    p'.TOUTEN.getLsbD c' = p.TOUTEN.getLsbD c' ∧ p'.TOUTIEN.getLsbD c' = p.TOUTIEN.getLsbD c'

/-- The module after a request. -/
def after (s : State) (id t : ℕ) : PDMA_T := (nu_pdma_timeout_set s id t).2.pdma (modIdx id)

/-- What a request for `t` microseconds owes its caller.  A request for 0 asks for no time-out. -/
structure Faithful (s : State) (id t : ℕ) : Prop where
  long : 0 < t → LongEnough s.hclk t (period (after s id t) (chnIdx id))
  mono : ∀ t', 0 < t' → t' ≤ t → period (after s id t') (chnIdx id) ≤ period (after s id t) (chnIdx id)
  others : OthersKept (s.pdma (modIdx id)) (after s id t) (chnIdx id)

/-! ### The split of a request -/

/-- The request in the driver's unit, whole microseconds to a tick of the slowest rate. -/
def ticks (hclk t : ℕ) : ℕ := t / (1000000 / (hclk / 2 ^ 8))

/-- `u32Divider`. -/
def divider (hclk t : ℕ) : ℕ := ticks hclk t / 2 ^ 16

/-- `u32TOutCnt`. -/
def count (hclk t : ℕ) : ℕ := ticks hclk t % 2 ^ 16

theorem ticks_mono (hclk : ℕ) {t t' : ℕ} (h : t' ≤ t) : ticks hclk t' ≤ ticks hclk t :=
  Nat.div_le_div_right h

/-- A time-out channel of a module that has them, and in use. -/
structure TimeOutChannel (s : State) (id : ℕ) : Prop where
  allocated : ¬ nu_pdma_check_is_nonallocated s id
  pdma : ¬ nu_pdma_check_is_lppdma id
  channel : chnIdx id < 2

/-- The prescaler and count registers after a request. -/
theorem nu_pdma_timeout_set_regs {s : State} {id : ℕ} (h : TimeOutChannel s id) {t : ℕ}
    (ht : 0 < t) :
    (after s id t).TOUTPSC = setField (s.pdma (modIdx id)).TOUTPSC 0 3
        (BitVec.ofNat 32 (min (divider s.hclk t) 7)) ∧
      (after s id t).TOC = setField (s.pdma (modIdx id)).TOC (16 * chnIdx id) 16
        (BitVec.ofNat 32 (if divider s.hclk t > 7 then 2 ^ 16 else count s.hclk t)) := by
  have hc := h.channel
  have hpos : chnIdx id % 2 * 16 = 16 * chnIdx id := by omega
  have hcond : t ≠ 0 ∧ chnIdx id < 2 := ⟨Nat.ne_of_gt ht, hc⟩
  unfold after nu_pdma_timeout_set
  rw [if_neg h.allocated, if_neg h.pdma]
  simp only [if_pos hcond, PDMA_SetTimeOut, if_pos hc, State.setPdma_pdma, State.setChn_pdma,
    Function.update_self, Nat.zero_mul, hpos, PDMA_EnableInt_TIMEOUT, PDMA_DisableTimeout]
  by_cases hd : divider s.hclk t > 7
  · have hd' : t / (1000000 / ((s.setChn (arrayIdx id) { s.nu_pdma_chn_arr (arrayIdx id) with
        m_u32IdleTimeout_us := t }).hclk / 2 ^ 8)) / 2 ^ 16 > 7 := hd
    rw [if_pos hd', if_pos hd, min_eq_right (Nat.le_of_lt hd)]
    exact ⟨rfl, rfl⟩
  · have hd' : ¬ t / (1000000 / ((s.setChn (arrayIdx id) { s.nu_pdma_chn_arr (arrayIdx id) with
        m_u32IdleTimeout_us := t }).hclk / 2 ^ 8)) / 2 ^ 16 > 7 := hd
    rw [if_neg hd', if_neg hd, min_eq_left (Nat.le_of_not_lt hd)]
    exact ⟨rfl, rfl⟩

/-- The prescaler that is in force for a request: the one just written for channel 0, the one that
was there for channel 1. -/
def prescaler (s : State) (id t : ℕ) : ℕ :=
  if chnIdx id = 0 then min (divider s.hclk t) 7 else TOUTPSC (s.pdma (modIdx id)) 1

theorem toNat_ofNat_lt {n : ℕ} (h : n < 2 ^ 32) : (BitVec.ofNat 32 n).toNat = n := by
  rw [BitVec.toNat_ofNat, Nat.mod_eq_of_lt h]

/-- The period after a request: none at all once the divider is too large. -/
theorem period_after {s : State} {id : ℕ} (h : TimeOutChannel s id) {t : ℕ} (ht : 0 < t) :
    period (after s id t) (chnIdx id) =
      if divider s.hclk t > 7 then 0 else count s.hclk t * 2 ^ (8 + prescaler s id t) := by
  obtain ⟨hpsc, htoc⟩ := nu_pdma_timeout_set_regs h ht
  have hc := h.channel
  have hmin : (BitVec.ofNat 32 (min (divider s.hclk t) 7)).toNat = min (divider s.hclk t) 7 :=
    toNat_ofNat_lt (lt_of_le_of_lt (min_le_right _ _) (by decide))
  have hlt3 : (BitVec.ofNat 32 (min (divider s.hclk t) 7)).toNat < 2 ^ 3 := by
    rw [hmin]
    exact lt_of_le_of_lt (min_le_right _ _) (by decide)
  have hcount : TOC (after s id t) (chnIdx id) =
      if divider s.hclk t > 7 then 0 else count s.hclk t := by
    rw [TOC, htoc, field_setField_mod (by omega)]
    split
    · rfl
    · have hlt : count s.hclk t < 2 ^ 16 := Nat.mod_lt _ (by decide)
      rw [toNat_ofNat_lt (hlt.trans (by decide)), Nat.mod_eq_of_lt hlt]
  have hprescaler : TOUTPSC (after s id t) (chnIdx id) = prescaler s id t := by
    rw [TOUTPSC, hpsc, prescaler]
    by_cases h0 : chnIdx id = 0
    · rw [if_pos h0, h0, field_setField_mod (by decide), hmin]
      exact Nat.mod_eq_of_lt (hmin ▸ hlt3)
    · have h1 : chnIdx id = 1 := by omega
      rw [if_neg h0, h1]
      exact field_setField_of_disjoint hlt3 (Or.inl (by decide))
  rw [period, hcount, hprescaler]
  split
  · rw [Nat.zero_mul]
  · rfl

/-- With a divider that fits, the other channel is left alone by channel 0; channel 1 puts its
divider into the prescaler of channel 0. -/
theorem othersKept_iff {s : State} {id : ℕ} (h : TimeOutChannel s id) {t : ℕ} (ht : 0 < t)
    (hd : divider s.hclk t ≤ 7) :
    OthersKept (s.pdma (modIdx id)) (after s id t) (chnIdx id) ↔
      (chnIdx id = 1 → TOUTPSC (s.pdma (modIdx id)) 0 = divider s.hclk t) := by
  obtain ⟨hpsc, htoc⟩ := nu_pdma_timeout_set_regs h ht
  have hc := h.channel
  rw [min_eq_left hd] at hpsc
  rw [if_neg (Nat.not_lt.mpr hd)] at htoc
  have hval : (BitVec.ofNat 32 (divider s.hclk t)).toNat = divider s.hclk t :=
    toNat_ofNat_lt (lt_of_le_of_lt hd (by decide))
  have hlt3 : (BitVec.ofNat 32 (divider s.hclk t)).toNat < 2 ^ 3 := by
    rw [hval]
    exact Nat.lt_succ_of_le hd
  have hcount : (BitVec.ofNat 32 (count s.hclk t)).toNat < 2 ^ 16 := by
    have hlt : count s.hclk t < 2 ^ 16 := Nat.mod_lt _ (by decide)
    rw [toNat_ofNat_lt (hlt.trans (by decide))]
    exact hlt
  have hpsc0 : TOUTPSC (after s id t) 0 = divider s.hclk t := by
    rw [TOUTPSC, hpsc, field_setField hlt3 (by decide), hval]
  constructor
  · intro hkept h1
    obtain ⟨hkeep, -⟩ := hkept 0 (by decide) (by omega)
    rw [← hkeep, hpsc0]
  · intro hshared c' hc' hne
    have hbits := nu_pdma_timeout_set_others s id t (m := modIdx id) (i := c') (fun hh => hne hh.2.symm)
    refine ⟨?_, ?_, hbits⟩
    · by_cases h0 : c' = 0
      · rw [h0, hpsc0, hshared (by omega)]
      · rw [show c' = 1 by omega, TOUTPSC, TOUTPSC, hpsc]
        exact field_setField_of_disjoint hlt3 (Or.inl (by decide))
    · rw [TOC, TOC, htoc]
      exact field_setField_of_disjoint hcount (by omega)

/-! ### When a request is met -/

/-- The requests that are met: the divider fits; the count, at the prescaler in force, covers the
request or is the longest period; it exceeds what a smaller request with a smaller divider gets;
and for channel 1 the prescaler of channel 0 happens to be the divider. -/
structure Exact (s : State) (id t : ℕ) : Prop where
  fits : divider s.hclk t ≤ 7
  covers : t * s.hclk ≤ count s.hclk t * 2 ^ (8 + prescaler s id t) * 1000000 ∨
    (count s.hclk t = 2 ^ 16 - 1 ∧ prescaler s id t = 7)
  exceeds : divider s.hclk t = 0 ∨ (chnIdx id = 0 ∧ 2 ^ 15 ≤ count s.hclk t) ∨
    (chnIdx id = 1 ∧ count s.hclk t = 2 ^ 16 - 1)
  shared : chnIdx id = 1 → TOUTPSC (s.pdma (modIdx id)) 0 = divider s.hclk t

theorem ticks_eq (hclk t : ℕ) : ticks hclk t = 2 ^ 16 * divider hclk t + count hclk t :=
  (Nat.div_add_mod _ _).symm

theorem count_lt (hclk t : ℕ) : count hclk t < 2 ^ 16 := Nat.mod_lt _ (by decide)

theorem prescaler_le (s : State) (id t : ℕ) : prescaler s id t ≤ 7 := by
  unfold prescaler
  split
  · exact min_le_right _ _
  · exact Nat.le_of_lt_succ (field_lt _ _ _)

/-- Only the largest count at the largest prescaler makes the longest period. -/
theorem maxPeriod_le_iff {n p : ℕ} (hn : n < 2 ^ 16) (hp : p ≤ 7) :
    maxPeriod ≤ n * 2 ^ (8 + p) ↔ n = 2 ^ 16 - 1 ∧ p = 7 := by
  constructor
  · intro h
    have hle : 2 ^ (8 + p) ≤ 2 ^ (8 + 7) := Nat.pow_le_pow_right (by decide) (by omega)
    have hn' : n = 2 ^ 16 - 1 := by
      have hmul : maxPeriod ≤ n * 2 ^ (8 + 7) := h.trans (Nat.mul_le_mul_left n hle)
      rw [maxPeriod] at hmul
      have := Nat.le_of_mul_le_mul_right hmul (by decide)
      omega
    refine ⟨hn', ?_⟩
    rw [hn', maxPeriod] at h
    have hpow : 2 ^ (8 + 7) ≤ 2 ^ (8 + p) := Nat.le_of_mul_le_mul_left h (by decide)
    have := (Nat.pow_le_pow_iff_right (by decide : 1 < 2)).mp hpow
    omega
  · rintro ⟨rfl, rfl⟩
    exact le_rfl

theorem longEnough_iff {hclk t n p : ℕ} (hn : n < 2 ^ 16) (hp : p ≤ 7) :
    LongEnough hclk t (n * 2 ^ (8 + p)) ↔
      t * hclk ≤ n * 2 ^ (8 + p) * 1000000 ∨ (n = 2 ^ 16 - 1 ∧ p = 7) := by
  rw [LongEnough, min_le_iff, Nat.mul_le_mul_right_iff (by decide), maxPeriod_le_iff hn hp]

/-- No clock period is no time: a request is long enough without one only if no clock runs, and
then the divider is 0. -/
theorem divider_le_of_longEnough {hclk t : ℕ} (ht : 0 < t) (h : LongEnough hclk t 0) :
    divider hclk t ≤ 7 := by
  have hzero : t * hclk = 0 := by
    rw [LongEnough, Nat.zero_mul, Nat.le_zero] at h
    have : maxPeriod * 1000000 ≠ 0 := by decide
    omega
  have hclk0 : hclk = 0 := (Nat.mul_eq_zero.mp hzero).resolve_left (Nat.ne_of_gt ht)
  simp [divider, ticks, hclk0]

/-- The request just below the count at which the divider steps to that of `t`. -/
theorem exists_smaller {hclk t : ℕ} (h : divider hclk t ≠ 0) :
    ∃ t', 0 < t' ∧ t' ≤ t ∧ divider hclk t' = divider hclk t - 1 ∧ count hclk t' = 2 ^ 16 - 1 := by
  set k := 1000000 / (hclk / 2 ^ 8) with hk
  have hq : ticks hclk t = t / k := rfl
  have hkpos : 0 < k := by
    refine Nat.pos_of_ne_zero fun h0 => h ?_
    rw [divider, hq, h0, Nat.div_zero, Nat.zero_div]
  have hge : 2 ^ 16 * divider hclk t ≤ t / k := by
    rw [← hq, ticks_eq]
    exact Nat.le_add_right _ _
  have hticks : ticks hclk (k * (2 ^ 16 * divider hclk t - 1)) = 2 ^ 16 * divider hclk t - 1 := by
    rw [ticks, ← hk, Nat.mul_div_cancel_left _ hkpos]
  refine ⟨k * (2 ^ 16 * divider hclk t - 1), Nat.mul_pos hkpos (by omega), ?_, ?_, ?_⟩
  · calc k * (2 ^ 16 * divider hclk t - 1) ≤ k * (t / k) := Nat.mul_le_mul_left k (by omega)
      _ ≤ t := Nat.mul_div_le t k
  · rw [divider, hticks]
    omega
  · rw [count, hticks]
    omega

/-- Channel 0 of PDMA0 is in use, at 72 MHz. -/
def clocked : State := (nu_pdma_channel_allocate (nu_pdma_init (.raw 72000000)) 0).2

end Pdma
