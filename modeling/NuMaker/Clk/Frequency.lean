/-
The clock driver: the frequency of the core.

`hclk` is the frequency itself, a rational number.  The driver computes with whole numbers, and drops
the lowest bits of the frequency of the PLL's source so that the product fits a word.  The
access cycles of the RMC do not depend on what is lost (`fit_iff`), and within the range of
`CLK_SetCoreClock` the search ends at a frequency in that range (`nearest_spec`).
-/
import NuMaker.Clk.Driver
import Mathlib.Algebra.Order.Field.Basic
import Mathlib.Data.Rat.Cast.Order
import Mathlib.Tactic.FieldSimp
import Mathlib.Tactic.IntervalCases
import Mathlib.Tactic.Linarith
import Mathlib.Tactic.Ring

namespace Clk

variable {c : Regs} {src : HclkSrc}

/-! ### Sources and their frequencies -/

/-- The PLL runs on HIRC. -/
def Regs.PllOnHIRC (c : Regs) : Prop :=
  c.PLLCTL &&& CLK_PLLCTL_PLLSRC_HIRC = CLK_PLLCTL_PLLSRC_HIRC

instance : Decidable c.PllOnHIRC := inferInstanceAs (Decidable (_ = _))

/-- `NF`, `NR` and `NO` of the PLL. -/
def Regs.NF (c : Regs) : ℕ := field c.PLLCTL2 0 9 + 2
def Regs.NR (c : Regs) : ℕ := field c.PLLCTL2 9 5 + 1
def Regs.NO (c : Regs) : ℕ := [1, 2, 2, 4].getD (field c.PLLCTL2 14 2) 0

/-- The frequency of a source: MIRC has a field of `PWRCTL` for its own, of up to 8 MHz, and the PLL
makes `FIN * 2 * NF / NR / NO`. -/
def Regs.freq (c : Regs) : HclkSrc → ℚ
  | .HXT => HXT_FREQ
  | .LXT => LXT_FREQ
  | .LIRC => LIRC_FREQ
  | .MIRC => 1000000 * 2 ^ min (field c.PWRCTL 28 3) 3
  | .HIRC48M => HIRC48_FREQ
  | .HIRC => HIRC_FREQ
  | .PLL =>
    if c.PLLCTL &&& CLK_PLLCTL_BP_Msk = CLK_PLLCTL_BP_Msk then pllSrcFreq c.PLLCTL
    else pllSrcFreq c.PLLCTL * 2 * c.NF / (c.NR * c.NO)

/-- What HCLK divides its source by. -/
def Regs.div (c : Regs) : ℕ := field c.CLKDIV0 0 4 + 1

/-- The frequency of HCLK, from that source. -/
def Regs.hclk (c : Regs) (src : HclkSrc) : ℚ := c.freq src / c.div

theorem div_pos (c : Regs) : 0 < c.div := Nat.succ_pos _

theorem div_le (c : Regs) : c.div ≤ 16 := by
  have := field_lt c.CLKDIV0 0 4
  rw [Regs.div]
  omega

theorem NF_le (c : Regs) : c.NF ≤ 513 := by
  have := field_lt c.PLLCTL2 0 9
  rw [Regs.NF]
  omega

theorem NO_mem (c : Regs) : c.NO = 1 ∨ c.NO = 2 ∨ c.NO = 4 := by
  have hlt : field c.PLLCTL2 14 2 < 4 := field_lt c.PLLCTL2 14 2
  rw [Regs.NO]
  generalize field c.PLLCTL2 14 2 = k at hlt
  interval_cases k <;> decide

/-- The input and the output divider of the PLL together. -/
theorem NR_NO (c : Regs) : 0 < c.NR * c.NO ∧ c.NR * c.NO ≤ 128 := by
  have hlt : field c.PLLCTL2 9 5 < 32 := field_lt c.PLLCTL2 9 5
  have hNR : 0 < c.NR ∧ c.NR ≤ 32 := by
    rw [Regs.NR]
    omega
  rcases NO_mem c with h | h | h <;> rw [h] <;> omega

/-- Both sources of the PLL have one frequency. -/
theorem pllSrcFreq_eq (r : BitVec 32) : pllSrcFreq r = 12000000 := by
  rw [pllSrcFreq, HIRC_FREQ, HXT_FREQ, ite_self]

/-! ### Rounding -/

/-- Whole-number division does not take the quotient over a multiple of 25 MHz, nor down to it. -/
theorem over_iff {n m d j : ℕ} (hm : 0 < m) (hm' : m ≤ 128) (hd : 0 < d) (hd' : d ≤ 16) :
    25000000 * j < 3000000 * n / m * 8 / d ↔ 25000000 * (j * (m * d)) < 24000000 * n := by
  rw [Nat.lt_iff_add_one_le, Nat.le_div_iff_mul_le hd]
  constructor
  · intro h
    have hq : 3000000 * n / m * m ≤ 3000000 * n := Nat.div_mul_le_self _ _
    have hmd : 0 < m * d := Nat.mul_pos hm hd
    have hmul := Nat.mul_le_mul_right m h
    nlinarith
  · intro h
    -- the numerators are whole numbers of MHz, so there is room for what the division loses
    have hroom : 3125000 * (j * (m * d)) + 125000 ≤ 3000000 * n := by omega
    have hq : 3125000 * (j * d) + 976 ≤ 3000000 * n / m := by
      rw [Nat.le_div_iff_mul_le hm]
      have hswap : 3125000 * (j * d) * m = 3125000 * (j * (m * d)) := by ring
      rw [Nat.add_mul, hswap]
      omega
    have hexp : (25000000 * j + 1) * d = 25000000 * (j * d) + d := by ring
    rw [hexp]
    omega

/-- The frequency that the driver computes for the PLL, where the core keeps to its range. -/
theorem getPLLClockFreq_eq (hpd : c.PLLCTL &&& (CLK_PLLCTL_PD_Msk ||| CLK_PLLCTL_OE_Msk) = 0)
    (hbp : ¬ c.PLLCTL &&& CLK_PLLCTL_BP_Msk = CLK_PLLCTL_BP_Msk)
    (hle : 24000000 * c.NF ≤ 72000000 * (c.NR * c.NO * 16)) :
    CLK_GetPLLClockFreq c = 3000000 * c.NF / (c.NR * c.NO) * 8 := by
  obtain ⟨hpos, -⟩ := NR_NO c
  have hNF := NF_le c
  have hq : 3000000 * c.NF / (c.NR * c.NO) ≤ 144000000 := by
    refine Nat.div_le_of_le_mul ?_
    have hswap : c.NR * c.NO * 16 = 16 * (c.NR * c.NO) := Nat.mul_comm _ _
    rw [hswap] at hle
    rw [Nat.mul_comm (c.NR * c.NO)]
    omega
  rw [CLK_GetPLLClockFreq, if_neg (not_not_intro hpd), if_neg hbp]
  show u32 (u32 (u32 (pllSrcFreq c.PLLCTL / 4 * c.NF) / (c.NR * c.NO) * 4) * 2) = _
  rw [pllSrcFreq_eq, show (12000000 / 4 : ℕ) = 3000000 from rfl]
  have h1 : u32 (3000000 * c.NF) = 3000000 * c.NF := Nat.mod_eq_of_lt (by omega)
  rw [h1]
  generalize 3000000 * c.NF / (c.NR * c.NO) = q at hq
  have h2 : u32 (q * 4) = q * 4 := Nat.mod_eq_of_lt (by omega)
  rw [h2, u32, Nat.mod_eq_of_lt (by omega)]
  ring

/-- HCLK runs on that source. -/
def Regs.Selected (c : Regs) (src : HclkSrc) : Prop :=
  c.CLKSEL0 &&& CLK_CLKSEL0_HCLK0SEL_Msk = CLK_CLKSEL0_HCLKSEL src

theorem core_direct (hsel : c.Selected src) (hsrc : src ≠ .PLL) :
    SystemCoreClockUpdate c = gau32ClkSrcTbl.getD (CLK_CLKSEL0_HCLKSEL src).toNat 0 / c.div := by
  have hne : CLK_CLKSEL0_HCLKSEL src ≠ CLK_CLKSEL0_HCLKSEL .PLL := by
    revert hsrc
    cases src <;> decide
  rw [SystemCoreClockUpdate, hsel, if_pos hne]
  rfl

theorem core_PLL (hsel : c.Selected .PLL) :
    SystemCoreClockUpdate c = CLK_GetPLLClockFreq c / c.div := by
  rw [SystemCoreClockUpdate, hsel, if_neg (not_not_intro rfl)]
  rfl

/-- A source of its own frequency, as the core divides it. -/
theorem over_direct {f d j : ℕ} (hd : 0 < d) (hj : 1 ≤ j) (hf : f ≤ 25000000 ∨ f = 48000000) :
    25000000 * j < f / d ↔ ((25000000 * j : ℕ) : ℚ) < (f : ℚ) / d := by
  have hd' : (0 : ℚ) < d := Nat.cast_pos.2 hd
  rw [lt_div_iff₀ hd', Nat.lt_iff_add_one_le, Nat.le_div_iff_mul_le hd, ← Nat.cast_mul, Nat.cast_lt,
    Nat.add_mul, Nat.one_mul, Nat.mul_assoc]
  have hjd : d ≤ j * d := Nat.le_mul_of_pos_left d hj
  omega

/-- **The driver is on the right side of 25 and of 50 MHz**, for all that it rounds. -/
theorem core_over_iff {j : ℕ} (hj : 1 ≤ j) (hsel : c.Selected src)
    (hpd : src = .PLL → c.PLLCTL &&& (CLK_PLLCTL_PD_Msk ||| CLK_PLLCTL_OE_Msk) = 0)
    (hle : c.hclk src ≤ 72000000) :
    25000000 * j < SystemCoreClockUpdate c ↔ ((25000000 * j : ℕ) : ℚ) < c.hclk src := by
  have hd := div_pos c
  cases src with
  | PLL =>
    rw [core_PLL hsel]
    by_cases hbp : c.PLLCTL &&& CLK_PLLCTL_BP_Msk = CLK_PLLCTL_BP_Msk
    · rw [CLK_GetPLLClockFreq, if_neg (not_not_intro (hpd rfl)), if_pos hbp, pllSrcFreq_eq,
        over_direct hd hj (Or.inl (by omega)), Regs.hclk, Regs.freq, if_pos hbp, pllSrcFreq_eq]
    · obtain ⟨hm, hm'⟩ := NR_NO c
      have hd' : (0 : ℚ) < c.div := Nat.cast_pos.2 hd
      have hmq : (0 : ℚ) < ((c.NR * c.NO : ℕ) : ℚ) := Nat.cast_pos.2 hm
      have hfreq : c.hclk .PLL = ((24000000 * c.NF : ℕ) : ℚ) / ((c.NR * c.NO : ℕ) : ℚ) / c.div := by
        rw [Regs.hclk, Regs.freq, if_neg hbp, pllSrcFreq_eq]
        push_cast
        ring
      rw [hfreq, div_le_iff₀ hd', div_le_iff₀ hmq] at hle
      have hle' : 24000000 * c.NF ≤ 72000000 * c.div * (c.NR * c.NO) := by exact_mod_cast hle
      rw [getPLLClockFreq_eq (hpd rfl) hbp ?_, over_iff hm hm' hd (div_le c), hfreq, lt_div_iff₀ hd',
        lt_div_iff₀ hmq, ← Nat.cast_mul, ← Nat.cast_mul, Nat.cast_lt]
      · have hswap : 25000000 * j * c.div * (c.NR * c.NO) =
            25000000 * (j * (c.NR * c.NO * c.div)) := by ring
        rw [hswap]
      · have := Nat.mul_le_mul_left (72000000 * (c.NR * c.NO)) (div_le c)
        calc 24000000 * c.NF ≤ 72000000 * (c.NR * c.NO) * c.div := by
              rw [Nat.mul_right_comm]
              exact hle'
          _ ≤ 72000000 * (c.NR * c.NO) * 16 := this
          _ = 72000000 * (c.NR * c.NO * 16) := Nat.mul_assoc _ _ _
  | MIRC =>
    -- neither the table's 4 MHz nor the 8 MHz that the oscillator may have
    have hcore : SystemCoreClockUpdate c ≤ 4000000 := by
      rw [core_direct hsel (by decide)]
      exact Nat.div_le_self _ _
    have hreal : c.hclk .MIRC ≤ 8000000 := by
      have hpow : (2 : ℚ) ^ min (field c.PWRCTL 28 3) 3 ≤ 2 ^ 3 :=
        pow_le_pow_right₀ (by norm_num) (Nat.min_le_right _ _)
      have hone : (1 : ℚ) ≤ c.div := by exact_mod_cast hd
      refine (div_le_self ?_ hone).trans ?_ <;> rw [Regs.freq]
      · positivity
      · linarith
    have hbig : ((25000000 : ℕ) : ℚ) ≤ ((25000000 * j : ℕ) : ℚ) := by
      exact_mod_cast Nat.le_mul_of_pos_right _ hj
    refine iff_of_false (by omega) (not_lt.2 (hreal.trans (le_trans ?_ hbig)))
    norm_num
  | HXT | LXT | LIRC | HIRC48M | HIRC =>
    rw [core_direct hsel (by decide)]
    exact over_direct hd hj (by decide)

/-! ### The search -/

theorem mem_rows {p nr nf : ℕ} :
    (nr, nf) ∈ (rows p).flatten ↔
      (1 ≤ nr ∧ nr ≤ 32) ∧ (1000000 ≤ p / nr ∧ p / nr ≤ 8000000) ∧ 12 ≤ nf ∧ nf ≤ 255 := by
  simp only [rows, List.mem_flatten, List.mem_map, List.mem_filter, List.mem_range'_1,
    decide_eq_true_eq]
  constructor
  · rintro ⟨_, ⟨nr', ⟨hr, hp⟩, rfl⟩, hmem⟩
    obtain ⟨nf', hf, h⟩ := List.mem_map.1 hmem
    obtain ⟨rfl, rfl⟩ := Prod.mk.inj h
    rw [List.mem_range'_1] at hf
    exact ⟨by omega, hp, by omega⟩
  · rintro ⟨hr, hp, hf⟩
    refine ⟨_, ⟨nr, ⟨by omega, hp⟩, rfl⟩, List.mem_map.2 ⟨nf, ?_, rfl⟩⟩
    rw [List.mem_range'_1]
    omega

/-- What the PLL makes of its dividers, as the search computes it. -/
def fout (nr nf : ℕ) : ℕ := 12000000 / nr * 2 * nf / 4

/-- What dividers the search may end with make: at least 25 MHz, and if not that then a good deal
more; and no rounding takes them over 72 MHz or to 25 MHz. -/
theorem fout_spec {nr nf : ℕ} (hlo : 1000000 ≤ 12000000 / nr) (hhi : 12000000 / nr ≤ 8000000)
    (hvco : 100000000 ≤ 12000000 / nr * 2 * nf) :
    (fout nr nf ≤ 72000000 ↔ nf ≤ 12 * nr) ∧ (fout nr nf = 25000000 ↔ 6 * nf = 25 * nr) ∧
      (fout nr nf = 25000000 ∨ 25090907 ≤ fout nr nf) ∧ 2 ≤ nr ∧ nr ≤ 12 := by
  have h2 : 2 ≤ nr := by
    by_contra h
    interval_cases nr <;> omega
  have h12 : nr ≤ 12 := by
    by_contra h
    have : 12000000 / nr ≤ 12000000 / 13 := Nat.div_le_div_left (by omega) (by omega)
    omega
  rw [fout]
  interval_cases nr <;> omega

/-- A requested frequency from which the search ends at 25 MHz. -/
def Rounds25 (u32PllFreq : ℕ) : Prop := 25000000 ≤ u32PllFreq ∧ u32PllFreq ≤ 25045453

/-- **The search**, from a request within the range of `CLK_SetCoreClock`: the dividers fit their
fields, the PLL keeps to 72 MHz, and it is which requests it takes to 25 MHz. -/
theorem nearest_spec {f off nr nf : ℕ} (hlo : FREQ_25MHZ ≤ f) (hhi : f ≤ FREQ_72MHZ)
    (h : nearest 12000000 4 f = (off, nr, nf)) :
    (2 ≤ nr ∧ nr ≤ 12) ∧ (12 ≤ nf ∧ nf ≤ 255) ∧ nf ≤ 12 * nr ∧
      (6 * nf = 25 * nr ↔ Rounds25 f) := by
  rw [FREQ_25MHZ] at hlo
  rw [FREQ_72MHZ] at hhi
  have hbest : Nearest.Best (u32FoutOffset 12000000 4 f) (0xFFFFFFFF, (0, 0))
      (rows 12000000).flatten (off, nr, nf) := h ▸ Nearest.rows_best _ _
  -- the dividers for 72 MHz, for 25 MHz and for what comes next to it are gone through
  have h72 := hbest.le (3, 36) (mem_rows.2 (by omega)) _ rfl
  have h25 := hbest.le (6, 25) (mem_rows.2 (by omega)) _ rfl
  have hnext := hbest.le (11, 46) (mem_rows.2 (by omega)) _ rfl
  rcases hbest.found with hstart | ⟨hmem, hdist⟩
  · rw [(Prod.mk.inj hstart).1] at h72
    dsimp only at h72
    split at h72 <;> omega
  obtain ⟨-, ⟨href, href'⟩, hnf⟩ := mem_rows.1 hmem
  dsimp only [u32FoutOffset] at hdist
  split at hdist
  · next hvco =>
    obtain ⟨hle, heq, hsep, hnr⟩ := fout_spec href href' hvco.1
    rw [Option.some.injEq] at hdist
    change (if fout nr nf > f then fout nr nf - f else f - fout nr nf) = off at hdist
    refine ⟨hnr, hnf, hle.1 ?_, heq.symm.trans ?_⟩
    · dsimp only at h72
      split at hdist <;> split at h72 <;> omega
    · dsimp only at h25 hnext
      rw [Rounds25]
      split at hdist <;> split at h25 <;> split at hnext <;> omega
  · cases hdist

/-! ### The dividers in their register -/

theorem dividers_toNat {o nr nf : ℕ} (ho : o ≤ 3) (hr : 1 ≤ nr ∧ nr ≤ 32) (hf : 2 ≤ nf ∧ nf ≤ 513) :
    (dividers o nr nf).toNat = (nf - 2) + 2 ^ 9 * ((nr - 1) + 2 ^ 5 * o) := by
  have hO : (BitVec.ofNat 32 o <<< 14).toNat = 2 ^ 14 * o := by
    rw [BitVec.toNat_shiftLeft, BitVec.toNat_ofNat, Nat.shiftLeft_eq]
    omega
  have hR : ((BitVec.ofNat 32 nr - 1) <<< 9).toNat = 2 ^ 9 * (nr - 1) := by
    rw [BitVec.toNat_shiftLeft, BitVec.toNat_sub, BitVec.toNat_ofNat, Nat.shiftLeft_eq,
      show (1 : BitVec 32).toNat = 1 from rfl]
    omega
  have hF : ((BitVec.ofNat 32 nf - 2) <<< 0).toNat = nf - 2 := by
    rw [BitVec.toNat_shiftLeft, BitVec.toNat_sub, BitVec.toNat_ofNat, Nat.shiftLeft_eq,
      show (2 : BitVec 32).toNat = 2 from rfl]
    omega
  rw [dividers, BitVec.toNat_or, BitVec.toNat_or, hO, hR, hF,
    ← Nat.two_pow_add_eq_or_of_lt (by omega),
    show 2 ^ 14 * o + 2 ^ 9 * (nr - 1) = 2 ^ 9 * ((nr - 1) + 2 ^ 5 * o) by omega,
    ← Nat.two_pow_add_eq_or_of_lt (by omega)]
  omega

/-- The dividers that are written are read back. -/
theorem field_dividers {o nr nf : ℕ} (ho : o ≤ 3) (hr : 1 ≤ nr ∧ nr ≤ 32) (hf : 2 ≤ nf ∧ nf ≤ 513) :
    field (dividers o nr nf) 0 9 = nf - 2 ∧ field (dividers o nr nf) 9 5 = nr - 1 ∧
      field (dividers o nr nf) 14 2 = o := by
  have h := dividers_toNat ho hr hf
  refine ⟨?_, ?_, ?_⟩
  · exact field_pack (a := 0) (b := (nr - 1) + 2 ^ 5 * o) (by omega) (by omega) (by rw [h]; omega)
  · exact field_pack (a := nf - 2) (b := o) (by omega) (by omega) (by rw [h])
  · exact field_pack (a := (nf - 2) + 2 ^ 9 * (nr - 1)) (b := 0) (by omega) (by omega)
      (by rw [h]; omega)

/-- The dividers that are written are those that the PLL runs with. -/
theorem dividers_read {nr nf : ℕ} (hc : c.PLLCTL2 = dividers 3 nr nf) (hr : 1 ≤ nr ∧ nr ≤ 32)
    (hf : 2 ≤ nf ∧ nf ≤ 513) : c.NF = nf ∧ c.NR = nr ∧ c.NO = 4 := by
  obtain ⟨hF, hR, hO⟩ := field_dividers (Nat.le_refl 3) hr hf
  refine ⟨?_, ?_, ?_⟩
  · rw [Regs.NF, hc, hF]
    omega
  · rw [Regs.NR, hc, hR]
    omega
  · rw [Regs.NO, hc, hO]
    rfl

end Clk
