/-
The search for the dividers of the PLL, for any source clock.

`Clocks` are the frequencies of the two sources on a board; `CLK_EnablePLL` and
`CLK_GetPLLClockFreq` of the other modules are those of the clocks they were written for
(`enablePLL_board`).  The search does what it says:

* **`programmed`** — from 4 to 32 MHz and for every request, the dividers fit their fields and the
  constraints, and none comes nearer.

The frequency it then returns leaves out the factor 2 of the feedback, so it is about half of what
`CLK_GetPLLClockFreq` computes:

* **`returns_below`** — it is too low by more than 16 Hz;
* **`not_solved`** — so no call is both optimal and truthful.
-/
import NuMaker.Clk.Frequency

namespace Clk

/-! ### The driver, for the sources of a board -/

/-- `__HXT` and `__HIRC`. -/
structure Clocks where
  HXT : ℕ
  HIRC : ℕ

namespace Clocks

variable (k : Clocks)

/-- The source of the PLL, as its control register has it. -/
def pllSrcFreq (u32PllReg : BitVec 32) : ℕ :=
  if u32PllReg &&& CLK_PLLCTL_PLLSRC_HIRC = CLK_PLLCTL_PLLSRC_HIRC then k.HIRC else k.HXT

def CLK_GetPLLClockFreq (c : Regs) : ℕ :=
  if c.PLLCTL &&& (CLK_PLLCTL_PD_Msk ||| CLK_PLLCTL_OE_Msk) ≠ 0 then 0
  else if c.PLLCTL &&& CLK_PLLCTL_BP_Msk = CLK_PLLCTL_BP_Msk then k.pllSrcFreq c.PLLCTL
  else
    let u32NO := [1, 2, 2, 4].getD (field c.PLLCTL2 14 2) 0
    let u32NF := field c.PLLCTL2 0 9 + 2
    let u32NR := field c.PLLCTL2 9 5 + 1
    u32 (u32 (u32 (k.pllSrcFreq c.PLLCTL / 4 * u32NF) / (u32NR * u32NO) * 4) * 2)

/-- `u32PllSrcClk`. -/
def source (u32PllClkSrc : BitVec 32) : ℕ :=
  if u32PllClkSrc = CLK_PLLCTL_PLLSRC_HXT then k.HXT else k.HIRC

def CLK_EnablePLL (c : Regs) (u32PllClkSrc : BitVec 32) (u32PllFreq : ℕ) : List Write × ℕ :=
  let (source, u32CLK_SRC, u32PllSrcClk) :=
    if u32PllClkSrc = CLK_PLLCTL_PLLSRC_HXT then
      (enable CLK_PWRCTL_HXTEN_Msk, CLK_PLLCTL_PLLSRC_HXT, k.HXT)
    else (enable CLK_PWRCTL_HIRCEN_Msk, CLK_PLLCTL_PLLSRC_HIRC, k.HIRC)
  if u32PllFreq ≤ FREQ_500MHZ ∧ u32PllFreq ≥ FREQ_25MHZ then
    let (u32NO, u32Outdiv) := outDiv u32PllFreq
    let (_, u32MinNR, u32MinNF) := nearest u32PllSrcClk u32NO u32PllFreq
    ([ CLK_DisablePLL, source,
       fun c => { c with PLLCTL2 := dividers u32Outdiv u32MinNR u32MinNF },
       fun c => { c with PLLCTL := u32CLK_SRC } ],
     u32PllSrcClk / (u32NO * u32MinNR) * u32MinNF)
  else
    let ws : List Write :=
      [ CLK_DisablePLL, source,
        fun c => { c with PLLCTL2 := CLK_PLLCTL_72MHz },
        fun c => { c with PLLCTL := u32CLK_SRC } ]
    (ws, k.CLK_GetPLLClockFreq (run c ws))

end Clocks

theorem enablePLL_board : (⟨HXT_FREQ, HIRC_FREQ⟩ : Clocks).CLK_EnablePLL = CLK_EnablePLL := rfl

/-! ### What the search finds -/

variable {p f : ℕ}

/-- A source from 4 to 32 MHz can be run with some dividers. -/
theorem exists_candidate (hlo : 4000000 ≤ p) (hhi : p ≤ 32000000) :
    ∃ nr, (nr, 13) ∈ (rows p).flatten ∧ 4000000 ≤ p / nr ∧ p / nr ≤ 8000000 := by
  obtain h | h | h | h : p ≤ 8000000 ∨ (8000000 < p ∧ p ≤ 16000000) ∨
      (16000000 < p ∧ p ≤ 24000000) ∨ 24000000 < p := by omega
  · exact ⟨1, mem_rows.2 (by omega), by omega, by omega⟩
  · exact ⟨2, mem_rows.2 (by omega), by omega, by omega⟩
  · exact ⟨3, mem_rows.2 (by omega), by omega, by omega⟩
  · exact ⟨4, mem_rows.2 (by omega), by omega, by omega⟩

/-- `NO` and the field for it. -/
theorem outDiv_spec (f : ℕ) :
    (outDiv f).2 ≤ 3 ∧ [1, 2, 2, 4].getD (outDiv f).2 0 = (outDiv f).1 ∧
      1 ≤ (outDiv f).1 ∧ (outDiv f).1 ≤ 4 := by
  rw [outDiv]
  split
  · decide
  · split <;> decide

/-- **The search** ends with dividers that can be run, and at the least distance. -/
theorem nearest_best {no : ℕ} (hlo : 4000000 ≤ p) (hhi : p ≤ 32000000) (hf : f ≤ 500000000)
    {off nr nf : ℕ} (h : nearest p no f = (off, nr, nf)) :
    (nr, nf) ∈ (rows p).flatten ∧ u32FoutOffset p no f (nr, nf) = some off ∧
      ∀ a ∈ (rows p).flatten, ∀ d, u32FoutOffset p no f a = some d → off ≤ d := by
  have hbest : Nearest.Best (u32FoutOffset p no f) (0xFFFFFFFF, (0, 0)) (rows p).flatten
      (off, nr, nf) := h ▸ Nearest.rows_best _ _
  obtain ⟨nr₀, hmem₀, href, href'⟩ := exists_candidate hlo hhi
  have hvco : p / nr₀ * 2 * 13 ≥ 100000000 ∧ p / nr₀ * 2 * 13 < 500000000 := by omega
  have hle := hbest.le (nr₀, 13) hmem₀ _ (if_pos hvco)
  have hfout : p / nr₀ * 2 * 13 / no ≤ p / nr₀ * 2 * 13 := Nat.div_le_self _ _
  have hout : p / nr₀ * 2 * 13 / no < 500000000 := Nat.lt_of_le_of_lt (Nat.div_le_self _ _) hvco.2
  rcases hbest.found with hstart | ⟨hmem, hdist⟩
  · -- what the search starts with is farther away than any candidate
    rw [(Prod.mk.inj hstart).1] at hle
    dsimp only at hle
    generalize p / nr₀ * 2 * 13 / no = fout at hle hout
    split at hle <;> omega
  · exact ⟨hmem, hdist, hbest.le⟩

/-! ### The two formulas -/

/-- The frequency that is returned is well below the one that is computed from the registers. -/
theorem gap {nr no nf : ℕ} (hnr : 1 ≤ nr) (hno : 1 ≤ no ∧ no ≤ 4) (hnf : nf ≤ 255)
    (hvco : 100000000 ≤ p / nr * 2 * nf) :
    p / (no * nr) * nf + 17 ≤ p / 4 * nf / (nr * no) * 8 := by
  have hD : 1 ≤ nr * no := Nat.mul_pos hnr hno.1
  have hD4 : nr * no ≤ nr * 4 := Nat.mul_le_mul_left nr hno.2
  -- what the division of the written frequency loses
  have hret : p / (no * nr) * nf * (nr * no) ≤ p * nf := by
    have hle : p / (no * nr) * (no * nr) ≤ p := Nat.div_mul_le_self _ _
    calc p / (no * nr) * nf * (nr * no) = p / (no * nr) * (no * nr) * nf := by ring
      _ ≤ p * nf := Nat.mul_le_mul_right nf hle
  -- and that of the one read back
  have hget : p / 4 * nf < (p / 4 * nf / (nr * no) + 1) * (nr * no) :=
    Nat.lt_mul_of_div_lt (Nat.lt_succ_self _) hD
  have hquarter : p ≤ 4 * (p / 4) + 3 := by omega
  -- the source is at least 50 MHz times the dividers
  have hsrc : 50000000 * nr ≤ p * nf := by
    have hle : p / nr * nr ≤ p := Nat.div_mul_le_self _ _
    have hmul := Nat.mul_le_mul_right nf hle
    nlinarith
  generalize p / 4 * nf / (nr * no) = g at hget ⊢
  generalize p / (no * nr) * nf = r at hret ⊢
  by_contra hlt
  have hg : g * 8 ≤ r + 16 := by omega
  have hprod : g * 8 * (nr * no) ≤ (r + 16) * (nr * no) := Nat.mul_le_mul_right _ hg
  have hfour : p * nf ≤ 4 * (p / 4 * nf) + 3 * nf := by nlinarith
  nlinarith

/-- The formula of `CLK_GetPLLClockFreq`, where no word of it overflows. -/
theorem get_eq {nr no nf : ℕ} (hp : p ≤ 32000000) (hnr : 1 ≤ nr) (hno : 1 ≤ no) (hnf : nf ≤ 255)
    (hvco : p / nr * 2 * nf < 500000000) :
    u32 (u32 (u32 (p / 4 * nf) / (nr * no) * 4) * 2) = p / 4 * nf / (nr * no) * 8 := by
  have hprod : p / 4 * nf ≤ 8000000 * 255 := Nat.mul_le_mul (by omega) hnf
  -- a quarter of the source, over the dividers, is at most a quarter of `FREF` and one more
  have hq : p / 4 * nf / (nr * no) ≤ p / nr * nf + nf := by
    refine Nat.div_le_of_le_mul ?_
    have hsrc : p < nr * (p / nr + 1) := Nat.lt_mul_div_succ p hnr
    calc p / 4 * nf ≤ nr * (p / nr + 1) * nf := Nat.mul_le_mul_right nf (by omega)
      _ = nr * (p / nr * nf + nf) := by ring
      _ ≤ nr * no * (p / nr * nf + nf) := Nat.mul_le_mul_right _ (Nat.le_mul_of_pos_right nr hno)
  have hvco' : p / nr * nf < 250000000 := by
    rw [Nat.mul_right_comm] at hvco
    omega
  have h1 : u32 (p / 4 * nf) = p / 4 * nf := Nat.mod_eq_of_lt (by omega)
  rw [h1]
  generalize p / 4 * nf / (nr * no) = q at hq ⊢
  have h2 : u32 (q * 4) = q * 4 := Nat.mod_eq_of_lt (by omega)
  rw [h2, u32, Nat.mod_eq_of_lt (by omega)]
  ring

/-! ### The registers after the call -/

/-- Dividers that the PLL can be run with from a source of `p`: `NR` and `NF` in their ranges, and
the constraints on `FREF` and `FVCO`. -/
structure Admissible (p nr nf : ℕ) : Prop where
  indiv : 1 ≤ nr ∧ nr ≤ 32
  fbdiv : 12 ≤ nf ∧ nf ≤ 255
  fref : 1000000 ≤ p / nr ∧ p / nr ≤ 8000000
  fvco : 100000000 ≤ p / nr * 2 * nf ∧ p / nr * 2 * nf < 500000000

/-- How far `FOUT` is from the request. -/
def offset (p no f nr nf : ℕ) : ℕ :=
  if p / nr * 2 * nf / no > f then p / nr * 2 * nf / no - f else f - p / nr * 2 * nf / no

theorem Admissible.mem {nr nf : ℕ} (h : Admissible p nr nf) : (nr, nf) ∈ (rows p).flatten :=
  mem_rows.2 ⟨h.indiv, h.fref, h.fbdiv⟩

theorem Admissible.dist {nr nf : ℕ} (h : Admissible p nr nf) (no f : ℕ) :
    u32FoutOffset p no f (nr, nf) = some (offset p no f nr nf) :=
  if_pos h.fvco

/-- What the search ends with, in its own terms. -/
theorem nearest_admissible {no off nr nf : ℕ} (hlo : 4000000 ≤ p) (hhi : p ≤ 32000000)
    (hf : f ≤ 500000000) (h : nearest p no f = (off, nr, nf)) :
    Admissible p nr nf ∧
      ∀ nr' nf', Admissible p nr' nf' → offset p no f nr nf ≤ offset p no f nr' nf' := by
  obtain ⟨hmem, hdist, hbest⟩ := nearest_best hlo hhi hf h
  obtain ⟨hnr, href, hnf⟩ := mem_rows.1 hmem
  have hvco : 100000000 ≤ p / nr * 2 * nf ∧ p / nr * 2 * nf < 500000000 := by
    by_contra hout
    rw [u32FoutOffset, if_neg hout] at hdist
    cases hdist
  have hadm : Admissible p nr nf := ⟨hnr, hnf, href, hvco⟩
  rw [hadm.dist, Option.some.injEq] at hdist
  subst hdist
  exact ⟨hadm, fun nr' nf' h' => hbest (nr', nf') h'.mem _ (h'.dist no f)⟩

namespace Clocks

variable {k : Clocks} {c : Regs} {src : BitVec 32}

/-- The registers after `CLK_EnablePLL`. -/
def after (k : Clocks) (c : Regs) (src : BitVec 32) (f : ℕ) : Regs := run c (k.CLK_EnablePLL c src f).1

/-- The PLL runs on the source that was asked for, out of power-down and with its output. -/
theorem after_source (k : Clocks) (c : Regs) (src : BitVec 32) (f : ℕ) :
    (k.after c src f).PLLCTL =
      if src = CLK_PLLCTL_PLLSRC_HXT then CLK_PLLCTL_PLLSRC_HXT else CLK_PLLCTL_PLLSRC_HIRC := by
  rw [after, CLK_EnablePLL]
  by_cases hsrc : src = CLK_PLLCTL_PLLSRC_HXT
  · rw [if_pos hsrc, if_pos hsrc]
    dsimp only
    split <;> rfl
  · rw [if_neg hsrc, if_neg hsrc]
    dsimp only
    split <;> rfl

/-- A request that the PLL can meet: what is written and what is returned. -/
theorem enablePLL_eq (k : Clocks) (c : Regs) (src : BitVec 32) (hlo : FREQ_25MHZ ≤ f)
    (hhi : f ≤ FREQ_500MHZ) {off nr nf : ℕ}
    (h : nearest (k.source src) (outDiv f).1 f = (off, nr, nf)) :
    (k.after c src f).PLLCTL2 = dividers (outDiv f).2 nr nf ∧
      (k.CLK_EnablePLL c src f).2 = k.source src / ((outDiv f).1 * nr) * nf := by
  have hin : f ≤ FREQ_500MHZ ∧ f ≥ FREQ_25MHZ := ⟨hhi, hlo⟩
  rw [after, CLK_EnablePLL]
  by_cases hsrc : src = CLK_PLLCTL_PLLSRC_HXT
  · rw [source, if_pos hsrc] at h
    rw [source, if_pos hsrc, if_pos hsrc]
    dsimp only
    rw [if_pos hin, h]
    exact ⟨rfl, rfl⟩
  · rw [source, if_neg hsrc] at h
    rw [source, if_neg hsrc, if_neg hsrc]
    dsimp only
    rw [if_pos hin, h]
    exact ⟨rfl, rfl⟩

/-- The dividers that the search ends with are those of the registers. -/
theorem after_dividers (hlo : FREQ_25MHZ ≤ f) (hhi : f ≤ FREQ_500MHZ) {off nr nf : ℕ}
    (h : nearest (k.source src) (outDiv f).1 f = (off, nr, nf))
    (hadm : Admissible (k.source src) nr nf) :
    (k.after c src f).NR = nr ∧ (k.after c src f).NF = nf ∧
      (k.after c src f).NO = (outDiv f).1 := by
  obtain ⟨ho, hno, -⟩ := outDiv_spec f
  obtain ⟨hreg, -⟩ := k.enablePLL_eq c src hlo hhi h
  have hfb : 2 ≤ nf ∧ nf ≤ 513 := by
    have := hadm.fbdiv
    omega
  obtain ⟨hF, hR, hO⟩ := field_dividers ho hadm.indiv hfb
  refine ⟨?_, ?_, ?_⟩
  · rw [Regs.NR, hreg, hR]
    exact Nat.sub_add_cancel hadm.indiv.1
  · rw [Regs.NF, hreg, hF]
    exact Nat.sub_add_cancel (by have := hadm.fbdiv; omega)
  · rw [Regs.NO, hreg, hO, hno]

/-- The frequency that is computed from the registers. -/
theorem get_after (hlo : FREQ_25MHZ ≤ f) (hhi : f ≤ FREQ_500MHZ) (hp : k.source src ≤ 32000000)
    {off nr nf : ℕ} (h : nearest (k.source src) (outDiv f).1 f = (off, nr, nf))
    (hadm : Admissible (k.source src) nr nf) :
    k.CLK_GetPLLClockFreq (k.after c src f) =
      k.source src / 4 * nf / (nr * (outDiv f).1) * 8 := by
  obtain ⟨-, -, hno, -⟩ := outDiv_spec f
  obtain ⟨hNR, hNF, hNO⟩ := after_dividers (c := c) hlo hhi h hadm
  have hctl := k.after_source c src f
  have hsrc : k.pllSrcFreq (k.after c src f).PLLCTL = k.source src := by
    rw [hctl, pllSrcFreq, source]
    split <;> rfl
  have hon : (k.after c src f).PLLCTL &&& (CLK_PLLCTL_PD_Msk ||| CLK_PLLCTL_OE_Msk) = 0 := by
    rw [hctl]
    split <;> rfl
  have hbp : (k.after c src f).PLLCTL &&& CLK_PLLCTL_BP_Msk ≠ CLK_PLLCTL_BP_Msk := by
    rw [hctl]
    split <;> decide
  rw [CLK_GetPLLClockFreq, if_neg (not_not_intro hon), if_neg hbp, hsrc]
  show u32 (u32 (u32 (k.source src / 4 * (k.after c src f).NF) /
    ((k.after c src f).NR * (k.after c src f).NO) * 4) * 2) = _
  rw [hNR, hNF, hNO]
  exact get_eq hp hadm.indiv.1 hno hadm.fbdiv.2 hadm.fvco.2

/-- The call and the registers after it: the dividers can be run, none comes nearer for that `NO`, and
the frequency that is returned is the one of the registers, to 16 Hz. -/
structure Solved (k : Clocks) (c : Regs) (src : BitVec 32) (f : ℕ) : Prop where
  admissible : Admissible (k.source src) (k.after c src f).NR (k.after c src f).NF
  best : ∀ nr nf, Admissible (k.source src) nr nf →
    offset (k.source src) (k.after c src f).NO f (k.after c src f).NR (k.after c src f).NF ≤
      offset (k.source src) (k.after c src f).NO f nr nf
  truthful : (k.CLK_EnablePLL c src f).2 ≤ k.CLK_GetPLLClockFreq (k.after c src f) + 16 ∧
    k.CLK_GetPLLClockFreq (k.after c src f) ≤ (k.CLK_EnablePLL c src f).2 + 16

/-- **What is programmed is optimal.** -/
theorem programmed (k : Clocks) (c : Regs) (hlo : FREQ_25MHZ ≤ f) (hhi : f ≤ FREQ_500MHZ)
    (hs : 4000000 ≤ k.source src) (hs' : k.source src ≤ 32000000) :
    Admissible (k.source src) (k.after c src f).NR (k.after c src f).NF ∧
      ∀ nr nf, Admissible (k.source src) nr nf →
        offset (k.source src) (k.after c src f).NO f (k.after c src f).NR (k.after c src f).NF ≤
          offset (k.source src) (k.after c src f).NO f nr nf := by
  rcases h : nearest (k.source src) (outDiv f).1 f with ⟨off, nr, nf⟩
  obtain ⟨hadm, hbest⟩ := nearest_admissible hs hs' hhi h
  obtain ⟨hNR, hNF, hNO⟩ := after_dividers (c := c) hlo hhi h hadm
  rw [hNR, hNF, hNO]
  exact ⟨hadm, hbest⟩

/-- **What is returned is too low**, with every source and for every request. -/
theorem returns_below (k : Clocks) (c : Regs) (hlo : FREQ_25MHZ ≤ f) (hhi : f ≤ FREQ_500MHZ)
    (hs : 4000000 ≤ k.source src) (hs' : k.source src ≤ 32000000) :
    (k.CLK_EnablePLL c src f).2 + 16 < k.CLK_GetPLLClockFreq (k.after c src f) := by
  rcases h : nearest (k.source src) (outDiv f).1 f with ⟨off, nr, nf⟩
  obtain ⟨hadm, -⟩ := nearest_admissible hs hs' hhi h
  obtain ⟨-, -, hno⟩ := outDiv_spec f
  rw [get_after hlo hhi hs' h hadm, (k.enablePLL_eq c src hlo hhi h).2]
  exact gap hadm.indiv.1 hno hadm.fbdiv.2 hadm.fvco.1

/-- **No call is solved**: the dividers are the best, and what is returned is not what they make. -/
theorem not_solved (k : Clocks) (c : Regs) (src : BitVec 32) (f : ℕ) (hlo : FREQ_25MHZ ≤ f)
    (hhi : f ≤ FREQ_500MHZ) (hs : 4000000 ≤ k.source src) (hs' : k.source src ≤ 32000000) :
    ¬ k.Solved c src f := by
  intro h
  have hbelow := k.returns_below c hlo hhi hs hs'
  have htrue := h.truthful.2
  omega

/-- From the registers after a reset. -/
def resetRegs : Regs := ⟨0, 7, 0, CLK_PLLCTL_PD_Msk, CLK_PLLCTL_72MHz, 2⟩

theorem not_solved_72MHz :
    ¬ (⟨12000000, 12000000⟩ : Clocks).Solved resetRegs CLK_PLLCTL_PLLSRC_HXT 72000000 :=
  not_solved ⟨12000000, 12000000⟩ resetRegs CLK_PLLCTL_PLLSRC_HXT 72000000 (by decide) (by decide)
    (by decide) (by decide)

/-- Of a request for 72 MHz from 12 MHz: the PLL makes 72 MHz, and 36 MHz is returned. -/
theorem returned_36MHz :
    let k : Clocks := ⟨12000000, 12000000⟩
    k.CLK_GetPLLClockFreq (k.after resetRegs CLK_PLLCTL_PLLSRC_HXT 72000000) = 72000000 ∧
      (k.CLK_EnablePLL resetRegs CLK_PLLCTL_PLLSRC_HXT 72000000).2 = 36000000 ∧
      ¬ k.Solved resetRegs CLK_PLLCTL_PLLSRC_HXT 72000000 := by
  intro k
  have hget : k.CLK_GetPLLClockFreq (k.after resetRegs CLK_PLLCTL_PLLSRC_HXT 72000000) =
      72000000 := by decide +kernel
  have hret : (k.CLK_EnablePLL resetRegs CLK_PLLCTL_PLLSRC_HXT 72000000).2 = 36000000 := by
    decide +kernel
  refine ⟨hget, hret, fun h => ?_⟩
  have htrue := h.truthful.2
  rw [hget, hret] at htrue
  omega

end Clocks

end Clk
