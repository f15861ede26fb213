/-
The clock driver: switching HCLK and programming the PLL.

A function of the driver is the list of the register writes that it makes, in their order, so that
the chip can be looked at after each of them.  The stable flag of HIRC is the hardware's: what the
reads of it give is an argument.  The waits for a stable flag change no register, and nothing looks
at their result.

* **`CLK_SetHCLK`**, **`CLK_EnablePLL`**, **`CLK_SetCoreClock`** — the driver;
* **`nearest`** — what the search of `CLK_EnablePLL` finds.
-/
import NuMaker.Lib.BitField
import NuMaker.Lib.Nearest

namespace Clk

/-! ### The registers -/

/-- The registers of `CLK` that switching the clock writes, and `CYCCTL` of `RMC`. -/
structure Regs where
  PWRCTL : BitVec 32
  CLKSEL0 : BitVec 32
  CLKDIV0 : BitVec 32
  PLLCTL : BitVec 32
  PLLCTL2 : BitVec 32
  CYCCTL : ℕ

/-- A register write. -/
abbrev Write := Regs → Regs

/-- The registers after the writes. -/
def run (c : Regs) (ws : List Write) : Regs := ws.foldl (fun c w => w c) c

def CLK_PWRCTL_HXTEN_Msk : BitVec 32 := 1#32 <<< 0
def CLK_PWRCTL_LXTEN_Msk : BitVec 32 := 1#32 <<< 1
def CLK_PWRCTL_HIRCEN_Msk : BitVec 32 := 1#32 <<< 2
def CLK_PWRCTL_LIRCEN_Msk : BitVec 32 := 1#32 <<< 3
def CLK_PWRCTL_HIRC48MEN_Msk : BitVec 32 := 1#32 <<< 18
def CLK_PWRCTL_MIRCEN_Msk : BitVec 32 := 1#32 <<< 26

def CLK_CLKSEL0_HCLK0SEL_Msk : BitVec 32 := 7#32 <<< 0
def CLK_CLKDIV0_HCLK0DIV_Msk : BitVec 32 := 0xf#32 <<< 0

def CLK_PLLCTL_PD_Msk : BitVec 32 := 1#32 <<< 16
def CLK_PLLCTL_BP_Msk : BitVec 32 := 1#32 <<< 17
def CLK_PLLCTL_OE_Msk : BitVec 32 := 1#32 <<< 18

def CLK_PLLCTL_PLLSRC_HXT : BitVec 32 := 0#32 <<< 19
def CLK_PLLCTL_PLLSRC_HIRC : BitVec 32 := 1#32 <<< 19

/-- The sources of HCLK. -/
inductive HclkSrc
  | HXT | LXT | PLL | LIRC | MIRC | HIRC48M | HIRC
  deriving DecidableEq

/-- `CLK_CLKSEL0_HCLKSEL_HXT` and the others. -/
def CLK_CLKSEL0_HCLKSEL : HclkSrc → BitVec 32
  | .HXT => 0
  | .LXT => 1
  | .PLL => 2
  | .LIRC => 3
  | .MIRC => 5
  | .HIRC48M => 6
  | .HIRC => 7

/-- For a divider from `1` to `16`. -/
def CLK_CLKDIV0_HCLK (x : ℕ) : BitVec 32 := (BitVec.ofNat 32 x - 1) <<< 0

def CLK_PLLCTL_NF (x : ℕ) : BitVec 32 := BitVec.ofNat 32 (x - 2) <<< 0
def CLK_PLLCTL_NR (x : ℕ) : BitVec 32 := BitVec.ofNat 32 (x - 1) <<< 9
def CLK_PLLCTL_NO_4 : BitVec 32 := 3#32 <<< 14
def CLK_PLLCTL_72MHz : BitVec 32 := CLK_PLLCTL_NR 3 ||| CLK_PLLCTL_NF 36 ||| CLK_PLLCTL_NO_4

def FREQ_25MHZ : ℕ := 25000000
def FREQ_72MHZ : ℕ := 72000000
def FREQ_120MHZ : ℕ := 120000000
def FREQ_240MHZ : ℕ := 240000000
def FREQ_500MHZ : ℕ := 500000000

/-! ### The frequency of the core -/

def HXT_FREQ : ℕ := 12000000
def LXT_FREQ : ℕ := 32768
def LIRC_FREQ : ℕ := 32000
def HIRC_FREQ : ℕ := 12000000
def HIRC48_FREQ : ℕ := 48000000
def MIRC_FREQ : ℕ := 4000000

def gau32ClkSrcTbl : List ℕ :=
  [HXT_FREQ, LXT_FREQ, 0, LIRC_FREQ, 0, MIRC_FREQ, HIRC48_FREQ, HIRC_FREQ]

/-- A `uint32_t`. -/
def u32 (n : ℕ) : ℕ := n % 2 ^ 32

/-- The source of the PLL, as its control register has it. -/
def pllSrcFreq (u32PllReg : BitVec 32) : ℕ :=
  if u32PllReg &&& CLK_PLLCTL_PLLSRC_HIRC = CLK_PLLCTL_PLLSRC_HIRC then HIRC_FREQ else HXT_FREQ

def CLK_GetPLLClockFreq (c : Regs) : ℕ :=
  if c.PLLCTL &&& (CLK_PLLCTL_PD_Msk ||| CLK_PLLCTL_OE_Msk) ≠ 0 then 0
  else if c.PLLCTL &&& CLK_PLLCTL_BP_Msk = CLK_PLLCTL_BP_Msk then pllSrcFreq c.PLLCTL
  else
    let u32NO := [1, 2, 2, 4].getD (field c.PLLCTL2 14 2) 0
    let u32NF := field c.PLLCTL2 0 9 + 2
    let u32NR := field c.PLLCTL2 9 5 + 1
    -- shifted right first, and left again at the end
    u32 (u32 (u32 (pllSrcFreq c.PLLCTL / 4 * u32NF) / (u32NR * u32NO) * 4) * 2)

/-- The value of `SystemCoreClock` after the update. -/
def SystemCoreClockUpdate (c : Regs) : ℕ :=
  let u32ClkSrc := c.CLKSEL0 &&& CLK_CLKSEL0_HCLK0SEL_Msk
  let u32Freq :=
    if u32ClkSrc ≠ CLK_CLKSEL0_HCLKSEL .PLL then gau32ClkSrcTbl.getD u32ClkSrc.toNat 0
    else CLK_GetPLLClockFreq c
  let u32HclkDiv := field c.CLKDIV0 0 4 + 1
  u32Freq / u32HclkDiv

/-! ### Switching HCLK -/

/-- `PWRCTL |= CLK_PWRCTL_HIRCEN_Msk` and the like. -/
def enable (m : BitVec 32) : Write := fun c => { c with PWRCTL := c.PWRCTL ||| m }

/-- `PWRCTL &= ~CLK_PWRCTL_HIRCEN_Msk`. -/
def disable (m : BitVec 32) : Write := fun c => { c with PWRCTL := c.PWRCTL &&& ~~~m }

def select (u32ClkSrc : BitVec 32) : Write := fun c =>
  { c with CLKSEL0 := c.CLKSEL0 &&& ~~~CLK_CLKSEL0_HCLK0SEL_Msk ||| u32ClkSrc }

def divide (u32ClkDiv : BitVec 32) : Write := fun c =>
  { c with CLKDIV0 := c.CLKDIV0 &&& ~~~CLK_CLKDIV0_HCLK0DIV_Msk ||| u32ClkDiv }

/-- The RMC access cycles for the frequency of the core. -/
def fitCycles : Write := fun c =>
  { c with CYCCTL :=
      if SystemCoreClockUpdate c > 50000000 then 4
      else if SystemCoreClockUpdate c > 25000000 then 3
      else 2 }

/-- `u32HIRCSTB` is the stable flag of HIRC, as it is read first. -/
def CLK_SetHCLK (u32HIRCSTB : Bool) (u32ClkSrc u32ClkDiv : BitVec 32) : List Write :=
  [ fun c => { c with CYCCTL := 4 },
    enable CLK_PWRCTL_HIRCEN_Msk,
    select (CLK_CLKSEL0_HCLKSEL .HIRC),
    divide u32ClkDiv,
    select u32ClkSrc,
    fitCycles ] ++
  if u32HIRCSTB then [] else [disable CLK_PWRCTL_HIRCEN_Msk]

/-! ### The PLL -/

/-- `u32NO` and `u32Outdiv`. -/
def outDiv (u32PllFreq : ℕ) : ℕ × ℕ :=
  if u32PllFreq ≤ FREQ_120MHZ then (4, 3)
  else if u32PllFreq ≤ FREQ_240MHZ then (2, 1)
  else (1, 0)

/-- How far the PLL is from the requested frequency with these `u32NR` and `u32NF`, if it can be
run with them. -/
def u32FoutOffset (u32PllSrcClk u32NO u32PllFreq : ℕ) : ℕ × ℕ → Option ℕ
  | (u32NR, u32NF) =>
    let u32Fref := u32PllSrcClk / u32NR
    let u32Fvco := u32Fref * 2 * u32NF
    if u32Fvco ≥ 100000000 ∧ u32Fvco < 500000000 then
      let u32Fout := u32Fvco / u32NO
      some (if u32Fout > u32PllFreq then u32Fout - u32PllFreq else u32PllFreq - u32Fout)
    else none

/-- The dividers that the search goes through: a row for each `u32NR` that the source admits. -/
def rows (u32PllSrcClk : ℕ) : List (List (ℕ × ℕ)) :=
  ((List.range' 1 32).filter fun u32NR =>
      decide (u32PllSrcClk / u32NR ≥ 1000000 ∧ u32PllSrcClk / u32NR ≤ 8000000)).map
    fun u32NR => (List.range' 12 244).map fun u32NF => (u32NR, u32NF)

/-- `u32MinFoutOffset`, `u32MinNR` and `u32MinNF` at the end of the search. -/
def nearest (u32PllSrcClk u32NO u32PllFreq : ℕ) : ℕ × (ℕ × ℕ) :=
  (rows u32PllSrcClk).foldl (Nearest.row (u32FoutOffset u32PllSrcClk u32NO u32PllFreq))
    (0xFFFFFFFF, (0, 0))

/-- What is put in `PLLCTL2`. -/
def dividers (u32Outdiv u32MinNR u32MinNF : ℕ) : BitVec 32 :=
  BitVec.ofNat 32 u32Outdiv <<< 14 ||| (BitVec.ofNat 32 u32MinNR - 1) <<< 9 |||
    (BitVec.ofNat 32 u32MinNF - 2) <<< 0

def CLK_DisablePLL : Write := fun c => { c with PLLCTL := c.PLLCTL ||| CLK_PLLCTL_PD_Msk }

/-- The writes of the function and what it returns. -/
def CLK_EnablePLL (c : Regs) (u32PllClkSrc : BitVec 32) (u32PllFreq : ℕ) : List Write × ℕ :=
  let (source, u32CLK_SRC, u32PllSrcClk) :=
    if u32PllClkSrc = CLK_PLLCTL_PLLSRC_HXT then
      (enable CLK_PWRCTL_HXTEN_Msk, CLK_PLLCTL_PLLSRC_HXT, HXT_FREQ)
    else (enable CLK_PWRCTL_HIRCEN_Msk, CLK_PLLCTL_PLLSRC_HIRC, HIRC_FREQ)
  if u32PllFreq ≤ FREQ_500MHZ ∧ u32PllFreq ≥ FREQ_25MHZ then
    let (u32NO, u32Outdiv) := outDiv u32PllFreq
    let (_, u32MinNR, u32MinNF) := nearest u32PllSrcClk u32NO u32PllFreq
    ([ CLK_DisablePLL, source,
       fun c => { c with PLLCTL2 := dividers u32Outdiv u32MinNR u32MinNF },
       fun c => { c with PLLCTL := u32CLK_SRC } ],
     u32PllSrcClk / (u32NO * u32MinNR) * u32MinNF)
  else
    -- a frequency out of range: the default setting
    let ws : List Write :=
      [ CLK_DisablePLL, source,
        fun c => { c with PLLCTL2 := CLK_PLLCTL_72MHz },
        fun c => { c with PLLCTL := u32CLK_SRC } ]
    (ws, CLK_GetPLLClockFreq (run c ws))

/-- `stb₀`, `stb₁` and `stb₂` are the stable flag of HIRC as it is read at first, after the PLL is
enabled, and in `CLK_SetHCLK`. -/
def CLK_SetCoreClock (c : Regs) (stb₀ stb₁ stb₂ : Bool) (u32Hclk : ℕ) : List Write × ℕ :=
  let u32Hclk := if u32Hclk > FREQ_72MHZ then FREQ_72MHZ else u32Hclk
  -- HIRC, for safety
  let safe : List Write :=
    [ enable CLK_PWRCTL_HIRCEN_Msk,
      fun c => { c with CLKSEL0 := c.CLKSEL0 ||| CLK_CLKSEL0_HCLK0SEL_Msk },
      fun c => { c with CLKDIV0 := c.CLKDIV0 &&& ~~~CLK_CLKDIV0_HCLK0DIV_Msk } ]
  let c := run c safe
  let (u32PllClkSrc, u32HIRCSTB) :=
    if c.PWRCTL &&& CLK_PWRCTL_HXTEN_Msk = CLK_PWRCTL_HXTEN_Msk then (CLK_PLLCTL_PLLSRC_HXT, stb₀)
    else (CLK_PLLCTL_PLLSRC_HIRC, stb₁)
  let (pll, u32Hclk) := CLK_EnablePLL c u32PllClkSrc u32Hclk
  (safe ++ pll ++ CLK_SetHCLK stb₂ (CLK_CLKSEL0_HCLKSEL .PLL) (CLK_CLKDIV0_HCLK 1) ++
      if u32HIRCSTB then [] else [disable CLK_PWRCTL_HIRCEN_Msk],
    u32Hclk)

end Clk
