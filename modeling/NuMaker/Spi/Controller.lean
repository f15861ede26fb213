/-
The SPI controllers: `nu_spi.c`, `nu_lpspi.c` and `nu_usci_spi.c` as far as their drivers use them.

The three drivers do the same with three kinds of hardware.  What they use of it is a `Controller`:
the functions of the vendor's library, and what can be seen of the registers.  The SPI and the
low-power SPI units share their registers and differ in where their clock comes from; the USCI
has registers and a divider of its own.

* **`Port`** — a controller, with what its functions are known to do;
* **`Clocks.spi`**, **`Clocks.lpspi`**, **`Clocks.uspi`** — the three kinds of port, each with the
  clock settings under which its rate stays within the one asked for.
-/
import NuMaker.Lib.Divider

namespace Spi

/-! ### What a driver uses of a controller -/

/-- The functions of a controller, and what can be seen of its registers. -/
structure Controller where
  HW : Type
  /-- The codes of the four clock modes. -/
  Mode : Type
  SPI_MODE : Fin 4 → Mode
  /-- The data widths its driver accepts. -/
  widthOk : ℕ → Bool
  /-- The registers and the rate it reports; it fails where it divides by zero. -/
  SetBusClock : HW → ℕ → Option (HW × ℕ)
  Open : HW → Mode → ℕ → ℕ → Option HW
  SET_SS_LOW : HW → HW
  SET_SS_HIGH : HW → HW
  SET_MSB_FIRST : HW → HW
  SET_LSB_FIRST : HW → HW
  modeOf : HW → Mode
  widthOf : HW → ℕ
  msbFirst : HW → Bool
  /-- The level of the controller's own select line. -/
  ssHigh : HW → Bool
  /-- The rate of its clock, in whole hertz. -/
  rate : HW → ℕ

/-- The same mode, width and bit order. -/
structure Controller.SameFormat (c : Controller) (h h' : c.HW) : Prop where
  mode : c.modeOf h' = c.modeOf h
  width : c.widthOf h' = c.widthOf h
  order : c.msbFirst h' = c.msbFirst h

/-- A controller with what is known of it.  `Fit h hz` says that the clock settings and the rate
asked for are within what the clock functions handle. -/
structure Port extends Controller where
  Fit : HW → ℕ → Prop
  widthOk_zero : widthOk 0 = false
  clock_frame : ∀ {h hz h' b}, SetBusClock h hz = some (h', b) →
    toController.SameFormat h h' ∧ ssHigh h' = ssHigh h
  /-- Within the settings the rate is kept, before and after the controller is opened with the
  rate that was reported. -/
  clock_fit : ∀ {h hz}, Fit h hz → ∃ h' b, SetBusClock h hz = some (h', b) ∧ rate h' ≤ hz ∧
    ∀ m w, ∃ h'', Open h' m w b = some h'' ∧ rate h'' ≤ hz
  open_format : ∀ {h m w b h'}, widthOk w = true → Open h m w b = some h' →
    modeOf h' = m ∧ widthOf h' = w
  ss_low : ∀ h, toController.SameFormat h (SET_SS_LOW h) ∧ ssHigh (SET_SS_LOW h) = false ∧
    rate (SET_SS_LOW h) = rate h
  ss_high : ∀ h, toController.SameFormat h (SET_SS_HIGH h) ∧ ssHigh (SET_SS_HIGH h) = true ∧
    rate (SET_SS_HIGH h) = rate h
  msb_first : ∀ h, modeOf (SET_MSB_FIRST h) = modeOf h ∧ widthOf (SET_MSB_FIRST h) = widthOf h ∧
    msbFirst (SET_MSB_FIRST h) = true ∧ ssHigh (SET_MSB_FIRST h) = ssHigh h ∧
    rate (SET_MSB_FIRST h) = rate h
  lsb_first : ∀ h, modeOf (SET_LSB_FIRST h) = modeOf h ∧ widthOf (SET_LSB_FIRST h) = widthOf h ∧
    msbFirst (SET_LSB_FIRST h) = false ∧ ssHigh (SET_LSB_FIRST h) = ssHigh h ∧
    rate (SET_LSB_FIRST h) = rate h

/-! ### The clock tree -/

/-- The clocks that are set up before the buses: the core clock with the dividers of the two
peripheral buses, the PLL, and the low-power oscillator. -/
structure Clocks where
  HCLK : ℕ
  APB0DIV : ℕ
  APB1DIV : ℕ
  PLL : ℕ
  MIRC : ℕ

def __HXT : ℕ := 12000000
def __HIRC : ℕ := 12000000
def __HIRC48 : ℕ := 48000000
def __MIRC : ℕ := 4000000

/-- `CLK_GetPCLK0Freq` and `CLK_GetPCLK1Freq`, from the divider's field. -/
def Clocks.pclk (clk : Clocks) (div : ℕ) : ℕ := if div ≤ 4 then clk.HCLK / 2 ^ div else clk.HCLK

theorem Clocks.pclk_le (clk : Clocks) (div : ℕ) : clk.pclk div ≤ clk.HCLK := by
  unfold Clocks.pclk
  split
  · exact Nat.div_le_self _ _
  · exact le_refl _

/-- `((u32ClkSrc * 10U) / u32BusClock + 5U) / 10U - 1U`, in words: a quotient of zero wraps around. -/
def u32Div (u32ClkSrc u32BusClock : ℕ) : ℕ :=
  let q := ((u32ClkSrc * 10) % 2 ^ 32 / u32BusClock + 5) % 2 ^ 32 / 10
  if q = 0 then 2 ^ 32 - 1 else q - 1

/-- The tail of `SPI_SetBusClock`, `SPI_Open` and their low-power twins: the divider they write
and the rate they report.  They differ in the largest divider they take. -/
def setDivider (limit u32ClkSrc u32BusClock : ℕ) : ℕ × ℕ :=
  if u32ClkSrc ≤ u32BusClock then (0, u32ClkSrc)
  else if u32BusClock = 0 then (0x1FF, u32ClkSrc / (0xFF + 1))
  else
    let u32Div := u32Div u32ClkSrc u32BusClock
    -- the mask that is or-ed in has nine bits, whatever the limit
    if limit < u32Div then (0x1FF, u32ClkSrc / (0xFF + 1))
    else (u32Div, u32ClkSrc / (u32Div + 1))

/-- The rates a source is divided down to without passing the wanted one, by dividers that both
functions take. -/
def Divides (src hz : ℕ) : Prop :=
  src ≤ hz ∨ 0 < hz ∧ src * 10 < 2 ^ 32 ∧ nearest src hz ≤ 256 ∧
    (hz ≤ 2 * (src % hz) ∨ src % hz < src / hz)

/-- Where no word overflows, the divider is the nearest one. -/
theorem u32Div_eq {src hz : ℕ} (hpos : 0 < hz) (hle : hz ≤ src) (hsmall : src * 10 < 2 ^ 32) :
    u32Div src hz = nearest src hz - 1 := by
  have hn : 0 < nearest src hz := nearest_pos hpos hle
  have hq : src * 10 / hz ≤ src * 10 := Nat.div_le_self _ _
  rw [u32Div, Nat.mod_eq_of_lt hsmall, Nat.mod_eq_of_lt (show src * 10 / hz + 5 < 2 ^ 32 by omega),
    ← nearest]
  exact if_neg (Nat.ne_of_gt hn)

theorem setDivider_of_le (limit : ℕ) {src hz : ℕ} (hle : src ≤ hz) :
    setDivider limit src hz = (0, src) :=
  if_pos hle

/-- Below the limit the divider is the nearest one. -/
theorem setDivider_of_nearest {limit src hz : ℕ} (hlt : hz < src) (hpos : 0 < hz)
    (hsmall : src * 10 < 2 ^ 32) (hn : nearest src hz ≤ limit + 1) :
    setDivider limit src hz = (nearest src hz - 1, src / nearest src hz) := by
  have hn1 : 0 < nearest src hz := nearest_pos hpos (le_of_lt hlt)
  rw [setDivider, if_neg (not_le_of_gt hlt), if_neg (Nat.ne_of_gt hpos),
    u32Div_eq hpos (le_of_lt hlt) hsmall]
  dsimp only
  rw [if_neg (by omega), Nat.sub_add_cancel (show 1 ≤ nearest src hz from hn1)]

/-- Opening with the rate a divider gives takes at least that divider. -/
theorem le_setDivider {src n : ℕ} (hn : 0 < n) (hle : n ≤ src) (hmax : n ≤ 256)
    (hsmall : src * 10 < 2 ^ 32) : n ≤ (setDivider 0xFF src (src / n)).1 + 1 := by
  have hpos : 0 < src / n := Nat.div_pos hle hn
  by_cases hge : src ≤ src / n
  · -- only the divider one gives the whole rate
    have hone : n < 2 := by
      by_contra h
      have := Nat.div_lt_self (lt_of_lt_of_le hn hle) (by omega : 1 < n)
      omega
    omega
  · have hre := le_nearest_div hn hle
    rw [setDivider, if_neg hge, if_neg (Nat.ne_of_gt hpos),
      u32Div_eq hpos (Nat.div_le_self _ _) hsmall]
    dsimp only
    split
    · dsimp only
      omega
    · dsimp only
      omega

/-- Setting the wanted rate, and then opening with the rate reported, keep within it. -/
theorem setDivider_fit {src hz : ℕ} (hfit : Divides src hz) :
    src / ((setDivider 0x1FF src hz).1 + 1) ≤ hz ∧ (setDivider 0x1FF src hz).2 ≤ hz ∧
    src / ((setDivider 0xFF src (setDivider 0x1FF src hz).2).1 + 1) ≤ hz := by
  by_cases hle : src ≤ hz
  · rw [setDivider_of_le _ hle]
    dsimp only
    rw [setDivider_of_le _ (le_refl src)]
    simpa using hle
  · obtain ⟨hpos, hsmall, hn, hround⟩ := hfit.resolve_left hle
    have hn1 : 0 < nearest src hz := nearest_pos hpos (by omega)
    have hrate := (div_nearest_le_iff hpos hn1).2 hround
    rw [setDivider_of_nearest (by omega) hpos hsmall (by omega)]
    dsimp only
    rw [Nat.sub_add_cancel (show 1 ≤ nearest src hz from hn1)]
    refine ⟨hrate, hrate, ?_⟩
    have hdiv := le_setDivider hn1 (nearest_le src hpos) hn hsmall
    exact le_trans (Nat.div_le_div_left hdiv hn1) hrate

/-! ### The SPI and the low-power SPI units -/

/-- `SPI_CTL`, `SPI_SSCTL` and `SPI_CLKDIV`, by their fields. -/
structure SpiRegs where
  CLKPOL : Bool
  RXNEG : Bool
  TXNEG : Bool
  LSB : Bool
  DWIDTH : ℕ
  SS : Bool
  SSACTPOL : Bool
  AUTOSS : Bool
  DIVIDER : ℕ
deriving DecidableEq, Repr

/-- The three bits of a clock mode: `CLKPOL`, `RXNEG` and `TXNEG`. -/
abbrev SpiMode := Bool × Bool × Bool

/-- `SPI_MODE_0` to `SPI_MODE_3`. -/
def SPI_MODE : Fin 4 → SpiMode
  | 0 => (false, false, true)
  | 1 => (false, true, false)
  | 2 => (true, true, false)
  | 3 => (true, false, true)

/-- `SPI_Open` as a master, less its clock. -/
def SpiRegs.open (r : SpiRegs) (u32SPIMode : SpiMode) (u32DataWidth : ℕ) : SpiRegs :=
  { r with
    SS := false, SSACTPOL := false, AUTOSS := false
    DWIDTH := if u32DataWidth = 32 then 0 else u32DataWidth
    CLKPOL := u32SPIMode.1, RXNEG := u32SPIMode.2.1, TXNEG := u32SPIMode.2.2, LSB := false }

/-- `SPI_SET_SS_HIGH` and `SPI_SET_SS_LOW`: the line is made active, at the level wanted. -/
def SpiRegs.setSS (r : SpiRegs) (high : Bool) : SpiRegs :=
  { r with AUTOSS := false, SSACTPOL := high, SS := true }

/-- The clock of a unit: `σ` are the selections it depends on, `source` the frequency they give,
and the two functions what setting a rate and opening with one do to it. -/
structure Clocking where
  σ : Type
  source : σ → ℕ
  set : σ → ℕ → σ × ℕ × ℕ
  reopen : σ → ℕ → σ × ℕ × ℕ
  Fit : σ → ℕ → Prop
  fit : ∀ {k hz}, Fit k hz → source (set k hz).1 / ((set k hz).2.1 + 1) ≤ hz ∧
    source (reopen (set k hz).1 (set k hz).2.2).1 /
      ((reopen (set k hz).1 (set k hz).2.2).2.1 + 1) ≤ hz

/-- The registers and functions that the SPI and the low-power SPI units share. -/
def Clocking.port (k : Clocking) : Port where
  HW := SpiRegs × k.σ
  Mode := SpiMode
  SPI_MODE := SPI_MODE
  widthOk w := w = 8 ∨ w = 16 ∨ w = 24 ∨ w = 32
  SetBusClock h hz :=
    let (sel, div, rate) := k.set h.2 hz
    some (({ h.1 with DIVIDER := div }, sel), rate)
  Open h m w hz :=
    let (sel, div, _) := k.reopen h.2 hz
    some ({ h.1.open m w with DIVIDER := div }, sel)
  SET_SS_LOW h := (h.1.setSS false, h.2)
  SET_SS_HIGH h := (h.1.setSS true, h.2)
  SET_MSB_FIRST h := ({ h.1 with LSB := false }, h.2)
  SET_LSB_FIRST h := ({ h.1 with LSB := true }, h.2)
  modeOf h := (h.1.CLKPOL, h.1.RXNEG, h.1.TXNEG)
  widthOf h := if h.1.DWIDTH = 0 then 32 else h.1.DWIDTH
  msbFirst h := !h.1.LSB
  -- an inactive line is at the level opposite to the active one
  ssHigh h := h.1.SS == h.1.SSACTPOL
  rate h := k.source h.2 / (h.1.DIVIDER + 1)
  Fit h hz := k.Fit h.2 hz
  widthOk_zero := by decide
  clock_frame := by
    intro h hz h' b he
    obtain rfl := congrArg Prod.fst (Option.some.inj he).symm
    exact ⟨⟨rfl, rfl, rfl⟩, rfl⟩
  clock_fit := by
    intro h hz hf
    exact ⟨_, _, rfl, (k.fit hf).1, fun m w => ⟨_, rfl, (k.fit hf).2⟩⟩
  open_format := by
    intro h m w b h' hw he
    obtain rfl := Option.some.inj he
    refine ⟨rfl, ?_⟩
    rcases of_decide_eq_true hw with rfl | rfl | rfl | rfl <;> rfl
  ss_low h := ⟨⟨rfl, rfl, rfl⟩, rfl, rfl⟩
  ss_high h := ⟨⟨rfl, rfl, rfl⟩, rfl, rfl⟩
  msb_first h := ⟨rfl, rfl, rfl, rfl, rfl⟩
  lsb_first h := ⟨rfl, rfl, rfl, rfl, rfl⟩

/-! ### Where their clocks come from -/

/-- The selection fields of an SPI unit: its own, and the bits of `CLKSEL2` at the same place. -/
structure SpiSel where
  SEL : ℕ
  CLKSEL2 : ℕ
deriving DecidableEq, Repr

/-- The selection of the peripheral bus. -/
def SEL_PCLK : ℕ := 2

/-- The frequency the library takes a selection for, with `pclk` the unit's own bus. -/
def Clocks.taken (clk : Clocks) (pclk sel : ℕ) : ℕ :=
  if sel = 0 then __HXT else if sel = 1 then clk.PLL else if sel = SEL_PCLK then pclk else __HIRC

/-- The frequency it is: the library does not know of the 48 MHz oscillator. -/
def Clocks.actual (clk : Clocks) (pclk sel : ℕ) : ℕ := if sel = 4 then __HIRC48 else clk.taken pclk sel

/-- `SPI_SetBusClock`: a rate at or above the core clock selects the peripheral bus. -/
def Clocks.SPI_SetBusClock (clk : Clocks) (pclk : ℕ) (k : SpiSel) (u32BusClock : ℕ) :
    SpiSel × ℕ × ℕ :=
  if clk.HCLK ≤ u32BusClock then ({ k with SEL := SEL_PCLK }, 0, clk.taken pclk SEL_PCLK)
  else (k, setDivider 0x1FF (clk.taken pclk k.SEL) u32BusClock)

/-- The clock of `SPI_Open`.  For `SPI2` and `SPI3` (`own` is false) it selects and looks up the
source in `CLKSEL2`, which does not have their fields. -/
def Clocks.SPI_Open (clk : Clocks) (own : Bool) (pclk : ℕ) (k : SpiSel) (u32BusClock : ℕ) :
    SpiSel × ℕ × ℕ :=
  let k := if clk.HCLK ≤ u32BusClock then
      if own then { k with SEL := SEL_PCLK } else { k with CLKSEL2 := SEL_PCLK }
    else k
  let u32ClkSrc := clk.taken pclk (if own then k.SEL else k.CLKSEL2)
  if clk.HCLK ≤ u32BusClock then (k, 0, u32ClkSrc) else (k, setDivider 0xFF u32ClkSrc u32BusClock)

/-- The settings under which an SPI unit keeps a rate: the source is one the library knows, in
the register it looks at, and divides down to the rate; or the rate is out of reach. -/
def Clocks.SpiFit (clk : Clocks) (own : Bool) (pclk : ℕ) (k : SpiSel) (hz : ℕ) : Prop :=
  clk.HCLK ≤ hz ∨ (k.SEL ≠ 4 ∧ Divides (clk.taken pclk k.SEL) hz ∧
    (own ∨ clk.taken pclk k.CLKSEL2 = clk.taken pclk k.SEL))

theorem Clocks.spi_fit (clk : Clocks) {own : Bool} {div : ℕ} {k : SpiSel} {hz : ℕ}
    (hfit : clk.SpiFit own (clk.pclk div) k hz) :
    clk.actual (clk.pclk div) (clk.SPI_SetBusClock (clk.pclk div) k hz).1.SEL /
        ((clk.SPI_SetBusClock (clk.pclk div) k hz).2.1 + 1) ≤ hz ∧
    clk.actual (clk.pclk div)
        (clk.SPI_Open own (clk.pclk div) (clk.SPI_SetBusClock (clk.pclk div) k hz).1
          (clk.SPI_SetBusClock (clk.pclk div) k hz).2.2).1.SEL /
        ((clk.SPI_Open own (clk.pclk div) (clk.SPI_SetBusClock (clk.pclk div) k hz).1
          (clk.SPI_SetBusClock (clk.pclk div) k hz).2.2).2.1 + 1) ≤ hz := by
  by_cases hhigh : clk.HCLK ≤ hz
  · -- the unit runs on the bus clock, undivided or slower
    have hbus : clk.pclk div ≤ hz := le_trans (clk.pclk_le div) hhigh
    have hset : clk.SPI_SetBusClock (clk.pclk div) k hz =
        ({ k with SEL := SEL_PCLK }, 0, clk.pclk div) := by
      rw [Clocks.SPI_SetBusClock, if_pos hhigh]
      rfl
    have hsel : (clk.SPI_Open own (clk.pclk div) { k with SEL := SEL_PCLK }
        (clk.pclk div)).1.SEL = SEL_PCLK := by
      unfold Clocks.SPI_Open
      split
      · cases own <;> rfl
      · rfl
    rw [hset]
    dsimp only
    rw [hsel]
    exact ⟨le_trans (Nat.div_le_self _ _) hbus, le_trans (Nat.div_le_self _ _) hbus⟩
  · obtain ⟨hknown, hdiv, hown⟩ := hfit.resolve_left hhigh
    obtain ⟨h1, hb, h2⟩ := setDivider_fit hdiv
    have hset : clk.SPI_SetBusClock (clk.pclk div) k hz =
        (k, setDivider 0x1FF (clk.taken (clk.pclk div) k.SEL) hz) := by
      rw [Clocks.SPI_SetBusClock, if_neg hhigh]
    have hopen : ∀ b, b ≤ hz → clk.SPI_Open own (clk.pclk div) k b =
        (k, setDivider 0xFF (clk.taken (clk.pclk div) k.SEL) b) := by
      intro b hb
      rw [Clocks.SPI_Open, if_neg (by omega), if_neg (by omega)]
      cases own with
      | true => rfl
      | false => rw [← hown.resolve_left (by decide)]; rfl
    rw [hset]
    dsimp only
    rw [hopen _ hb]
    dsimp only
    rw [Clocks.actual, if_neg hknown]
    exact ⟨h1, h2⟩

/-- The peripheral bus of an SPI unit: the first and third hang on the second bus. -/
def Clocks.spiDiv (clk : Clocks) (n : Fin 4) : ℕ :=
  if n.val = 0 ∨ n.val = 2 then clk.APB1DIV else clk.APB0DIV

/-- The clock of `SPI0` to `SPI3`. -/
def Clocks.spiClocking (clk : Clocks) (n : Fin 4) : Clocking where
  σ := SpiSel
  source k := clk.actual (clk.pclk (clk.spiDiv n)) k.SEL
  set := clk.SPI_SetBusClock (clk.pclk (clk.spiDiv n))
  reopen := clk.SPI_Open (n.val < 2) (clk.pclk (clk.spiDiv n))
  Fit := clk.SpiFit (n.val < 2) (clk.pclk (clk.spiDiv n))
  fit hf := clk.spi_fit hf

/-- `LPSCC_CLKSEL0_LPSPI0SEL_Msk`. -/
def LPSPI0SEL_Msk : BitVec 32 := 0x3 <<< 2

/-- The frequency the library takes the low-power source for: the mask it looks through is
complemented, so that it looks at every field but the unit's own. -/
def lpspiTaken (CLKSEL0 : BitVec 32) : ℕ := if CLKSEL0 &&& ~~~LPSPI0SEL_Msk = 0 then __HIRC else __MIRC

/-- The frequency it is. -/
def Clocks.lpspiActual (clk : Clocks) (CLKSEL0 : BitVec 32) : ℕ :=
  if CLKSEL0 &&& LPSPI0SEL_Msk = 0 then __HIRC else clk.MIRC

/-- The clock of `LPSPI0`, with `LPSPI_SetBusClock` and `LPSPI_Open`. -/
def Clocks.lpspiClocking (clk : Clocks) : Clocking where
  σ := BitVec 32
  source := clk.lpspiActual
  set k u32BusClock := (k, setDivider 0x1FF (lpspiTaken k) u32BusClock)
  reopen k u32BusClock := (k, setDivider 0xFF (lpspiTaken k) u32BusClock)
  Fit k hz := clk.lpspiActual k = lpspiTaken k ∧ Divides (lpspiTaken k) hz
  fit hf := by
    dsimp only
    rw [hf.1]
    exact ⟨(setDivider_fit hf.2).1, (setDivider_fit hf.2).2.2⟩

/-- `SPI0` to `SPI3`. -/
def Clocks.spi (clk : Clocks) (n : Fin 4) : Port := (clk.spiClocking n).port

/-- `LPSPI0`. -/
def Clocks.lpspi (clk : Clocks) : Port := clk.lpspiClocking.port

/-! ### The USCI units -/

/-- The fields of `USPI_LINECTL`, `USPI_PROTCTL` and `USPI_BRGEN`. -/
structure UspiRegs where
  LSB : Bool
  CTLOINV : Bool
  DWIDTH : ℕ
  SLAVE : Bool
  SS : Bool
  AUTOSS : Bool
  SCLKMODE : Fin 4
  CLKDIV : ℕ
deriving DecidableEq, Repr

/-- The divider both functions compute, one above the value of the field. -/
def uspiDivider (u32Pclk u32BusClock : ℕ) : ℕ := (((u32Pclk / 2) * 10) % 2 ^ 32 / u32BusClock + 5) / 10

/-- `USPI_SetBusClock`.  It divides by the rate, and by the divider: one of zero wraps around in
the field, and to zero again in the rate that is reported. -/
def USPI_SetBusClock (u32Pclk : ℕ) (r : UspiRegs) (u32BusClock : ℕ) : Option (UspiRegs × ℕ) :=
  if u32BusClock = 0 then none
  else
    let n := uspiDivider u32Pclk u32BusClock
    if n = 0 then none else some ({ r with CLKDIV := (n - 1) % 1024 }, u32Pclk / (2 * n))

/-- `USPI_Open` as a master. -/
def USPI_Open (u32Pclk : ℕ) (r : UspiRegs) (u32SPIMode : Fin 4) (u32DataWidth u32BusClock : ℕ) :
    Option UspiRegs :=
  let r := { r with
    DWIDTH := if u32DataWidth = 16 then 0 else u32DataWidth
    LSB := false, CTLOINV := true, AUTOSS := false, SLAVE := false, SCLKMODE := u32SPIMode }
  if u32BusClock = 0 then some { r with CLKDIV := 0 }
  else
    let n := uspiDivider u32Pclk u32BusClock
    if n = 0 then none else some { r with CLKDIV := (n - 1) % 1024 }

/-- The rates a USCI divides its bus clock down to: neither zero nor so high that the divider
vanishes, by dividers that its ten bits hold, without passing the wanted one. -/
def UspiFit (u32Pclk hz : ℕ) : Prop :=
  0 < hz ∧ u32Pclk / 2 * 10 < 2 ^ 32 ∧ 0 < nearest (u32Pclk / 2) hz ∧
    nearest (u32Pclk / 2) hz ≤ 1024 ∧
    nearest (u32Pclk / 2) (u32Pclk / 2 / nearest (u32Pclk / 2) hz) ≤ 1024 ∧
    (hz ≤ 2 * (u32Pclk / 2 % hz) ∨ u32Pclk / 2 % hz < u32Pclk / 2 / hz)

theorem uspiDivider_eq {u32Pclk : ℕ} (hsmall : u32Pclk / 2 * 10 < 2 ^ 32) (hz : ℕ) :
    uspiDivider u32Pclk hz = nearest (u32Pclk / 2) hz := by
  rw [uspiDivider, Nat.mod_eq_of_lt hsmall, nearest]

/-- Setting a rate that fits, and opening with the one reported. -/
theorem uspi_fit {u32Pclk hz : ℕ} (hfit : UspiFit u32Pclk hz) (r : UspiRegs) :
    ∃ r' b, USPI_SetBusClock u32Pclk r hz = some (r', b) ∧
      u32Pclk / (2 * (r'.CLKDIV + 1)) ≤ hz ∧
      ∀ m w, ∃ r'', USPI_Open u32Pclk r' m w b = some r'' ∧
        u32Pclk / (2 * (r''.CLKDIV + 1)) ≤ hz := by
  obtain ⟨hpos, hsmall, hn1, hn, hre, hround⟩ := hfit
  have hrate := (div_nearest_le_iff hpos hn1).2 hround
  have hset : USPI_SetBusClock u32Pclk r hz =
      some ({ r with CLKDIV := nearest (u32Pclk / 2) hz - 1 },
        u32Pclk / 2 / nearest (u32Pclk / 2) hz) := by
    rw [USPI_SetBusClock, if_neg (Nat.ne_of_gt hpos), uspiDivider_eq hsmall]
    dsimp only
    rw [if_neg (Nat.ne_of_gt hn1), Nat.mod_eq_of_lt (by omega), ← Nat.div_div_eq_div_mul]
  refine ⟨_, _, hset, ?_, fun m w => ?_⟩
  · dsimp only
    rwa [Nat.sub_add_cancel (show 1 ≤ nearest (u32Pclk / 2) hz from hn1),
      ← Nat.div_div_eq_div_mul]
  · have hb : 0 < u32Pclk / 2 / nearest (u32Pclk / 2) hz := Nat.div_pos (nearest_le _ hpos) hn1
    have hle := le_nearest_div hn1 (nearest_le (u32Pclk / 2) hpos)
    unfold USPI_Open
    dsimp only
    rw [if_neg (Nat.ne_of_gt hb), uspiDivider_eq hsmall, if_neg (by omega)]
    refine ⟨_, rfl, ?_⟩
    dsimp only
    rw [Nat.mod_eq_of_lt (by omega), Nat.sub_add_cancel (by omega), ← Nat.div_div_eq_div_mul]
    exact le_trans (Nat.div_le_div_left hle hn1) hrate

/-- The registers and functions of a USCI unit on a peripheral bus. -/
def uspiPort (u32Pclk : ℕ) : Port where
  HW := UspiRegs
  Mode := Fin 4
  SPI_MODE := id
  widthOk w := w = 8 ∨ w = 16
  SetBusClock := USPI_SetBusClock u32Pclk
  Open := USPI_Open u32Pclk
  SET_SS_LOW h := { h with CTLOINV := true, AUTOSS := false, SS := true }
  SET_SS_HIGH h := { h with CTLOINV := false, AUTOSS := false, SS := true }
  SET_MSB_FIRST h := { h with LSB := false }
  SET_LSB_FIRST h := { h with LSB := true }
  modeOf h := h.SCLKMODE
  widthOf h := if h.DWIDTH = 0 then 16 else h.DWIDTH
  msbFirst h := !h.LSB
  -- the line carries the select bit, inverted or not
  ssHigh h := h.SS != h.CTLOINV
  rate h := u32Pclk / (2 * (h.CLKDIV + 1))
  Fit _ hz := UspiFit u32Pclk hz
  widthOk_zero := by decide
  clock_frame := by
    intro h hz h' b he
    simp only [USPI_SetBusClock, Option.ite_none_left_eq_some, Option.some.injEq,
      Prod.mk.injEq] at he
    obtain ⟨-, -, rfl, -⟩ := he
    exact ⟨⟨rfl, rfl, rfl⟩, rfl⟩
  clock_fit {h hz} hf := uspi_fit hf h
  open_format := by
    intro h m w b h' hw he
    unfold USPI_Open at he
    have hwidth : ∀ r : UspiRegs, r.DWIDTH = (if w = 16 then 0 else w) →
        (if r.DWIDTH = 0 then 16 else r.DWIDTH) = w := by
      intro r hr
      rw [hr]
      rcases of_decide_eq_true hw with rfl | rfl <;> rfl
    dsimp only at he
    split at he
    · obtain rfl := Option.some.inj he
      exact ⟨rfl, hwidth _ rfl⟩
    · rw [Option.ite_none_left_eq_some] at he
      obtain rfl := Option.some.inj he.2
      exact ⟨rfl, hwidth _ rfl⟩
  ss_low h := ⟨⟨rfl, rfl, rfl⟩, rfl, rfl⟩
  ss_high h := ⟨⟨rfl, rfl, rfl⟩, rfl, rfl⟩
  msb_first h := ⟨rfl, rfl, rfl, rfl, rfl⟩
  lsb_first h := ⟨rfl, rfl, rfl, rfl, rfl⟩

/-- `USPI0` and `USPI1`. -/
def Clocks.uspi (clk : Clocks) (n : Fin 2) : Port :=
  uspiPort (clk.pclk (if n = 0 then clk.APB0DIV else clk.APB1DIV))

/-! ### The buses of the board -/

/-- The buses the three drivers serve. -/
inductive BusId
  | spi (n : Fin 4)
  | lpspi
  | uspi (n : Fin 2)
deriving DecidableEq

/-- The port of a bus. -/
def BusId.port (clk : Clocks) : BusId → Port
  | .spi n => clk.spi n
  | .lpspi => clk.lpspi
  | .uspi n => clk.uspi n

end Spi
