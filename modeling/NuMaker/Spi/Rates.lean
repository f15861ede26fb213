/-
The rates of the SPI and the low-power SPI units, with the registers as the library writes them.

`Controller` has the selection of a unit and its divider as two numbers.  Here they are fields of
registers that are shared: opening `SPI2` or `SPI3` works on `CLKSEL2`, and their fields are in
`CLKSEL3`.

* **`rates_programmed`** — what the functions make of a request that the dividers reach: they report
  the rate that the unit really has, agree and keep to their fields, and the divider is the nearest
  one;
* **`rates_iff`** — for which unit, registers and request they do all this and keep within the rate
  asked for as well.
-/
import NuMaker.Lib.BitField
import NuMaker.Spi.Controller

namespace Spi.Rates

/-! ### The registers -/

/-- The registers that have the selections. -/
inductive ClkReg
  | CLKSEL2 | CLKSEL3 | LPSCC_CLKSEL0
deriving DecidableEq

/-- The units. -/
inductive Inst
  | spi (n : Fin 4)
  | lpspi0
deriving DecidableEq

/-- The selections, and `CLKDIV` of the unit that is programmed. -/
structure Regs where
  sel : ClkReg → BitVec 32
  CLKDIV : BitVec 32

/-- `SPI_CLKDIV_DIVIDER_Msk`, and the one of the low-power unit. -/
def SPI_CLKDIV_DIVIDER_Msk : BitVec 32 := 0x1ff#32 <<< 0

def Regs.DIVIDER (s : Regs) : ℕ := field s.CLKDIV 0 9

/-- The three bits with the selection of an SPI unit.  There `SPI_SetBusClock` looks for it, and
`SPI_Open` as a slave. -/
def selected : Fin 4 → ClkReg × ℕ
  | 0 => (.CLKSEL2, 4)
  | 1 => (.CLKSEL2, 12)
  | 2 => (.CLKSEL3, 8)
  | 3 => (.CLKSEL3, 12)

/-- Where `SPI_Open` looks for it as a master. -/
def opened : Fin 4 → ClkReg × ℕ
  | 0 => (.CLKSEL2, 4)
  | 1 => (.CLKSEL2, 12)
  | 2 => (.CLKSEL2, 8)
  | 3 => (.CLKSEL2, 12)

/-- The selection field of a unit: its register, its position and its width. -/
def Inst.place : Inst → ClkReg × ℕ × ℕ
  | .spi n => ((selected n).1, (selected n).2, 3)
  | .lpspi0 => (.LPSCC_CLKSEL0, 2, 2)

/-- The selection that is found there. -/
def Regs.found (s : Regs) (at' : ClkReg × ℕ) : ℕ := field (s.sel at'.1) at'.2 3

/-- The selection of the peripheral bus, written there. -/
def Regs.selectPCLK (s : Regs) (at' : ClkReg × ℕ) : Regs :=
  { s with sel := Function.update s.sel at'.1 (setField (s.sel at'.1) at'.2 3 (BitVec.ofNat 32 SEL_PCLK)) }

/-! ### The functions -/

/-- The tail of the four functions on the register: what is written and what is returned. -/
def writeDivider (limit : ℕ) (CLKDIV : BitVec 32) (u32ClkSrc u32BusClock : ℕ) : BitVec 32 × ℕ :=
  if u32ClkSrc ≤ u32BusClock then (0, u32ClkSrc)
  else if u32BusClock = 0 then (CLKDIV ||| SPI_CLKDIV_DIVIDER_Msk, u32ClkSrc / (0xFF + 1))
  else
    let u32Div := u32Div u32ClkSrc u32BusClock
    if limit < u32Div then (CLKDIV ||| SPI_CLKDIV_DIVIDER_Msk, u32ClkSrc / (0xFF + 1))
    else (setField CLKDIV 0 9 (BitVec.ofNat 32 u32Div), u32ClkSrc / (u32Div + 1))

/-- The bus that a unit hangs on. -/
def pclk (clk : Clocks) (n : Fin 4) : ℕ := clk.pclk (clk.spiDiv n)

/-- `SPI_SetBusClock` and the master's half of `SPI_Open`: they differ in where they find the
selection and in the largest divider they take. -/
def program (clk : Clocks) (n : Fin 4) (at' : ClkReg × ℕ) (limit : ℕ) (s : Regs) (u32BusClock : ℕ) :
    Regs × ℕ :=
  if clk.HCLK ≤ u32BusClock then
    let s := s.selectPCLK at'
    ({ s with CLKDIV := 0 }, clk.taken (pclk clk n) (s.found at'))
  else
    let (CLKDIV, u32RetValue) :=
      writeDivider limit s.CLKDIV (clk.taken (pclk clk n) (s.found at')) u32BusClock
    ({ s with CLKDIV := CLKDIV }, u32RetValue)

def SPI_SetBusClock (clk : Clocks) (n : Fin 4) (s : Regs) (u32BusClock : ℕ) : Regs × ℕ :=
  program clk n (selected n) 0x1FF s u32BusClock

def SPI_Open (clk : Clocks) (n : Fin 4) (master : Bool) (s : Regs) (u32BusClock : ℕ) : Regs × ℕ :=
  if master then program clk n (opened n) 0xFF s u32BusClock
  else ({ s.selectPCLK (selected n) with CLKDIV := 0 }, pclk clk n)

def LPSPI_SetBusClock (s : Regs) (u32BusClock : ℕ) : Regs × ℕ :=
  let (CLKDIV, u32RetValue) :=
    writeDivider 0x1FF s.CLKDIV (lpspiTaken (s.sel .LPSCC_CLKSEL0)) u32BusClock
  ({ s with CLKDIV := CLKDIV }, u32RetValue)

def LPSPI_Open (master : Bool) (s : Regs) (u32BusClock : ℕ) : Regs × ℕ :=
  if master then
    let (CLKDIV, u32RetValue) :=
      writeDivider 0xFF s.CLKDIV (lpspiTaken (s.sel .LPSCC_CLKSEL0)) u32BusClock
    ({ s with CLKDIV := CLKDIV }, u32RetValue)
  else ({ s with CLKDIV := 0 }, lpspiTaken (s.sel .LPSCC_CLKSEL0))

/-- The functions of a unit. -/
def SetBusClock (clk : Clocks) : Inst → Regs → ℕ → Regs × ℕ
  | .spi n => SPI_SetBusClock clk n
  | .lpspi0 => LPSPI_SetBusClock

def Open (clk : Clocks) : Inst → Bool → Regs → ℕ → Regs × ℕ
  | .spi n => SPI_Open clk n
  | .lpspi0 => LPSPI_Open

/-! ### What they should do -/

/-- The frequency of the source that is really selected.  What is reserved counts as what the library
takes it for. -/
def real (clk : Clocks) : Inst → Regs → ℕ
  | .spi n, s => clk.actual (pclk clk n) (s.found (selected n))
  | .lpspi0, s => clk.lpspiActual (s.sel .LPSCC_CLKSEL0)

/-- One call, from the registers before it to those after it. -/
structure Sound (clk : Clocks) (u : Inst) (s : Regs) (r : Regs × ℕ) : Prop where
  /-- The rate that is returned is the one that the unit has. -/
  rate : r.2 = real clk u r.1 / (r.1.DIVIDER + 1)
  /-- No bit of the divider is set outside its field. -/
  fits : ∀ i, 9 ≤ i → r.1.CLKDIV.getLsbD i = true → s.CLKDIV.getLsbD i = true
  /-- No bit of a selection is changed but the unit's own. -/
  contained : ∀ reg i, ¬ (reg = u.place.1 ∧ u.place.2.1 ≤ i ∧ i < u.place.2.1 + u.place.2.2) →
    (r.1.sel reg).getLsbD i = (s.sel reg).getLsbD i

/-- The rate is within the request, or the request is below the slowest rate there is. -/
def Within (clk : Clocks) (u : Inst) (s : Regs) (hz : ℕ) : Prop :=
  real clk u s ≤ hz * (s.DIVIDER + 1) ∨ hz * (0x1FF + 1) < real clk u s

/-- The functions of a unit, for one request: opening it as a master or as a slave, and setting its
rate. -/
structure Truthful (clk : Clocks) (u : Inst) (s : Regs) (hz : ℕ) : Prop where
  master : Sound clk u s (Open clk u true s hz)
  slave : Sound clk u s (Open clk u false s hz)
  set : Sound clk u s (SetBusClock clk u s hz)
  agree : (Open clk u true s hz).1.DIVIDER = (SetBusClock clk u s hz).1.DIVIDER
  within_master : Within clk u (Open clk u true s hz).1 hz
  within_set : Within clk u (SetBusClock clk u s hz).1 hz

/-! ### Which divider a request gets -/

/-- `k` is the nearest divider for the request, as the words of the library have it. -/
def Rounds (k src hz : ℕ) : Prop :=
  (10 * k - 5) * hz ≤ src * 10 % 2 ^ 32 ∧ src * 10 % 2 ^ 32 < (10 * k + 5) * hz

variable {src hz k : ℕ}

theorem u32Div_eq_iff (hpos : 0 < hz) (hk : 1 ≤ k) (hk' : k ≤ 512) :
    u32Div src hz + 1 = k ↔ Rounds k src hz := by
  have hq : src * 10 % 2 ^ 32 / hz ≤ src * 10 % 2 ^ 32 := Nat.div_le_self _ _
  have hw : src * 10 % 2 ^ 32 < 2 ^ 32 := Nat.mod_lt _ (by norm_num)
  rw [Rounds, ← decimal_round_iff hpos hk, u32Div]
  generalize src * 10 % 2 ^ 32 / hz = q at hq
  rcases Nat.lt_or_ge (q + 5) (2 ^ 32) with h | h
  · rw [Nat.mod_eq_of_lt h]
    split <;> omega
  · -- the sum with five wraps around, and then so does the divider
    rw [if_pos (by omega)]
    omega

/-- The nearest divider is none of those below. -/
theorem not_rounds_of_lt {limit : ℕ} (hpos : 0 < hz) (hlim : limit ≤ 511)
    (hlt : limit < u32Div src hz) (hk : 1 ≤ k) (hk' : k ≤ limit + 1) : ¬ Rounds k src hz := by
  intro h
  have heq := (u32Div_eq_iff hpos hk (by omega)).2 h
  omega

/-- A source below 256 Hz has every divider that it is asked for. -/
theorem u32Div_small (hpos : 0 < hz) (hlt : hz < src) (hsmall : src < 256) : u32Div src hz < 256 := by
  have hle := nearest_le src hpos
  rw [u32Div_eq hpos (le_of_lt hlt) (by omega)]
  omega

/-- The rate that is returned is the real one, and it is within the request or out of reach. -/
def Serves (real hz : ℕ) (r : ℕ × ℕ) : Prop :=
  r.2 = real / (r.1 + 1) ∧ (real ≤ hz * (r.1 + 1) ∨ hz * (0x1FF + 1) < real)

/-- At the largest divider the rate is computed with another one. -/
theorem serves_slowest {real : ℕ} : Serves real hz (0x1FF, src / 256) ↔ src / 256 = real / 512 := by
  rw [Serves]
  dsimp only
  omega

/-- A divider that two sources share, with the same rate. -/
def Coincide (src₁ src₂ hz : ℕ) : Prop :=
  (hz = 0 ∧ (0 < src₁ ∧ src₁ < 256) ∧ 0 < src₂ ∧ src₂ < 256) ∨
  (hz < src₁ ∧ hz < src₂ ∧
    ((∃ k, (1 ≤ k ∧ k ≤ 256) ∧ Rounds k src₁ hz ∧ Rounds k src₂ hz ∧ src₁ / k = src₂ / k ∧
      (src₂ ≤ hz * k ∨ hz * 512 < src₂)) ∨
    ((∀ k, 1 ≤ k → k ≤ 256 → ¬ Rounds k src₁ hz) ∧ Rounds 512 src₂ hz ∧ src₁ / 256 = src₂ / 512)))

theorem rounds_pos (h : Rounds k src hz) : 0 < hz := by
  obtain ⟨h1, h2⟩ := h
  by_contra hz0
  obtain rfl : hz = 0 := by omega
  omega

/-- **Two sources.**  The functions agree and serve the second source: both are undivided and the
same, or they share a divider. -/
theorem serve_iff (src₁ src₂ hz : ℕ) :
    ((setDivider 0xFF src₁ hz).1 = (setDivider 0x1FF src₂ hz).1 ∧
      Serves src₂ hz (setDivider 0xFF src₁ hz) ∧ Serves src₂ hz (setDivider 0x1FF src₂ hz)) ↔
    src₁ ≤ hz ∧ src₁ = src₂ ∨ Coincide src₁ src₂ hz := by
  by_cases h1 : src₁ ≤ hz
  · -- undivided
    have hno : ¬ Coincide src₁ src₂ hz := by
      rintro (⟨rfl, h, -⟩ | ⟨h, -⟩) <;> omega
    rw [setDivider_of_le _ h1, or_iff_left hno]
    constructor
    · rintro ⟨-, ⟨hrate, -⟩, -⟩
      exact ⟨h1, by simpa using hrate⟩
    · rintro ⟨-, rfl⟩
      rw [setDivider_of_le _ h1]
      exact ⟨rfl, ⟨by simp, by simp [h1]⟩, ⟨by simp, by simp [h1]⟩⟩
  rw [or_iff_right (fun h => h1 h.1)]
  by_cases h2 : src₂ ≤ hz
  · have hno : ¬ Coincide src₁ src₂ hz := by
      rintro (⟨rfl, -, h, -⟩ | ⟨-, h, -⟩) <;> omega
    refine iff_of_false ?_ hno
    rintro ⟨hagree, ⟨hrate, -⟩, -⟩
    rw [setDivider_of_le _ h2] at hagree
    rw [setDivider, if_neg h1] at hagree hrate
    by_cases hzero : hz = 0
    · rw [if_pos hzero] at hagree
      cases hagree
    · rw [if_neg hzero] at hagree hrate
      dsimp only at hagree hrate
      split at hagree
      · cases hagree
      · next hle =>
        rw [if_neg hle] at hrate
        dsimp only at hagree hrate
        rw [hagree, Nat.div_one, Nat.div_one] at hrate
        omega
  by_cases hzero : hz = 0
  · subst hzero
    have hcoin : Coincide src₁ src₂ 0 ↔ src₁ < 256 ∧ src₂ < 256 := by
      constructor
      · rintro (⟨-, ⟨-, h⟩, -, h'⟩ | ⟨-, -, ⟨k, -, h, -⟩ | ⟨-, h, -⟩⟩)
        · exact ⟨h, h'⟩
        · exact absurd (rounds_pos h) (lt_irrefl 0)
        · exact absurd (rounds_pos h) (lt_irrefl 0)
      · rintro ⟨h, h'⟩
        exact Or.inl ⟨rfl, ⟨by omega, h⟩, by omega, h'⟩
    rw [hcoin, setDivider, if_neg h1, if_pos rfl, setDivider, if_neg h2, if_pos rfl]
    dsimp only
    rw [serves_slowest, serves_slowest]
    omega
  have hpos : 0 < hz := by omega
  have hlt₁ : hz < src₁ := by omega
  have hlt₂ : hz < src₂ := by omega
  have hcoin : Coincide src₁ src₂ hz ↔
      (∃ k, (1 ≤ k ∧ k ≤ 256) ∧ Rounds k src₁ hz ∧ Rounds k src₂ hz ∧ src₁ / k = src₂ / k ∧
        (src₂ ≤ hz * k ∨ hz * 512 < src₂)) ∨
      ((∀ k, 1 ≤ k → k ≤ 256 → ¬ Rounds k src₁ hz) ∧ Rounds 512 src₂ hz ∧
        src₁ / 256 = src₂ / 512) := by
    rw [Coincide, or_iff_right (fun h => hzero h.1), and_iff_right hlt₁, and_iff_right hlt₂]
  rw [hcoin, setDivider, if_neg h1, if_neg hzero, setDivider, if_neg h2, if_neg hzero]
  dsimp only
  by_cases hmax₂ : 0x1FF < u32Div src₂ hz
  · -- a source this far above the request is not below 256 Hz
    rw [if_pos hmax₂, serves_slowest]
    refine iff_of_false ?_ ?_
    · rintro ⟨-, -, h⟩
      have := u32Div_small hpos hlt₂ (by omega)
      omega
    · rintro (⟨k, ⟨hk, hk'⟩, -, h, -⟩ | ⟨-, h, -⟩)
      · exact not_rounds_of_lt hpos (le_refl _) hmax₂ hk (by omega) h
      · exact not_rounds_of_lt hpos (le_refl _) hmax₂ (by omega) (by omega) h
  have hd₂ : Rounds (u32Div src₂ hz + 1) src₂ hz :=
    (u32Div_eq_iff hpos (by omega) (by omega)).1 rfl
  rw [if_neg hmax₂]
  by_cases hmax₁ : 0xFF < u32Div src₁ hz
  · rw [if_pos hmax₁, serves_slowest]
    dsimp only
    constructor
    · rintro ⟨hagree, hrate, -⟩
      refine Or.inr ⟨fun k hk hk' => not_rounds_of_lt hpos (by omega) hmax₁ hk (by omega), ?_, hrate⟩
      rw [← hagree] at hd₂
      exact hd₂
    · rintro (⟨k, ⟨hk, hk'⟩, h, -⟩ | ⟨-, h, hrate⟩)
      · exact absurd h (not_rounds_of_lt hpos (by omega) hmax₁ hk (by omega))
      · have h512 := (u32Div_eq_iff hpos (by omega) (by omega)).2 h
        refine ⟨by omega, hrate, ?_⟩
        rw [show u32Div src₂ hz = 511 by omega]
        exact ⟨rfl, by dsimp only; omega⟩
  have hd₁ : Rounds (u32Div src₁ hz + 1) src₁ hz :=
    (u32Div_eq_iff hpos (by omega) (by omega)).1 rfl
  rw [if_neg hmax₁, Serves, Serves]
  dsimp only
  constructor
  · rintro ⟨hagree, ⟨hrate, hwithin⟩, -⟩
    refine Or.inl ⟨u32Div src₁ hz + 1, ⟨by omega, by omega⟩, hd₁, ?_, hrate, hwithin⟩
    rw [hagree]
    exact hd₂
  · rintro (⟨k, ⟨hk, hk'⟩, h, h', hrate, hwithin⟩ | ⟨h, -⟩)
    · have hk₁ := (u32Div_eq_iff hpos hk (by omega)).2 h
      have hk₂ := (u32Div_eq_iff hpos hk (by omega)).2 h'
      rw [hk₁, hk₂]
      exact ⟨by omega, ⟨hrate, hwithin⟩, rfl, hwithin⟩
    · exact absurd hd₁ (h _ (by omega) (by omega))

/-- The requests that a source is divided down to: it does not overflow, the nearest divider is one
of both functions, and it was not rounded down.  A source so fast that ten times it overflows is
only ever served below the slowest rate. -/
def Reaches (src hz : ℕ) : Prop :=
  src ≤ hz ∨ hz = 0 ∧ src < 256 ∨
  (src * 10 < 2 ^ 32 ∧ src * 2 < hz * 513 ∧ (hz ≤ 2 * (src % hz) ∨ src % hz = 0)) ∨
  (2 ^ 32 ≤ src * 10 ∧ (hz * 5 ≤ src * 10 % 2 ^ 32 ∧ src * 10 % 2 ^ 32 < hz * 2565) ∧
    hz * 512 < src)

/-- Some divider of both functions is the nearest one. -/
theorem exists_rounds (hpos : 0 < hz) :
    (∃ k, (1 ≤ k ∧ k ≤ 256) ∧ Rounds k src hz) ↔
      hz * 5 ≤ src * 10 % 2 ^ 32 ∧ src * 10 % 2 ^ 32 < hz * 2565 := by
  constructor
  · rintro ⟨k, ⟨hk, hk'⟩, hlow, hhigh⟩
    have h5 : 5 * hz ≤ (10 * k - 5) * hz := Nat.mul_le_mul_right hz (by omega)
    have h2565 : (10 * k + 5) * hz ≤ 2565 * hz := Nat.mul_le_mul_right hz (by omega)
    omega
  · rintro ⟨hlow, hhigh⟩
    have h5 : 5 ≤ src * 10 % 2 ^ 32 / hz := by
      rw [Nat.le_div_iff_mul_le hpos]
      omega
    have h2565 : src * 10 % 2 ^ 32 / hz < 2565 := by
      rw [Nat.div_lt_iff_lt_mul hpos]
      omega
    exact ⟨(src * 10 % 2 ^ 32 / hz + 5) / 10, ⟨by omega, by omega⟩,
      (decimal_round_iff hpos (by omega)).1 rfl⟩

/-- A source whose tenfold overflows is never divided down to the request. -/
theorem lt_of_overflow (hbig : 2 ^ 32 ≤ src * 10) (hlt : hz < src) (hk : 1 ≤ k)
    (h : Rounds k src hz) : hz * k < src := by
  have hwrap : src * 10 % 2 ^ 32 + 2 ^ 32 ≤ src * 10 := by omega
  have hlow := h.1
  have hw : src * 10 % 2 ^ 32 < 2 ^ 32 := Nat.mod_lt _ (by norm_num)
  rcases Nat.lt_or_ge k 2 with h2 | h2
  · rw [show k = 1 by omega, Nat.mul_one]
    exact hlt
  · -- from the second divider on, half of a step is less than what was lost
    have h15 : 15 * hz ≤ (10 * k - 5) * hz := Nat.mul_le_mul_right hz (by omega)
    have hexp : (10 * k - 5) * hz + 5 * hz = 10 * (hz * k) := by
      rw [← Nat.add_mul, show 10 * k - 5 + 5 = 10 * k by omega, Nat.mul_assoc, Nat.mul_comm k]
    omega

/-- **One source.**  Both functions divide the same source down to the request. -/
theorem coincide_self : src ≤ hz ∨ Coincide src src hz ↔ Reaches src hz := by
  by_cases hle : src ≤ hz
  · exact iff_of_true (Or.inl hle) (Or.inl hle)
  rw [Reaches, or_iff_right hle, or_iff_right hle]
  have hlt : hz < src := by omega
  rcases Nat.eq_zero_or_pos hz with rfl | hpos
  · constructor
    · rintro (⟨-, ⟨-, h⟩, -⟩ | ⟨-, -, ⟨k, -, h, -⟩ | ⟨-, h, -⟩⟩)
      · exact Or.inl ⟨rfl, h⟩
      · exact absurd (rounds_pos h) (lt_irrefl 0)
      · exact absurd (rounds_pos h) (lt_irrefl 0)
    · rintro (⟨-, h⟩ | ⟨-, h, -⟩ | ⟨-, ⟨-, h⟩, -⟩)
      · exact Or.inl ⟨rfl, ⟨hlt, h⟩, hlt, h⟩
      · omega
      · omega
  have hshare : Coincide src src hz ↔
      ∃ k, (1 ≤ k ∧ k ≤ 256) ∧ Rounds k src hz ∧ (src ≤ hz * k ∨ hz * 512 < src) := by
    constructor
    · rintro (⟨rfl, -⟩ | ⟨-, -, ⟨k, hk, h, -, -, hwithin⟩ | ⟨-, h, hrate⟩⟩)
      · exact absurd hpos (lt_irrefl 0)
      · exact ⟨k, hk, h, hwithin⟩
      · have hsmall := u32Div_small hpos hlt (by omega)
        have h512 := (u32Div_eq_iff hpos (by omega) (by omega)).2 h
        omega
    · rintro ⟨k, hk, h, hwithin⟩
      exact Or.inr ⟨hlt, hlt, Or.inl ⟨k, hk, h, h, rfl, hwithin⟩⟩
  rw [hshare, or_iff_right (fun h => Nat.ne_of_gt hpos h.1)]
  by_cases hbig : src * 10 < 2 ^ 32
  · rw [or_iff_left (fun h => absurd h.1 (not_le_of_gt hbig)), and_iff_right hbig]
    have hmod : src * 10 % 2 ^ 32 = src * 10 := Nat.mod_eq_of_lt hbig
    -- the divider is the nearest one
    have hnear : ∀ k, 1 ≤ k → Rounds k src hz → k = nearest src hz := by
      intro k hk h
      rw [Rounds, hmod] at h
      exact ((decimal_round_iff hpos hk).2 h).symm
    have hrange := @exists_rounds src hz hpos
    rw [hmod] at hrange
    constructor
    · rintro ⟨k, hk, h, hwithin⟩
      have hlim := hrange.1 ⟨k, hk, h⟩
      refine ⟨by omega, (le_mul_nearest_iff hpos).1 ?_⟩
      rw [← hnear k hk.1 h]
      exact hwithin.resolve_right (by omega)
    · rintro ⟨hlim, hround⟩
      obtain ⟨k, hk, h⟩ := hrange.2 ⟨by omega, by omega⟩
      refine ⟨k, hk, h, Or.inl ?_⟩
      rw [hnear k hk.1 h]
      exact (le_mul_nearest_iff hpos).2 hround
  · rw [or_iff_right (fun h => hbig h.1), and_iff_right (by omega), ← exists_rounds hpos]
    constructor
    · rintro ⟨k, hk, h, hwithin⟩
      have hmul := lt_of_overflow (by omega) hlt hk.1 h
      exact ⟨⟨k, hk, h⟩, hwithin.resolve_left (by omega)⟩
    · rintro ⟨⟨k, hk, h⟩, hslow⟩
      exact ⟨k, hk, h, Or.inr hslow⟩

/-! ### The registers after a call -/

variable {clk : Clocks} {n : Fin 4} {s : Regs} {limit : ℕ}

theorem divider_msk_bits (i : ℕ) : SPI_CLKDIV_DIVIDER_Msk.getLsbD i = decide (i < 9) := by
  have hmsk : SPI_CLKDIV_DIVIDER_Msk = BitVec.ofNat 32 (2 ^ 9 - 1) := by decide
  rw [hmsk, BitVec.getLsbD_ofNat, Nat.testBit_two_pow_sub_one]
  by_cases h : i < 9
  · simp [h, show i < 32 by omega]
  · simp [h]

/-- The largest divider, or-ed in. -/
theorem or_divider_msk (r : BitVec 32) :
    field (r ||| SPI_CLKDIV_DIVIDER_Msk) 0 9 = 0x1FF ∧
      ∀ i, 9 ≤ i → (r ||| SPI_CLKDIV_DIVIDER_Msk).getLsbD i = true → r.getLsbD i = true := by
  constructor
  · refine Nat.eq_of_testBit_eq fun i => ?_
    rw [testBit_field, BitVec.getLsbD_or, divider_msk_bits, show 0x1FF = 2 ^ 9 - 1 from rfl,
      Nat.testBit_two_pow_sub_one, Nat.zero_add]
    by_cases h : i < 9 <;> simp [h]
  · intro i hi h
    rw [BitVec.getLsbD_or, divider_msk_bits, Bool.or_eq_true] at h
    exact h.resolve_right (by simpa using hi)

/-- The divider in its register is the one that was computed. -/
theorem writeDivider_spec (hlim : limit ≤ 511) (r : BitVec 32) (src hz : ℕ) :
    field (writeDivider limit r src hz).1 0 9 = (setDivider limit src hz).1 ∧
      (writeDivider limit r src hz).2 = (setDivider limit src hz).2 ∧
      ∀ i, 9 ≤ i → (writeDivider limit r src hz).1.getLsbD i = true → r.getLsbD i = true := by
  have hmax := or_divider_msk r
  rw [writeDivider, setDivider]
  split
  · exact ⟨by simp [field], rfl, fun i _ h => by simp at h⟩
  split
  · exact ⟨hmax.1, rfl, hmax.2⟩
  dsimp only
  split
  · exact ⟨hmax.1, rfl, hmax.2⟩
  · next hle =>
    have hlt : (BitVec.ofNat 32 (u32Div src hz)).toNat = u32Div src hz := by
      rw [BitVec.toNat_ofNat, Nat.mod_eq_of_lt (by omega)]
    refine ⟨?_, rfl, fun i hi h => ?_⟩
    · rw [field_setField (by omega) (by omega), hlt]
    · have h32 : i < 32 := BitVec.lt_of_getLsbD h
      rwa [getLsbD_setField (by omega) h32, if_neg (by omega)] at h

/-- The bits of the field that is written, and no others. -/
theorem selectPCLK_bits (s : Regs) (at' : ClkReg × ℕ) (hat : at'.2 + 3 ≤ 32) :
    (s.selectPCLK at').found at' = SEL_PCLK ∧
      ∀ reg i, ¬ (reg = at'.1 ∧ at'.2 ≤ i ∧ i < at'.2 + 3) →
        ((s.selectPCLK at').sel reg).getLsbD i = (s.sel reg).getLsbD i := by
  constructor
  · rw [Regs.found, Regs.selectPCLK]
    dsimp only
    rw [Function.update_self, field_setField (by decide) hat]
    rfl
  · intro reg i hout
    rw [Regs.selectPCLK]
    dsimp only
    by_cases hreg : reg = at'.1
    · subst hreg
      rw [Function.update_self]
      by_cases h32 : i < 32
      · rw [getLsbD_setField (by decide) h32, if_neg (fun h => hout ⟨rfl, h⟩)]
      · rw [BitVec.getLsbD_of_ge _ _ (by omega), BitVec.getLsbD_of_ge _ _ (by omega)]
    · rw [Function.update_of_ne hreg]

theorem selected_fits (n : Fin 4) : (selected n).2 + 3 ≤ 32 := by
  revert n
  decide

theorem opened_fits (n : Fin 4) : (opened n).2 + 3 ≤ 32 := by
  revert n
  decide

/-- A request at or above the core clock. -/
theorem program_high (at' : ClkReg × ℕ) (hat : at'.2 + 3 ≤ 32) (hhigh : clk.HCLK ≤ hz) :
    program clk n at' limit s hz = ({ s.selectPCLK at' with CLKDIV := 0 }, pclk clk n) := by
  rw [program, if_pos hhigh]
  dsimp only
  rw [(selectPCLK_bits s at' hat).1]
  rfl

/-- One below it. -/
theorem program_low (at' : ClkReg × ℕ) (hlow : ¬ clk.HCLK ≤ hz) :
    program clk n at' limit s hz =
      ({ s with CLKDIV := (writeDivider limit s.CLKDIV (clk.taken (pclk clk n) (s.found at')) hz).1 },
        (writeDivider limit s.CLKDIV (clk.taken (pclk clk n) (s.found at')) hz).2) := by
  rw [program, if_neg hlow]

theorem real_writeDivider (u : Inst) (r : BitVec 32) : real clk u { s with CLKDIV := r } = real clk u s := by
  cases u <;> rfl

/-- A call that leaves the selections and writes a divider. -/
theorem sound_writeDivider (u : Inst) (hlim : limit ≤ 511) (src : ℕ) :
    Sound clk u s ({ s with CLKDIV := (writeDivider limit s.CLKDIV src hz).1 },
        (writeDivider limit s.CLKDIV src hz).2) ↔
      (setDivider limit src hz).2 = real clk u s / ((setDivider limit src hz).1 + 1) := by
  obtain ⟨hdiv, hrate, hfits⟩ := writeDivider_spec hlim s.CLKDIV src hz
  constructor
  · rintro ⟨h, -, -⟩
    rw [real_writeDivider, Regs.DIVIDER] at h
    dsimp only at h
    rwa [hdiv, hrate] at h
  · intro h
    refine ⟨?_, hfits, fun _ _ _ => rfl⟩
    rw [real_writeDivider, Regs.DIVIDER]
    dsimp only
    rwa [hdiv, hrate]

theorem serves_writeDivider (u : Inst) (hlim : limit ≤ 511) (src : ℕ) :
    Sound clk u s ({ s with CLKDIV := (writeDivider limit s.CLKDIV src hz).1 },
        (writeDivider limit s.CLKDIV src hz).2) ∧
      Within clk u { s with CLKDIV := (writeDivider limit s.CLKDIV src hz).1 } hz ↔
    Serves (real clk u s) hz (setDivider limit src hz) := by
  have hreal := @real_writeDivider clk s u (writeDivider limit s.CLKDIV src hz).1
  rw [sound_writeDivider u hlim src, Within, hreal, Regs.DIVIDER]
  dsimp only
  rw [(writeDivider_spec hlim s.CLKDIV src hz).1]
  rfl

theorem real_selectPCLK (clk : Clocks) (n : Fin 4) (s : Regs) :
    real clk (.spi n) { s.selectPCLK (selected n) with CLKDIV := 0 } = pclk clk n := by
  show clk.actual (pclk clk n) ((s.selectPCLK (selected n)).found (selected n)) = _
  rw [(selectPCLK_bits s (selected n) (selected_fits n)).1]
  rfl

/-- The bus, selected in the unit's own field. -/
theorem sound_selectPCLK (clk : Clocks) (n : Fin 4) (s : Regs) :
    Sound clk (.spi n) s ({ s.selectPCLK (selected n) with CLKDIV := 0 }, pclk clk n) := by
  obtain ⟨-, hout⟩ := selectPCLK_bits s (selected n) (selected_fits n)
  refine ⟨?_, fun i _ h => by simp at h, hout⟩
  rw [real_selectPCLK]
  simp [Regs.DIVIDER, field]

/-- An undivided source within the request. -/
theorem within_undivided {u : Inst} (hle : real clk u s ≤ hz) : Within clk u s hz :=
  Or.inl (Nat.le_trans hle (Nat.le_mul_of_pos_right _ (Nat.succ_pos _)))

/-! ### When they do it -/

/-- The third and the fourth unit are opened through another register than their own. -/
theorem opened_elsewhere {n : Fin 4} (hn : ¬ n.val < 2) :
    (opened n).1 = .CLKSEL2 ∧ (selected n).1 = .CLKSEL3 := by
  revert n
  decide

theorem lt_two_of_ne {n : Fin 4} (h2 : Inst.spi n ≠ .spi 2) (h3 : Inst.spi n ≠ .spi 3) :
    n.val < 2 := by
  revert n
  decide

theorem opened_own {n : Fin 4} (hn : n.val < 2) : opened n = selected n := by
  revert n
  decide

/-- Writing the bus there changes nothing only where it is selected already. -/
theorem contained_elsewhere (hn : ¬ n.val < 2) :
    (∀ reg i, ¬ (reg = (selected n).1 ∧ (selected n).2 ≤ i ∧ i < (selected n).2 + 3) →
      ((s.selectPCLK (opened n)).sel reg).getLsbD i = (s.sel reg).getLsbD i) ↔
    s.found (opened n) = SEL_PCLK := by
  obtain ⟨hopened, hselected⟩ := opened_elsewhere hn
  obtain ⟨hsel, hout⟩ := selectPCLK_bits s (opened n) (opened_fits n)
  constructor
  · intro h
    have hsame : (s.selectPCLK (opened n)).sel (opened n).1 = s.sel (opened n).1 := by
      refine BitVec.eq_of_getLsbD_eq fun i _ => h _ i fun hin => ?_
      rw [hopened, hselected] at hin
      exact absurd hin.1 (by decide)
    rw [← hsel, Regs.found, Regs.found, hsame]
  · intro h reg i _
    by_cases hin : reg = (opened n).1 ∧ (opened n).2 ≤ i ∧ i < (opened n).2 + 3
    · -- a bit of the field: both hold the same selection
      obtain ⟨rfl, hlow, hhigh⟩ := hin
      have hbits : ∀ r : BitVec 32, field r (opened n).2 3 = SEL_PCLK →
          r.getLsbD i = SEL_PCLK.testBit (i - (opened n).2) := by
        intro r hr
        rw [← hr, testBit_field, Nat.add_sub_cancel' hlow]
        simp [show i - (opened n).2 < 3 by omega]
      rw [hbits _ hsel, hbits _ h]
    · exact hout reg i hin

/-- The 48 MHz oscillator is taken for the one of 12 MHz, which never gives its rate. -/
theorem not_serves_HIRC48 : ¬ Serves __HIRC48 hz (setDivider 0x1FF __HIRC hz) := by
  rintro ⟨h, -⟩
  rw [setDivider] at h
  split at h
  · exact absurd h (by decide)
  split at h
  · exact absurd h (by decide)
  dsimp only at h
  split at h
  · exact absurd h (by decide)
  · next hle =>
    dsimp only at h
    rw [__HIRC] at hle
    rw [__HIRC, __HIRC48] at h
    have hpos : 0 < 12000000 / (u32Div 12000000 hz + 1) := Nat.div_pos (by omega) (Nat.succ_pos _)
    have hfour : 4 * (12000000 / (u32Div 12000000 hz + 1)) ≤
        48000000 / (u32Div 12000000 hz + 1) := by
      have hmul := Nat.mul_div_le_mul_div_assoc 4 12000000 (u32Div 12000000 hz + 1)
      exact hmul
    omega

/-- The conditions, for a unit with its registers and a request. -/
def Meets (clk : Clocks) (u : Inst) (s : Regs) (hz : ℕ) : Prop :=
  match u with
  | .spi n =>
    if clk.HCLK ≤ hz then
      n.val < 2 ∨ s.found (opened n) = SEL_PCLK ∧ real clk (.spi n) s = pclk clk n
    else
      s.found (selected n) ≠ 4 ∧
        (clk.taken (pclk clk n) (s.found (opened n)) =
            clk.taken (pclk clk n) (s.found (selected n)) ∧
          Reaches (clk.taken (pclk clk n) (s.found (selected n))) hz ∨
        clk.taken (pclk clk n) (s.found (opened n)) ≠
            clk.taken (pclk clk n) (s.found (selected n)) ∧
          Coincide (clk.taken (pclk clk n) (s.found (opened n)))
            (clk.taken (pclk clk n) (s.found (selected n))) hz)
  | .lpspi0 =>
    lpspiTaken (s.sel .LPSCC_CLKSEL0) = clk.lpspiActual (s.sel .LPSCC_CLKSEL0) ∧
      Reaches (lpspiTaken (s.sel .LPSCC_CLKSEL0)) hz

/-- The two sources of `serve_iff`, told apart. -/
theorem meets_iff (src₁ src₂ hz : ℕ) :
    src₁ ≤ hz ∧ src₁ = src₂ ∨ Coincide src₁ src₂ hz ↔
      src₁ = src₂ ∧ Reaches src₂ hz ∨ src₁ ≠ src₂ ∧ Coincide src₁ src₂ hz := by
  by_cases h : src₁ = src₂
  · subst h
    rw [← coincide_self]
    tauto
  · tauto

/-- A request at or above the core clock, for an SPI unit. -/
theorem truthful_high (hhigh : clk.HCLK ≤ hz) :
    Truthful clk (.spi n) s hz ↔
      n.val < 2 ∨ s.found (opened n) = SEL_PCLK ∧ real clk (.spi n) s = pclk clk n := by
  have hset : SetBusClock clk (.spi n) s hz =
      ({ s.selectPCLK (selected n) with CLKDIV := 0 }, pclk clk n) :=
    program_high (selected n) (selected_fits n) hhigh
  have hopen : Open clk (.spi n) true s hz =
      ({ s.selectPCLK (opened n) with CLKDIV := 0 }, pclk clk n) :=
    program_high (opened n) (opened_fits n) hhigh
  have hsound := sound_selectPCLK clk n s
  have hbus : pclk clk n ≤ hz := Nat.le_trans (clk.pclk_le _) hhigh
  have hwithin : Within clk (.spi n) { s.selectPCLK (selected n) with CLKDIV := 0 } hz :=
    within_undivided (by rw [real_selectPCLK]; exact hbus)
  by_cases hn : n.val < 2
  · refine iff_of_true ⟨?_, hsound, ?_, ?_, ?_, ?_⟩ (Or.inl hn)
    · rw [hopen, opened_own hn]
      exact hsound
    · rw [hset]
      exact hsound
    · rw [hopen, hset]
      rfl
    · rw [hopen, opened_own hn]
      exact hwithin
    · rw [hset]
      exact hwithin
  rw [or_iff_right hn]
  -- the unit's own field is left as it was
  have hreal' : real clk (.spi n) { s.selectPCLK (opened n) with CLKDIV := 0 } =
      real clk (.spi n) s := by
    obtain ⟨hopened, hselected⟩ := opened_elsewhere hn
    show clk.actual (pclk clk n) ((s.selectPCLK (opened n)).found (selected n)) = _
    rw [real, Regs.found, Regs.selectPCLK]
    dsimp only
    rw [Function.update_of_ne (by rw [hopened, hselected]; decide)]
    rfl
  constructor
  · intro h
    have hmaster := h.master
    rw [hopen] at hmaster
    refine ⟨(contained_elsewhere hn).1 hmaster.contained, ?_⟩
    have hrate := hmaster.rate
    rw [hreal'] at hrate
    simpa [Regs.DIVIDER, field] using hrate.symm
  · rintro ⟨hbits, heq⟩
    refine ⟨?_, hsound, ?_, ?_, ?_, ?_⟩
    · rw [hopen]
      refine ⟨?_, fun i _ h => by simp at h, (contained_elsewhere hn).2 hbits⟩
      rw [hreal', heq]
      simp [Regs.DIVIDER, field]
    · rw [hset]
      exact hsound
    · rw [hopen, hset]
      rfl
    · rw [hopen]
      exact within_undivided (by rw [hreal', heq]; exact hbus)
    · rw [hset]
      exact hwithin

/-- A call of a unit whose selection stays, from the divider that was computed. -/
theorem truthful_dividers {u : Inst} {src₁ src₂ : ℕ}
    (hopen : Open clk u true s hz = ({ s with CLKDIV := (writeDivider 0xFF s.CLKDIV src₁ hz).1 },
      (writeDivider 0xFF s.CLKDIV src₁ hz).2))
    (hset : SetBusClock clk u s hz = ({ s with CLKDIV := (writeDivider 0x1FF s.CLKDIV src₂ hz).1 },
      (writeDivider 0x1FF s.CLKDIV src₂ hz).2)) :
    Truthful clk u s hz ↔ Sound clk u s (Open clk u false s hz) ∧
      (setDivider 0xFF src₁ hz).1 = (setDivider 0x1FF src₂ hz).1 ∧
      Serves (real clk u s) hz (setDivider 0xFF src₁ hz) ∧
      Serves (real clk u s) hz (setDivider 0x1FF src₂ hz) := by
  have hopened := @serves_writeDivider hz clk s 0xFF u (by omega) src₁
  have hsetted := @serves_writeDivider hz clk s 0x1FF u (by omega) src₂
  have hdiv₁ := (writeDivider_spec (show 0xFF ≤ 511 by decide) s.CLKDIV src₁ hz).1
  have hdiv₂ := (writeDivider_spec (show 0x1FF ≤ 511 by decide) s.CLKDIV src₂ hz).1
  rw [← hopened, ← hsetted, ← hdiv₁, ← hdiv₂]
  constructor
  · rintro ⟨hmaster, hslave, hset', hagree, hw₁, hw₂⟩
    rw [hopen] at hmaster hw₁ hagree
    rw [hset] at hset' hw₂ hagree
    exact ⟨hslave, hagree, ⟨hmaster, hw₁⟩, hset', hw₂⟩
  · rintro ⟨hslave, hagree, ⟨hmaster, hw₁⟩, hset', hw₂⟩
    exact ⟨by rw [hopen]; exact hmaster, hslave, by rw [hset]; exact hset',
      by rw [hopen, hset]; exact hagree, by rw [hopen]; exact hw₁, by rw [hset]; exact hw₂⟩

/-- A request below the core clock, for an SPI unit. -/
theorem truthful_low (hlow : ¬ clk.HCLK ≤ hz) :
    Truthful clk (.spi n) s hz ↔ s.found (selected n) ≠ 4 ∧
      (clk.taken (pclk clk n) (s.found (opened n)) ≤ hz ∧
          clk.taken (pclk clk n) (s.found (opened n)) =
            clk.taken (pclk clk n) (s.found (selected n)) ∨
        Coincide (clk.taken (pclk clk n) (s.found (opened n)))
          (clk.taken (pclk clk n) (s.found (selected n))) hz) := by
  have hopen : Open clk (.spi n) true s hz = _ := @program_low hz clk n s 0xFF (opened n) hlow
  have hset : SetBusClock clk (.spi n) s hz = _ := @program_low hz clk n s 0x1FF (selected n) hlow
  have hslave : Sound clk (.spi n) s (Open clk (.spi n) false s hz) := sound_selectPCLK clk n s
  rw [truthful_dividers hopen hset, and_iff_right hslave, ← serve_iff]
  by_cases h48 : s.found (selected n) = 4
  · refine iff_of_false ?_ (fun h => h.1 h48)
    rintro ⟨-, -, hserves⟩
    have hreal : real clk (.spi n) s = __HIRC48 := by
      rw [real, Clocks.actual, if_pos h48]
    rw [hreal, h48] at hserves
    exact not_serves_HIRC48 hserves
  · rw [and_iff_right h48]
    have hreal : real clk (.spi n) s = clk.taken (pclk clk n) (s.found (selected n)) := by
      rw [real, Clocks.actual, if_neg h48]
    rw [hreal]

/-- The low-power unit as a slave. -/
theorem lpspi_slave :
    Sound clk .lpspi0 s (Open clk .lpspi0 false s hz) ↔
      lpspiTaken (s.sel .LPSCC_CLKSEL0) = clk.lpspiActual (s.sel .LPSCC_CLKSEL0) := by
  constructor
  · intro h
    have hrate := h.rate
    simpa [Open, LPSPI_Open, real, Regs.DIVIDER, field] using hrate
  · intro h
    refine ⟨?_, fun i _ h => by simp [Open, LPSPI_Open] at h, fun _ _ _ => rfl⟩
    simpa [Open, LPSPI_Open, real, Regs.DIVIDER, field] using h

/-- The low-power unit. -/
theorem truthful_lpspi :
    Truthful clk .lpspi0 s hz ↔
      lpspiTaken (s.sel .LPSCC_CLKSEL0) = clk.lpspiActual (s.sel .LPSCC_CLKSEL0) ∧
        Reaches (lpspiTaken (s.sel .LPSCC_CLKSEL0)) hz := by
  rw [truthful_dividers rfl rfl]
  rw [lpspi_slave]
  refine and_congr_right fun h => ?_
  have hreal : real clk .lpspi0 s = lpspiTaken (s.sel .LPSCC_CLKSEL0) := h.symm
  rw [hreal, serve_iff, ← coincide_self]
  tauto

/-- **When the rates are what is reported.** -/
theorem rates_iff (clk : Clocks) (u : Inst) (s : Regs) (hz : ℕ) :
    Truthful clk u s hz ↔ Meets clk u s hz := by
  cases u with
  | spi n =>
    rw [Meets]
    split
    · next hhigh => exact truthful_high hhigh
    · next hlow => rw [truthful_low hlow, meets_iff]
  | lpspi0 => exact truthful_lpspi

-- `SPI3` opened for a rate above the core clock: the bus is selected for `SPI1`
example :
    ((Open ⟨72000000, 0, 0, 72000000, 4000000⟩ (.spi 3) true ⟨fun _ => 3#32 <<< 12, 0⟩
      80000000).1.found (selected 1)) = SEL_PCLK := by
  decide

/-! ### The nearest divider -/

/-- `k` is the integer nearest to `src / hz`, and one for what need not be divided. -/
def Nearest (src hz k : ℕ) : Prop := if src ≤ hz then k = 1 else IsNearest src hz k

/-- A request that no word overflows for, and whose divider both functions take. -/
def Divisible (src hz : ℕ) : Prop := src ≤ hz ∨ src * 10 < 2 ^ 32 ∧ src * 2 < hz * 513

theorem setDivider_nearest (hlim : 0xFF ≤ limit) (h : Divisible src hz) :
    Nearest src hz ((setDivider limit src hz).1 + 1) ∧
      (setDivider limit src hz).2 = src / ((setDivider limit src hz).1 + 1) ∧
      (setDivider limit src hz).1 = (setDivider 0xFF src hz).1 := by
  by_cases hle : src ≤ hz
  · rw [setDivider_of_le _ hle, setDivider_of_le _ hle, Nearest, if_pos hle]
    exact ⟨rfl, (Nat.div_one src).symm, rfl⟩
  · obtain ⟨hsmall, hrange⟩ := h.resolve_left hle
    have hpos : 0 < hz := by omega
    have hn : 0 < nearest src hz := nearest_pos hpos (by omega)
    have h256 : nearest src hz ≤ 256 := (nearest_le_iff hpos).2 (by omega)
    rw [setDivider_of_nearest (by omega) hpos hsmall (by omega),
      setDivider_of_nearest (by omega) hpos hsmall (by omega), Nearest, if_neg hle]
    dsimp only
    rw [Nat.sub_add_cancel (show 1 ≤ nearest src hz from hn)]
    exact ⟨isNearest_nearest src hpos, rfl, rfl⟩

/-- A unit whose source the library knows, in a request that its dividers reach. -/
def Regular (clk : Clocks) (u : Inst) (s : Regs) (hz : ℕ) : Prop :=
  match u with
  | .spi n =>
    clk.HCLK ≤ hz ∨ s.found (selected n) ≠ 4 ∧
      Divisible (clk.taken (pclk clk n) (s.found (selected n))) hz
  | .lpspi0 =>
    lpspiTaken (s.sel .LPSCC_CLKSEL0) = clk.lpspiActual (s.sel .LPSCC_CLKSEL0) ∧
      Divisible (lpspiTaken (s.sel .LPSCC_CLKSEL0)) hz

/-- What the functions do.  As a master `SPI2` and `SPI3` are opened through the register of other
units, and of that nothing is said. -/
structure Programs (clk : Clocks) (u : Inst) (s : Regs) (hz : ℕ) : Prop where
  slave : Sound clk u s (Open clk u false s hz)
  set : Sound clk u s (SetBusClock clk u s hz)
  nearest : Nearest (real clk u (SetBusClock clk u s hz).1) hz ((SetBusClock clk u s hz).1.DIVIDER + 1)
  master : u ≠ .spi 2 → u ≠ .spi 3 → Sound clk u s (Open clk u true s hz) ∧
    real clk u (Open clk u true s hz).1 = real clk u (SetBusClock clk u s hz).1 ∧
    (Open clk u true s hz).1.DIVIDER = (SetBusClock clk u s hz).1.DIVIDER

/-- A call of a unit whose selection stays. -/
theorem sets_nearest {u : Inst} {src : ℕ} (hsrc : src = real clk u s) (h : Divisible src hz)
    (hset : SetBusClock clk u s hz = ({ s with CLKDIV := (writeDivider 0x1FF s.CLKDIV src hz).1 },
      (writeDivider 0x1FF s.CLKDIV src hz).2)) :
    Sound clk u s (SetBusClock clk u s hz) ∧
      Nearest (real clk u (SetBusClock clk u s hz).1) hz
        ((SetBusClock clk u s hz).1.DIVIDER + 1) := by
  obtain ⟨hnear, hrate, -⟩ := setDivider_nearest (show 0xFF ≤ 0x1FF by omega) h
  have hreal := @real_writeDivider clk s u (writeDivider 0x1FF s.CLKDIV src hz).1
  rw [hset]
  refine ⟨(sound_writeDivider u (by omega) src).2 (by rw [← hsrc]; exact hrate), ?_⟩
  rw [hreal, Regs.DIVIDER]
  dsimp only
  rw [(writeDivider_spec (by omega) s.CLKDIV src hz).1, ← hsrc]
  exact hnear

/-- Opening it is the same. -/
theorem opens_nearest {u : Inst} {src : ℕ} (hsrc : src = real clk u s) (h : Divisible src hz)
    (hopen : Open clk u true s hz = ({ s with CLKDIV := (writeDivider 0xFF s.CLKDIV src hz).1 },
      (writeDivider 0xFF s.CLKDIV src hz).2))
    (hset : SetBusClock clk u s hz = ({ s with CLKDIV := (writeDivider 0x1FF s.CLKDIV src hz).1 },
      (writeDivider 0x1FF s.CLKDIV src hz).2)) :
    Sound clk u s (Open clk u true s hz) ∧
      real clk u (Open clk u true s hz).1 = real clk u (SetBusClock clk u s hz).1 ∧
      (Open clk u true s hz).1.DIVIDER = (SetBusClock clk u s hz).1.DIVIDER := by
  obtain ⟨-, hrate, -⟩ := setDivider_nearest (le_refl 0xFF) h
  obtain ⟨-, -, hagree⟩ := setDivider_nearest (show 0xFF ≤ 0x1FF by omega) h
  have hreal₁ := @real_writeDivider clk s u (writeDivider 0xFF s.CLKDIV src hz).1
  have hreal₂ := @real_writeDivider clk s u (writeDivider 0x1FF s.CLKDIV src hz).1
  rw [hopen, hset]
  refine ⟨(sound_writeDivider u (by omega) src).2 (by rw [← hsrc]; exact hrate), ?_, ?_⟩
  · rw [hreal₁, hreal₂]
  · rw [Regs.DIVIDER, Regs.DIVIDER]
    dsimp only
    rw [(writeDivider_spec (by omega) s.CLKDIV src hz).1,
      (writeDivider_spec (by omega) s.CLKDIV src hz).1, hagree]

/-- An SPI unit with the bus clock selected. -/
theorem programs_high (hhigh : clk.HCLK ≤ hz) : Programs clk (.spi n) s hz := by
  have hset : SetBusClock clk (.spi n) s hz =
      ({ s.selectPCLK (selected n) with CLKDIV := 0 }, pclk clk n) :=
    program_high (selected n) (selected_fits n) hhigh
  have hsound := sound_selectPCLK clk n s
  have hbus : pclk clk n ≤ hz := Nat.le_trans (clk.pclk_le _) hhigh
  refine ⟨hsound, ?_, ?_, ?_⟩
  · rw [hset]
    exact hsound
  · rw [hset, real_selectPCLK, Nearest, if_pos hbus]
    simp [Regs.DIVIDER, field]
  · intro h2 h3
    have hn : n.val < 2 := lt_two_of_ne h2 h3
    have hopen : Open clk (.spi n) true s hz =
        ({ s.selectPCLK (selected n) with CLKDIV := 0 }, pclk clk n) := by
      rw [← opened_own hn]
      exact program_high (opened n) (opened_fits n) hhigh
    rw [hopen, hset]
    exact ⟨hsound, rfl, rfl⟩

/-- **What is programmed is the nearest divider**: the rate that is returned is the one that the
unit has, and it is above the request where the quotient is rounded down. -/
theorem rates_programmed (clk : Clocks) (u : Inst) (s : Regs) (hz : ℕ) (h : Regular clk u s hz) :
    Programs clk u s hz := by
  cases u with
  | spi n =>
    by_cases hhigh : clk.HCLK ≤ hz
    · exact programs_high hhigh
    obtain ⟨hknown, hdiv⟩ := h.resolve_left hhigh
    have hset : SetBusClock clk (.spi n) s hz = _ := @program_low hz clk n s 0x1FF (selected n) hhigh
    have hsrc : clk.taken (pclk clk n) (s.found (selected n)) = real clk (.spi n) s := by
      rw [real, Clocks.actual, if_neg hknown]
    obtain ⟨hsound, hnear⟩ := sets_nearest hsrc hdiv hset
    refine ⟨sound_selectPCLK clk n s, hsound, hnear, fun h2 h3 => ?_⟩
    have hn : n.val < 2 := lt_two_of_ne h2 h3
    have hopen : Open clk (.spi n) true s hz = _ := @program_low hz clk n s 0xFF (opened n) hhigh
    rw [opened_own hn] at hopen
    exact opens_nearest hsrc hdiv hopen hset
  | lpspi0 =>
    obtain ⟨hsrc, hdiv⟩ := h
    obtain ⟨hsound, hnear⟩ := sets_nearest (u := .lpspi0) hsrc hdiv rfl
    exact ⟨lpspi_slave.2 hsrc, hsound, hnear, fun _ _ => opens_nearest hsrc hdiv rfl rfl⟩

/-- 7 MHz from 12 MHz, as the header of the library has it. -/
theorem rates_programmed_7MHz :
    Programs ⟨72000000, 0, 0, 72000000, 4000000⟩ (.spi 0) ⟨fun _ => 0, 0⟩ 7000000 :=
  rates_programmed _ _ _ _ (Or.inr ⟨by decide, Or.inr (by decide)⟩)

/-- 5 MHz from 12 MHz: the quotient is rounded down, and the rate is 6 MHz. -/
theorem exceeds_5MHz :
    let clk : Clocks := ⟨72000000, 0, 0, 72000000, 4000000⟩
    (SetBusClock clk (.spi 0) ⟨fun _ => 0, 0⟩ 5000000).2 = 6000000 ∧
      ¬ Truthful clk (.spi 0) ⟨fun _ => 0, 0⟩ 5000000 := by
  refine ⟨by decide, fun h => ?_⟩
  have hwithin := h.within_set
  rw [Within] at hwithin
  exact absurd hwithin (by decide)

end Spi.Rates
