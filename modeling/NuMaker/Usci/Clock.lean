/-
The bus clocks of the SPI and the I2C of a USCI.

Four functions work out the same divider, write it over a field of `BRGEN` and return the rate that
the divider gives; two more read the field back.

* **`programmed_iff`** — when the divider fits its field and is the nearest one;
* **`clock_programmed`** — each of the four functions, for every rate that there is a divider for.
-/
import NuMaker.Lib.BitField
import NuMaker.Lib.Divider

namespace Usci

/-! ### The functions -/

/-- The registers of a unit. -/
structure Regs where
  CTL : BitVec 32
  LINECTL : BitVec 32
  CTLIN0 : BitVec 32
  PROTCTL : BitVec 32
  BRGEN : BitVec 32

def LINECTL_DWIDTH_Msk : BitVec 32 := 0xf#32 <<< 8
def LINECTL_LSB_Msk : BitVec 32 := 1#32 <<< 0
def LINECTL_CTLOINV_Msk : BitVec 32 := 1#32 <<< 7
def CTLIN0_ININV_Msk : BitVec 32 := 1#32 <<< 2
def PROTCTL_SCLKMODE_Msk : BitVec 32 := 3#32 <<< 6
def PROTCTL_AUTOSS_Msk : BitVec 32 := 1#32 <<< 3
def PROTCTL_SLAVE_Msk : BitVec 32 := 1#32 <<< 0
def PROTCTL_PROTEN_Msk : BitVec 32 := 1#32 <<< 31
def USPI_MASTER : BitVec 32 := 0

/-- `u32ClkDiv`. -/
def u32ClkDiv (u32Pclk u32BusClock : BitVec 32) : Option (BitVec 32) := do
  return ((← udiv (u32Pclk / 2 * 10) u32BusClock) + 5) / 10 - 1

/-- The rate of a divider. -/
def busClk (u32Pclk u32ClkDiv : BitVec 32) : Option (BitVec 32) := udiv u32Pclk ((u32ClkDiv + 1) <<< 1)

/-- `BRGEN` with the field cleared and the divider or-ed in. -/
def Regs.setClkDiv (r : Regs) (u32ClkDiv : BitVec 32) : Regs :=
  { r with BRGEN := setField r.BRGEN 16 10 u32ClkDiv }

def USPI_Open (u32Pclk : BitVec 32) (r : Regs)
    (u32MasterSlave u32SPIMode u32DataWidth u32BusClock : BitVec 32) : Option (Regs × BitVec 32) := do
  let u32ClkDiv ← if u32BusClock ≠ 0 then u32ClkDiv u32Pclk u32BusClock else pure 0
  let u32DataWidth := if u32DataWidth = 16 then 0 else u32DataWidth
  let LINECTL := (r.LINECTL &&& ~~~LINECTL_DWIDTH_Msk ||| u32DataWidth <<< 8) &&& ~~~LINECTL_LSB_Msk
  let PROTCTL :=
    r.PROTCTL &&& ~~~(PROTCTL_SCLKMODE_Msk ||| PROTCTL_AUTOSS_Msk ||| PROTCTL_SLAVE_Msk) |||
      (u32MasterSlave ||| u32SPIMode)
  let r : Regs :=
    { r.setClkDiv u32ClkDiv with
      CTL := 1#32 <<< 0
      LINECTL := if u32MasterSlave = USPI_MASTER then LINECTL ||| LINECTL_CTLOINV_Msk else LINECTL
      CTLIN0 := if u32MasterSlave = USPI_MASTER then r.CTLIN0 else r.CTLIN0 ||| CTLIN0_ININV_Msk
      PROTCTL := PROTCTL ||| PROTCTL_PROTEN_Msk }
  return (r, ← if u32BusClock ≠ 0 then busClk u32Pclk u32ClkDiv else pure 0)

def USPI_SetBusClock (u32Pclk : BitVec 32) (r : Regs) (u32BusClock : BitVec 32) :
    Option (Regs × BitVec 32) := do
  let u32ClkDiv ← u32ClkDiv u32Pclk u32BusClock
  return (r.setClkDiv u32ClkDiv, ← busClk u32Pclk u32ClkDiv)

def UI2C_Open (u32Pclk : BitVec 32) (r : Regs) (u32BusClock : BitVec 32) :
    Option (Regs × BitVec 32) := do
  let u32ClkDiv ← u32ClkDiv u32Pclk u32BusClock
  let r : Regs :=
    { r.setClkDiv u32ClkDiv with
      CTL := 4#32 <<< 0
      LINECTL := (r.LINECTL &&& ~~~LINECTL_DWIDTH_Msk ||| 8#32 <<< 8) &&& ~~~LINECTL_LSB_Msk
      PROTCTL := r.PROTCTL ||| PROTCTL_PROTEN_Msk }
  return (r, ← busClk u32Pclk u32ClkDiv)

def UI2C_SetBusClockFreq (u32Pclk : BitVec 32) (r : Regs) (u32BusClock : BitVec 32) :
    Option (Regs × BitVec 32) := do
  let u32ClkDiv ← u32ClkDiv u32Pclk u32BusClock
  return (r.setClkDiv u32ClkDiv, ← busClk u32Pclk u32ClkDiv)

/-- `USPI_GetBusClock` and `UI2C_GetBusClockFreq`. -/
def GetBusClock (u32Pclk : BitVec 32) (r : Regs) : Option (BitVec 32) :=
  busClk u32Pclk (BitVec.ofNat 32 (field r.BRGEN 16 10))

/-- A call that programs a bus clock. -/
inductive Call
  | uspiOpen (u32MasterSlave u32SPIMode u32DataWidth : BitVec 32)
  | uspiSetBusClock
  | ui2cOpen
  | ui2cSetBusClockFreq

def Call.run (u32Pclk : BitVec 32) (r : Regs) (u32BusClock : BitVec 32) :
    Call → Option (Regs × BitVec 32)
  | uspiOpen m p w => USPI_Open u32Pclk r m p w u32BusClock
  | uspiSetBusClock => USPI_SetBusClock u32Pclk r u32BusClock
  | ui2cOpen => UI2C_Open u32Pclk r u32BusClock
  | ui2cSetBusClockFreq => UI2C_SetBusClockFreq u32Pclk r u32BusClock

/-! ### The divider -/

variable {p hz : BitVec 32}

/-- What every call makes of the divider. -/
theorem run_eq (r : Regs) (hne : hz ≠ 0) (x : Call) :
    (x.run p r hz).map (fun y => (y.1.BRGEN, y.2)) =
      (u32ClkDiv p hz).bind fun d => (busClk p d).map fun v => (setField r.BRGEN 16 10 d, v) := by
  have hne' : ¬ hz = 0#32 := hne
  cases hd : u32ClkDiv p hz with
  | none =>
    cases x <;>
      simp [Call.run, USPI_Open, USPI_SetBusClock, UI2C_Open, UI2C_SetBusClockFreq, hne', hd]
  | some d =>
    cases hv : busClk p d <;> cases x <;>
      simp [Call.run, USPI_Open, USPI_SetBusClock, UI2C_Open, UI2C_SetBusClockFreq, hne', hd, hv,
        Regs.setClkDiv]

/-- The nearest divider, less one; zero wraps around. -/
theorem u32ClkDiv_eq (hne : hz ≠ 0) (hsmall : p.toNat / 2 * 10 < 2 ^ 32) :
    ∃ d, u32ClkDiv p hz = some d ∧ d + 1 = BitVec.ofNat 32 (nearest (p.toNat / 2) hz.toNat) := by
  have hq : p.toNat / 2 * 10 / hz.toNat ≤ p.toNat / 2 * 10 := Nat.div_le_self _ _
  have hprod : (p / 2 * 10).toNat = p.toNat / 2 * 10 := by
    rw [BitVec.toNat_mul, BitVec.toNat_udiv, show (2 : BitVec 32).toNat = 2 from rfl,
      show (10 : BitVec 32).toNat = 10 from rfl, Nat.mod_eq_of_lt hsmall]
  refine ⟨_, by rw [u32ClkDiv, udiv, if_neg hne, Option.bind_eq_bind, Option.bind_some]; rfl, ?_⟩
  rw [BitVec.sub_add_cancel]
  refine BitVec.eq_of_toNat_eq ?_
  rw [BitVec.toNat_udiv, BitVec.toNat_add, BitVec.toNat_udiv, hprod,
    show (5 : BitVec 32).toNat = 5 from rfl, show (10 : BitVec 32).toNat = 10 from rfl,
    Nat.mod_eq_of_lt (show p.toNat / 2 * 10 / hz.toNat + 5 < 2 ^ 32 by omega), BitVec.toNat_ofNat,
    nearest]
  exact (Nat.mod_eq_of_lt (by omega)).symm

/-- The divider in its field and the rate that is returned, for the bus clock of a unit: every other
bit of `BRGEN` is left, the divider is the nearest one, and the rate is the one read back. -/
structure Programmed (p hz : BitVec 32) (r r' : Regs) (ret : BitVec 32) : Prop where
  rest : ∀ i, i < 16 ∨ 26 ≤ i → r'.BRGEN.getLsbD i = r.BRGEN.getLsbD i
  nearest : IsNearest (p.toNat / 2) hz.toNat (field r'.BRGEN 16 10 + 1)
  rate : GetBusClock p r' = some ret

/-- A request below a divider of one and above one of 1024. -/
theorem nearest_range (hpos : 0 < hz.toNat) :
    (1 ≤ nearest (p.toNat / 2) hz.toNat ∧ nearest (p.toNat / 2) hz.toNat ≤ 1024) ↔
      hz.toNat ≤ 2 * (p.toNat / 2) ∧ 2 * (p.toNat / 2) < 2049 * hz.toNat := by
  have h0 := @nearest_le_iff (p.toNat / 2) hz.toNat 0 hpos
  have h1024 := @nearest_le_iff (p.toNat / 2) hz.toNat 1024 hpos
  omega

/-- The divider that is written, from the nearest one: one less, in its width. -/
theorem toNat_of_succ {d : BitVec 32} {n : ℕ} (h : d + 1 = BitVec.ofNat 32 n) (hn : 1 ≤ n)
    (hn' : n < 2 ^ 32) : d.toNat = n - 1 := by
  have htoNat := congrArg BitVec.toNat h
  rw [BitVec.toNat_add, BitVec.toNat_ofNat, show (1 : BitVec 32).toNat = 1 from rfl,
    Nat.mod_eq_of_lt hn'] at htoNat
  have := d.isLt
  omega

/-- **When the divider fits.** -/
theorem programmed_iff (r : Regs) (hne : hz ≠ 0) (hsmall : p.toNat / 2 * 10 < 2 ^ 32) (x : Call) :
    (∃ r' ret, x.run p r hz = some (r', ret) ∧ Programmed p hz r r' ret) ↔
      hz.toNat ≤ 2 * (p.toNat / 2) ∧ 2 * (p.toNat / 2) < 2049 * hz.toNat := by
  have hpos := BitVec.toNat_pos_of_ne_zero hne
  obtain ⟨d, hd, hsucc⟩ := @u32ClkDiv_eq p hz hne hsmall
  have hrun := @run_eq p hz r hne x
  have hle := nearest_le (p.toNat / 2) hpos
  have hnear := isNearest_nearest (p.toNat / 2) hpos
  rw [hd, Option.bind_some] at hrun
  rw [← nearest_range hpos]
  generalize nearest (p.toNat / 2) hz.toNat = n at hsucc hle hnear
  constructor
  · rintro ⟨r', ret, h, -, hn, hrate⟩
    rw [h, Option.map_some] at hrun
    -- the divider is not zero, or the rate could not be computed
    have hn1 : 1 ≤ n := by
      by_contra h0
      obtain rfl : n = 0 := by omega
      rw [busClk, hsucc] at hrun
      simp [udiv] at hrun
    obtain ⟨v, -, hv⟩ := Option.map_eq_some_iff.1 hrun.symm
    have hb : r'.BRGEN = setField r.BRGEN 16 10 d := (Prod.mk.inj hv).1.symm
    have hdn := toNat_of_succ hsucc hn1 (by omega)
    -- what is read back is cut to ten bits, and is the nearest divider all the same
    refine ⟨hn1, ?_⟩
    rw [hb, field_setField_mod (by omega), hdn] at hn
    have := hn.unique hnear
    omega
  · rintro ⟨hn1, hn2⟩
    have hdn := toNat_of_succ hsucc hn1 (by omega)
    have hfit : d.toNat < 2 ^ 10 := by omega
    -- a divider from 1 to 1024 is not shifted out
    have hv : busClk p d = some (p / ((d + 1) <<< 1)) := by
      rw [busClk, udiv, if_neg]
      intro h0
      have := congrArg BitVec.toNat h0
      rw [hsucc, BitVec.toNat_shiftLeft, BitVec.toNat_ofNat, Nat.shiftLeft_eq,
        show (0 : BitVec 32).toNat = 0 from rfl] at this
      omega
    rw [hv, Option.map_some] at hrun
    obtain ⟨⟨r', ret⟩, h, hx⟩ := Option.map_eq_some_iff.1 hrun
    obtain ⟨hb, hret⟩ := Prod.mk.inj hx
    dsimp only at hb hret
    refine ⟨r', ret, h, ?_, ?_, ?_⟩
    · intro i hi
      rw [hb]
      by_cases hw : i < 32
      · rw [getLsbD_setField hfit hw, if_neg (by omega)]
      · rw [BitVec.getLsbD_of_ge _ _ (by omega), BitVec.getLsbD_of_ge _ _ (by omega)]
    · rw [hb, field_setField hfit (by omega), hdn, Nat.sub_add_cancel hn1]
      exact hnear
    · rw [GetBusClock, hb, field_setField hfit (by omega), BitVec.ofNat_toNat, BitVec.setWidth_eq, hv,
        hret]

/-- **The four functions**, for every rate with a divider that fits. -/
theorem clock_programmed (p hz : BitVec 32) (r : Regs) (x : Call) (hne : hz ≠ 0)
    (hsmall : p.toNat / 2 * 10 < 2 ^ 32) (hfast : hz.toNat ≤ 2 * (p.toNat / 2))
    (hslow : 2 * (p.toNat / 2) < 2049 * hz.toNat) :
    ∃ r' ret, x.run p r hz = some (r', ret) ∧ Programmed p hz r r' ret :=
  (programmed_iff r hne hsmall x).2 ⟨hfast, hslow⟩

/-- 1 MHz from 72 MHz. -/
theorem clock_programmed_1MHz :
    ∃ r' ret, Call.run 72000000 ⟨0, 0, 0, 0, 0⟩ 1000000 .ui2cOpen = some (r', ret) ∧
      Programmed 72000000 1000000 ⟨0, 0, 0, 0, 0⟩ r' ret :=
  clock_programmed 72000000 1000000 ⟨0, 0, 0, 0, 0⟩ .ui2cOpen (by decide) (by decide) (by decide)
    (by decide)

-- a divider of zero, and one of 1201, which reaches over its field
example : UI2C_Open 72000000 ⟨0, 0, 0, 0, 0⟩ 100000000 = none := by decide
example : (UI2C_SetBusClockFreq 72000000 ⟨0, 0, 0, 0, 0⟩ 30000).map (fun x => x.1.BRGEN) =
    some (1199#32 <<< 16) := by decide

/-! ### The rate itself -/

/-- No other divider of the field gives a rate that is nearer to the request. -/
def NearestRate (p hz : ℕ) (BRGEN : BitVec 32) : Prop :=
  ∀ c : ℕ, c ≤ 1023 →
    |(p : ℚ) / (2 * (field BRGEN 16 10 + 1)) - hz| ≤ |(p : ℚ) / (2 * (c + 1)) - hz|

/-- A divider of 2.45 is rounded to 2, for 3 MHz, while 3 would give 2 MHz. -/
theorem clock_not_nearest :
    (USPI_SetBusClock 12000000 ⟨0, 0, 0, 0, 0⟩ 2448980).map (fun x => (x.1.BRGEN, x.2)) =
        some (1#32 <<< 16, 3000000) ∧
      ¬ NearestRate 12000000 2448980 (1#32 <<< 16) := by
  refine ⟨by decide, fun h => ?_⟩
  have h2 := h 2 (by omega)
  rw [show field (1#32 <<< 16) 16 10 = 1 by decide] at h2
  norm_num [abs_le] at h2

end Usci
