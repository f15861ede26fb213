/-
Devices on an SPI bus: `drv_spi.c`, `drv_lpspi.c` and `drv_uspi.c`, their `configure` and `xfer`.

Several devices share a bus, each with a configuration and a chip select of its own.  The driver
keeps the last configuration it programmed and skips the programming when a device asks for the
same again; the divider it sets either way.

* **`configure_reached`** — the cached configuration and the hardware agree after every run;
* **`configure_served`** — a call that meets the condition leaves the device with its settings;
* **`devices_served`** — the same at every state of a run whose steps meet it.
-/
import NuMaker.Spi.Controller

namespace Spi

/-! ### Devices and buses -/

/-- `struct rt_spi_configuration`. -/
structure rt_spi_configuration where
  mode : BitVec 8
  data_width : ℕ
  reserved : ℕ
  max_hz : ℕ
deriving DecidableEq, Repr

/-- A device's `user_data`: the pin that selects it, or null for the controller's own line. -/
abbrev Device := Option ℤ

/-- A bus: its hardware, the levels of the board's pins, and the configuration it keeps. -/
structure Bus (p : Port) where
  hw : p.HW
  pins : ℤ → Bool
  configuration : rt_spi_configuration

/-- `struct rt_spi_message`, less its buffers. -/
structure Message where
  length : ℕ
  cs_take : Bool
  cs_release : Bool
deriving DecidableEq, Repr

def RT_EOK : ℤ := 0
def RT_EIO : ℤ := 8
def RT_EINVAL : ℤ := 10

def RT_SPI_MODE_3 : BitVec 8 := 0x03
def RT_SPI_MSB : BitVec 8 := 0x04
def RT_SPI_CS_HIGH : BitVec 8 := 0x10
def RT_SPI_NO_CS : BitVec 8 := 0x20

/-- A configuration's flag. -/
def rt_spi_configuration.has (cfg : rt_spi_configuration) (flag : BitVec 8) : Bool :=
  cfg.mode &&& flag != 0

variable {p : Port}

/-- The level of a device's chip select. -/
def Bus.csLevel (s : Bus p) : Device → Bool
  | some pin => s.pins pin
  | none => p.ssHigh s.hw

/-- A device's chip select driven to a level. -/
def Bus.setCS (s : Bus p) (high : Bool) : Device → Bus p
  | some pin => { s with pins := Function.update s.pins pin high }
  | none => { s with hw := if high then p.SET_SS_HIGH s.hw else p.SET_SS_LOW s.hw }

/-- The level at which a configuration has its device not selected. -/
def rt_spi_configuration.inactive (cfg : rt_spi_configuration) : Bool := !cfg.has RT_SPI_CS_HIGH

/-! ### The driver -/

/-- The switch on a configuration's mode bits. -/
def modeSwitch (p : Port) (mode : BitVec 8) : Option p.Mode :=
  match (mode &&& RT_SPI_MODE_3).toNat with
  | 0 => some (p.SPI_MODE 0)
  | 1 => some (p.SPI_MODE 1)
  | 2 => some (p.SPI_MODE 2)
  | 3 => some (p.SPI_MODE 3)
  | _ => none

/-- The configuration a device is left with: its rate is lowered to the one the clock reports. -/
def rt_spi_configuration.lowered (cfg : rt_spi_configuration) (u32BusClock : ℕ) :
    rt_spi_configuration :=
  if cfg.max_hz > u32BusClock then { cfg with max_hz := u32BusClock } else cfg

/-- Programming a new configuration: `SPI_Open`, the chip select, the bit order. -/
def reprogram (s : Bus p) (device : Device) (cfg : rt_spi_configuration) (u32SPIMode : p.Mode)
    (u32BusClock : ℕ) : Option (Bus p) := do
  let hw ← p.Open s.hw u32SPIMode cfg.data_width u32BusClock
  let s := { s with configuration := cfg, hw := hw }
  let s := if cfg.has RT_SPI_CS_HIGH then s.setCS false device else s.setCS true device
  some { s with hw := if cfg.has RT_SPI_MSB then p.SET_MSB_FIRST s.hw else p.SET_LSB_FIRST s.hw }

/-- The three drivers' `configure`: what it returns, the device's configuration after it, and the
bus.  It does not return where the clock functions divide by zero. -/
def bus_configure (p : Port) (s : Bus p) (device : Device) (cfg : rt_spi_configuration) :
    Option (ℤ × rt_spi_configuration × Bus p) :=
  match modeSwitch p cfg.mode with
  | none => some (- RT_EIO, cfg, s)
  | some u32SPIMode =>
    if p.widthOk cfg.data_width then do
      let (hw, u32BusClock) ← p.SetBusClock s.hw cfg.max_hz
      let s := { s with hw := hw }
      let cfg := cfg.lowered u32BusClock
      -- the whole structure is compared with the one kept
      if cfg = s.configuration then some (RT_EOK, cfg, s)
      else do
        let s ← reprogram s device cfg u32SPIMode u32BusClock
        some (RT_EOK, cfg, s)
    else some (-RT_EINVAL, cfg, s)

/-- `nu_spi_bus_configure` of `drv_spi.c`. -/
def nu_spi_bus_configure (clk : Clocks) (n : Fin 4) := bus_configure (clk.spi n)

/-- `nu_spi_bus_configure` of `drv_lpspi.c`. -/
def nu_lpspi_bus_configure (clk : Clocks) := bus_configure clk.lpspi

/-- `nu_uspi_bus_configure`. -/
def nu_uspi_bus_configure (clk : Clocks) (n : Fin 2) := bus_configure (clk.uspi n)

/-- The three drivers' `xfer`, as far as the settings go: the bytes it returns, and the bus.  It
selects by the configuration that is kept; the payload moves between the selections. -/
def bus_xfer (s : Bus p) (device : Device) (message : Message) : Option (ℕ × Bus p) :=
  let cfg := s.configuration
  let bytes_per_word := cfg.data_width / 8
  if bytes_per_word = 0 then none
  else if message.length % bytes_per_word ≠ 0 then some (0, s)
  else if 0 < message.length then
    let s := if message.cs_take && !cfg.has RT_SPI_NO_CS then
      s.setCS (cfg.has RT_SPI_CS_HIGH) device else s
    let s := if message.cs_release && !cfg.has RT_SPI_NO_CS then
      s.setCS (!cfg.has RT_SPI_CS_HIGH) device else s
    some (message.length, s)
  else some (message.length, s)

/-! ### What a device is promised -/

/-- The hardware as a configuration has it, with the device's chip select not active, and a rate
of at most `max_hz`. -/
structure Matches (s : Bus p) (device : Device) (cfg : rt_spi_configuration) (max_hz : ℕ) :
    Prop where
  mode : modeSwitch p cfg.mode = some (p.modeOf s.hw)
  width : p.widthOf s.hw = cfg.data_width
  order : p.msbFirst s.hw = cfg.has RT_SPI_MSB
  select : s.csLevel device = cfg.inactive
  rate : p.rate s.hw ≤ max_hz

/-- What a `configure` call promises: it returns; with success only if the hardware matches the
configuration, the rate that was asked for included; with an error only if nothing changed. -/
def Served (s : Bus p) (device : Device) (cfg : rt_spi_configuration) : Prop :=
  ∃ ret cfg' s', bus_configure p s device cfg = some (ret, cfg', s') ∧
    (ret = RT_EOK → Matches s' device cfg cfg.max_hz) ∧ (ret ≠ RT_EOK → s' = s ∧ cfg' = cfg)

/-- The configuration is the one that is kept, once its rate has been lowered. -/
def Bus.Cached (s : Bus p) (cfg : rt_spi_configuration) : Prop :=
  ∃ h' b, p.SetBusClock s.hw cfg.max_hz = some (h', b) ∧ cfg.lowered b = s.configuration

/-- The condition on a `configure` call: its width is refused; or the clock settings fit the rate,
and a device whose configuration is kept already has its chip select inactive. -/
def StepOk (s : Bus p) (device : Device) (cfg : rt_spi_configuration) : Prop :=
  p.widthOk cfg.data_width = true →
    p.Fit s.hw cfg.max_hz ∧ (s.Cached cfg → s.csLevel device = cfg.inactive)

/-- The kept configuration, once there is one, is what the hardware is set to. -/
def Agrees (s : Bus p) : Prop :=
  p.widthOk s.configuration.data_width = true →
    modeSwitch p s.configuration.mode = some (p.modeOf s.hw) ∧
    p.widthOf s.hw = s.configuration.data_width ∧
    p.msbFirst s.hw = s.configuration.has RT_SPI_MSB

/-! ### Single steps -/

/-- Two bits select one of the four modes. -/
theorem modeSwitch_isSome (p : Port) (mode : BitVec 8) : ∃ m, modeSwitch p mode = some m := by
  have hlt : (mode &&& RT_SPI_MODE_3).toNat < 4 := by
    rw [BitVec.toNat_and]
    exact lt_of_le_of_lt Nat.and_le_right (by decide)
  unfold modeSwitch
  rcases h : (mode &&& RT_SPI_MODE_3).toNat with _ | _ | _ | _ | k
  · exact ⟨_, rfl⟩
  · exact ⟨_, rfl⟩
  · exact ⟨_, rfl⟩
  · exact ⟨_, rfl⟩
  · omega

/-- Driving a chip select leaves the format and the rate, and sets its level. -/
theorem setCS_spec (s : Bus p) (high : Bool) (device : Device) :
    p.SameFormat s.hw (s.setCS high device).hw ∧ p.rate (s.setCS high device).hw = p.rate s.hw ∧
    (s.setCS high device).csLevel device = high ∧
    (s.setCS high device).configuration = s.configuration := by
  cases device with
  | some pin => exact ⟨⟨rfl, rfl, rfl⟩, rfl, Function.update_self .., rfl⟩
  | none =>
    cases high with
    | true => exact ⟨(p.ss_high s.hw).1, (p.ss_high s.hw).2.2, (p.ss_high s.hw).2.1, rfl⟩
    | false => exact ⟨(p.ss_low s.hw).1, (p.ss_low s.hw).2.2, (p.ss_low s.hw).2.1, rfl⟩

/-- A frame for the invariant: the format and the kept configuration stay. -/
theorem Agrees.of_sameFormat {s s' : Bus p} (h : Agrees s) (hf : p.SameFormat s.hw s'.hw)
    (hc : s'.configuration = s.configuration) : Agrees s' := by
  intro hw
  rw [hc] at hw ⊢
  rw [hf.mode, hf.width, hf.order]
  exact h hw

/-- The setting of the bit order, over the other fields. -/
theorem setOrder_spec (h : p.HW) (msb : Bool) :
    let h' := if msb then p.SET_MSB_FIRST h else p.SET_LSB_FIRST h
    p.modeOf h' = p.modeOf h ∧ p.widthOf h' = p.widthOf h ∧ p.msbFirst h' = msb ∧
      p.ssHigh h' = p.ssHigh h ∧ p.rate h' = p.rate h := by
  cases msb with
  | true => exact p.msb_first h
  | false => exact p.lsb_first h

/-- Reprogramming sets everything but the rate from the configuration, and the rate from the
clock. -/
theorem reprogram_spec {s s' : Bus p} {device : Device} {cfg : rt_spi_configuration} {m : p.Mode}
    {b : ℕ} (hw : p.widthOk cfg.data_width = true) (he : reprogram s device cfg m b = some s') :
    p.modeOf s'.hw = m ∧ p.widthOf s'.hw = cfg.data_width ∧
    p.msbFirst s'.hw = cfg.has RT_SPI_MSB ∧ s'.csLevel device = cfg.inactive ∧
    s'.configuration = cfg ∧ ∃ h', p.Open s.hw m cfg.data_width b = some h' ∧
      p.rate s'.hw = p.rate h' := by
  simp only [reprogram, Option.bind_eq_bind, Option.bind_eq_some_iff, Option.some.injEq] at he
  obtain ⟨h', hopen, rfl⟩ := he
  obtain ⟨hm, hwidth⟩ := p.open_format hw hopen
  set s1 : Bus p := { s with configuration := cfg, hw := h' } with hs1
  have hcs : (if cfg.has RT_SPI_CS_HIGH = true then s1.setCS false device
      else s1.setCS true device) = s1.setCS cfg.inactive device := by
    unfold rt_spi_configuration.inactive
    cases cfg.has RT_SPI_CS_HIGH <;> rfl
  rw [hcs]
  obtain ⟨hf, hrate, hlevel, hconf⟩ := setCS_spec s1 cfg.inactive device
  obtain ⟨om, ow, oo, oss, orate⟩ := setOrder_spec (s1.setCS cfg.inactive device).hw
    (cfg.has RT_SPI_MSB)
  refine ⟨?_, ?_, oo, ?_, hconf, h', hopen, ?_⟩
  · exact om.trans (hf.mode.trans hm)
  · exact ow.trans (hf.width.trans hwidth)
  · -- the bit order does not move the select line
    cases device with
    | some pin => exact hlevel
    | none => exact oss.trans hlevel
  · exact orate.trans hrate

@[simp] theorem lowered_mode (cfg : rt_spi_configuration) (b : ℕ) :
    (cfg.lowered b).mode = cfg.mode := by
  unfold rt_spi_configuration.lowered
  split <;> rfl

@[simp] theorem lowered_data_width (cfg : rt_spi_configuration) (b : ℕ) :
    (cfg.lowered b).data_width = cfg.data_width := by
  unfold rt_spi_configuration.lowered
  split <;> rfl

@[simp] theorem lowered_has (cfg : rt_spi_configuration) (b : ℕ) (flag : BitVec 8) :
    (cfg.lowered b).has flag = cfg.has flag := by
  rw [rt_spi_configuration.has, rt_spi_configuration.has, lowered_mode]

@[simp] theorem lowered_inactive (cfg : rt_spi_configuration) (b : ℕ) :
    (cfg.lowered b).inactive = cfg.inactive := by
  rw [rt_spi_configuration.inactive, rt_spi_configuration.inactive, lowered_has]

/-- Everything a `configure` call can do: refuse the width, keep what is programmed, or program
anew. -/
theorem bus_configure_cases {s s' : Bus p} {device : Device} {cfg cfg' : rt_spi_configuration}
    {ret : ℤ} (he : bus_configure p s device cfg = some (ret, cfg', s')) :
    (p.widthOk cfg.data_width = false ∧ ret = -RT_EINVAL ∧ cfg' = cfg ∧ s' = s) ∨
    (p.widthOk cfg.data_width = true ∧ ret = RT_EOK ∧ ∃ m hw b, modeSwitch p cfg.mode = some m ∧
      p.SetBusClock s.hw cfg.max_hz = some (hw, b) ∧ cfg' = cfg.lowered b ∧
      ((cfg' = s.configuration ∧ s' = { s with hw := hw }) ∨
        (cfg' ≠ s.configuration ∧ reprogram { s with hw := hw } device cfg' m b = some s'))) := by
  obtain ⟨m, hm⟩ := modeSwitch_isSome p cfg.mode
  rw [bus_configure, hm] at he
  dsimp only at he
  split at he
  · rename_i hw
    simp only [Option.bind_eq_bind, Option.bind_eq_some_iff, Prod.exists] at he
    obtain ⟨hw', b, hset, he⟩ := he
    refine Or.inr ⟨hw, ?_⟩
    split at he
    · rename_i hc
      obtain ⟨rfl, rfl, rfl⟩ := by simpa using he
      exact ⟨rfl, m, hw', b, hm, hset, rfl, Or.inl ⟨hc, rfl⟩⟩
    · rename_i hc
      simp only [Option.bind_eq_some_iff, Option.some.injEq, Prod.mk.injEq] at he
      obtain ⟨s1, hre, rfl, rfl, rfl⟩ := he
      exact ⟨rfl, m, hw', b, hm, hset, rfl, Or.inr ⟨hc, hre⟩⟩
  · rename_i hw
    obtain ⟨rfl, rfl, rfl⟩ := by simpa using he
    exact Or.inl ⟨by simpa using hw, rfl, rfl, rfl⟩

/-- A `configure` call keeps the invariant. -/
theorem bus_configure_agrees {s s' : Bus p} {device : Device} {cfg cfg' : rt_spi_configuration}
    {ret : ℤ} (h : Agrees s) (he : bus_configure p s device cfg = some (ret, cfg', s')) :
    Agrees s' := by
  rcases bus_configure_cases he with ⟨-, -, -, rfl⟩ | ⟨hw, -, m, h', b, hm, hset, rfl, hout⟩
  · exact h
  · have hf := p.clock_frame hset
    rcases hout with ⟨-, rfl⟩ | ⟨-, hre⟩
    · exact h.of_sameFormat hf.1 rfl
    · obtain ⟨rm, rw', ro, -, rc, -⟩ := reprogram_spec (by rwa [lowered_data_width]) hre
      intro _
      rw [rc]
      refine ⟨?_, rw', ro⟩
      rw [lowered_mode, hm, rm]

/-- A transfer leaves the format and the kept configuration. -/
theorem bus_xfer_frame {s s' : Bus p} {device : Device} {message : Message} {n : ℕ}
    (he : bus_xfer s device message = some (n, s')) :
    p.SameFormat s.hw s'.hw ∧ s'.configuration = s.configuration := by
  have hrefl : p.SameFormat s.hw s.hw ∧ s.configuration = s.configuration := ⟨⟨rfl, rfl, rfl⟩, rfl⟩
  have hsel : ∀ (take : Bool) (level : Bool) (t : Bus p),
      p.SameFormat s.hw t.hw ∧ t.configuration = s.configuration →
      p.SameFormat s.hw (if take then t.setCS level device else t).hw ∧
        (if take then t.setCS level device else t).configuration = s.configuration := by
    intro take level t ht
    cases take with
    | false => exact ht
    | true =>
      obtain ⟨hf, -, -, hc⟩ := setCS_spec t level device
      exact ⟨⟨hf.mode.trans ht.1.mode, hf.width.trans ht.1.width, hf.order.trans ht.1.order⟩,
        hc.trans ht.2⟩
  unfold bus_xfer at he
  dsimp only at he
  split at he
  · cases he
  · split at he
    · obtain ⟨-, rfl⟩ := by simpa using he
      exact hrefl
    · split at he
      · simp only [Option.some.injEq, Prod.mk.injEq] at he
        obtain ⟨-, rfl⟩ := he
        exact hsel _ _ _ (hsel _ _ _ hrefl)
      · obtain ⟨-, rfl⟩ := by simpa using he
        exact hrefl

/-! ### Runs -/

/-- The states a bus reaches from its set-up, by any calls of any devices. -/
inductive Reached : Bus p → Prop
  | boot (hw : p.HW) (pins : ℤ → Bool) : Reached ⟨hw, pins, ⟨0, 0, 0, 0⟩⟩
  | configure {s s' : Bus p} {device : Device} {cfg cfg' : rt_spi_configuration} {ret : ℤ} :
      Reached s → bus_configure p s device cfg = some (ret, cfg', s') → Reached s'
  | xfer {s s' : Bus p} {device : Device} {message : Message} {n : ℕ} :
      Reached s → bus_xfer s device message = some (n, s') → Reached s'

/-- **The kept configuration and the hardware agree after every run.** -/
theorem configure_reached {s : Bus p} (h : Reached s) : Agrees s := by
  induction h with
  | boot hw pins =>
    intro hok
    rw [p.widthOk_zero] at hok
    cases hok
  | configure _ he ih => exact bus_configure_agrees ih he
  | xfer _ he ih => exact ih.of_sameFormat (bus_xfer_frame he).1 (bus_xfer_frame he).2

/-- **A `configure` call that meets the condition keeps its promise.** -/
theorem configure_served {s : Bus p} (h : Agrees s) {device : Device} {cfg : rt_spi_configuration}
    (hok : StepOk s device cfg) : Served s device cfg := by
  obtain ⟨m, hm⟩ := modeSwitch_isSome p cfg.mode
  by_cases hw : p.widthOk cfg.data_width = true
  · obtain ⟨hfit, hcs⟩ := hok hw
    obtain ⟨h', b, hset, hrate, hopen⟩ := p.clock_fit hfit
    have hf := p.clock_frame hset
    by_cases hc : cfg.lowered b = s.configuration
    · -- nothing is programmed but the divider
      refine ⟨RT_EOK, cfg.lowered b, { s with hw := h' }, ?_, fun _ => ?_, fun hne => absurd rfl hne⟩
      · simp [bus_configure, hm, hw, hset, hc]
      · obtain ⟨am, aw, ao⟩ := h (by rwa [← hc, lowered_data_width])
        rw [← hc, lowered_mode] at am
        rw [← hc, lowered_data_width] at aw
        rw [← hc, lowered_has] at ao
        refine ⟨by rw [hf.1.mode]; exact am, hf.1.width.trans aw, hf.1.order.trans ao, ?_, hrate⟩
        have hlevel := hcs ⟨h', b, hset, hc⟩
        cases device with
        | some pin => exact hlevel
        | none => exact hf.2.trans hlevel
    · obtain ⟨h'', ho, hrate''⟩ := hopen m cfg.data_width
      obtain ⟨s', hre⟩ : ∃ s', reprogram { s with hw := h' } device (cfg.lowered b) m b =
          some s' := by
        simp [reprogram, ho]
      have hspec := reprogram_spec (by rwa [lowered_data_width]) hre
      obtain ⟨rm, rw', ro, rs, -, h3, ho', hr⟩ := hspec
      rw [lowered_data_width] at ho'
      obtain rfl : h3 = h'' := Option.some.inj (ho'.symm.trans ho)
      refine ⟨RT_EOK, cfg.lowered b, s', ?_, fun _ => ?_, fun hne => absurd rfl hne⟩
      · simp [bus_configure, hm, hw, hset, hc, hre]
      · refine ⟨by rw [hm, rm], by simpa using rw', by simpa using ro, by simpa using rs, ?_⟩
        rw [hr]
        exact hrate''
  · refine ⟨-RT_EINVAL, cfg, s, ?_, fun hret => absurd hret (by decide), fun _ => ⟨rfl, rfl⟩⟩
    simp [bus_configure, hm, hw]

/-- **Each device is driven with its own settings**: on every bus of the three drivers, after any
run of calls by any devices, a `configure` call that meets the condition keeps its promise. -/
theorem devices_served (clk : Clocks) (bus : BusId) {s : Bus (bus.port clk)} (h : Reached s)
    {device : Device} {cfg : rt_spi_configuration} (hok : StepOk s device cfg) :
    Served s device cfg :=
  configure_served (configure_reached h) hok

/-- A core at 72 MHz, with both peripheral buses at its rate. -/
def board : Clocks := { HCLK := 72000000, APB0DIV := 0, APB1DIV := 0, PLL := 144000000, MIRC := 4000000 }

/-- `SPI0` after a reset, clocked by the 12 MHz oscillator; every pin low. -/
def spi0 : Bus (BusId.port board (.spi 0)) where
  hw := (⟨false, false, false, false, 0, false, false, false, 0⟩, ⟨3, 3⟩)
  pins _ := false
  configuration := ⟨0, 0, 0, 0⟩

/-- Bytes in mode 0, most significant bit first, at a rate. -/
def mode0 (max_hz : ℕ) : rt_spi_configuration := ⟨RT_SPI_MSB, 8, 0, max_hz⟩

/-- The first device to ask for 6 MHz gets all its settings. -/
theorem devices_served_first : Served spi0 (some 10) (mode0 6000000) := by
  refine devices_served board (.spi 0) (Reached.boot _ _) fun _ => ⟨?_, ?_⟩
  · refine Or.inr ⟨by decide, Or.inr ⟨by decide, by decide, by decide, by decide⟩, Or.inl rfl⟩
  · rintro ⟨h', b, -, hc⟩
    exact absurd (congrArg rt_spi_configuration.data_width hc) (by simp [mode0])

/-- The bus after the first device. -/
def spi0Taken : Bus (BusId.port board (.spi 0)) where
  hw := (⟨false, false, true, false, 8, false, false, false, 1⟩, ⟨3, 3⟩)
  pins := Function.update (fun _ => false) 10 true
  configuration := mode0 6000000

/-- A second device that asks for the same is not given its chip select; and the first device to
ask for 5 MHz is given 6 MHz. -/
theorem devices_mismatched :
    (Reached spi0Taken ∧ ¬ Served spi0Taken (some 11) (mode0 6000000)) ∧
      ¬ Served spi0 (some 10) (mode0 5000000) := by
  have hfirst : bus_configure _ spi0 (some 10) (mode0 6000000) =
      some (RT_EOK, mode0 6000000, spi0Taken) := rfl
  refine ⟨⟨Reached.configure (Reached.boot spi0.hw spi0.pins) hfirst, ?_⟩, ?_⟩
  · rintro ⟨ret, cfg', s', he, hok, -⟩
    obtain ⟨rfl, rfl, rfl⟩ : ret = RT_EOK ∧ cfg' = mode0 6000000 ∧ s' = spi0Taken := by
      have := he.symm.trans (show bus_configure _ spi0Taken (some 11) (mode0 6000000) =
        some (RT_EOK, mode0 6000000, spi0Taken) from rfl)
      simpa using this
    exact absurd (hok rfl).select (by decide)
  · rintro ⟨ret, cfg', s', he, hok, -⟩
    obtain ⟨rfl, rfl, rfl⟩ : ret = RT_EOK ∧ cfg' = mode0 5000000 ∧
        s' = { spi0Taken with configuration := mode0 5000000 } := by
      have := he.symm.trans (show bus_configure _ spi0 (some 10) (mode0 5000000) =
        some (RT_EOK, mode0 5000000, { spi0Taken with configuration := mode0 5000000 }) from rfl)
      simpa using this
    exact absurd (hok rfl).rate (by decide)

end Spi
