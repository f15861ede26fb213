/-
The EPWM driver: the output of a channel, and of its pair.

The channels of a pair have counters of their own behind one prescaler.  When a channel that is set
needs a coarser prescaler, the driver rescales the other channel of the pair; when a finer one
will do, it rescales the channel that is set, and leaves the finer prescaler in place.

* **`nu_epwm_set`** — the driver, over the registers of an EPWM module;
* **`search_eq`** — the prescaler that is found;
* **`Serves`** — the channel has what it asked for, and its pair what it had;
* **`serves_iff`** — for requests within the counter's range: if the prescaler does not shrink;
* **`not_served`** — one that shrinks.
-/
import Mathlib.Data.Int.Init
import Mathlib.Logic.Function.Basic
import Mathlib.Tactic.Linarith
import Mathlib.Tactic.Ring
import NuMaker.Lib.Divider

namespace EpwmOut

/-! ### The driver -/

/-- `EPWM_T`, as far as the driver writes it: the fields of the prescalers, periods and compare
values have the width that they have in their registers. -/
structure EPWM_T where
  CLKPSC : ℕ → BitVec 12
  PERIOD : ℕ → BitVec 16
  CMPDAT : ℕ → BitVec 16
  CTL1 : BitVec 32
  WGCTL0 : BitVec 32
  WGCTL1 : BitVec 32

def EPWM_GET_PRESCALER (epwm : EPWM_T) (u32ChannelNum : ℕ) : ℕ := (epwm.CLKPSC (u32ChannelNum / 2)).toNat

def EPWM_SET_PRESCALER (epwm : EPWM_T) (u32ChannelNum v : ℕ) : EPWM_T :=
  { epwm with CLKPSC := Function.update epwm.CLKPSC (u32ChannelNum / 2) (BitVec.ofNat 12 v) }

def EPWM_GET_CNR (epwm : EPWM_T) (u32ChannelNum : ℕ) : ℕ := (epwm.PERIOD u32ChannelNum).toNat

def EPWM_SET_CNR (epwm : EPWM_T) (u32ChannelNum v : ℕ) : EPWM_T :=
  { epwm with PERIOD := Function.update epwm.PERIOD u32ChannelNum (BitVec.ofNat 16 v) }

def EPWM_GET_CMR (epwm : EPWM_T) (u32ChannelNum : ℕ) : ℕ := (epwm.CMPDAT u32ChannelNum).toNat

def EPWM_SET_CMR (epwm : EPWM_T) (u32ChannelNum v : ℕ) : EPWM_T :=
  { epwm with CMPDAT := Function.update epwm.CMPDAT u32ChannelNum (BitVec.ofNat 16 v) }

/-- A `uint32_t`. -/
def u32 (n : ℕ) : ℕ := n % 2 ^ 32

/-- The search for a prescaler and a count, with the steps that are left of it. -/
def search (n : ℕ) : ℕ → ℕ → ℕ × ℕ
  | 0, u32Prescale => (u32Prescale, 0xFFFF)
  | fuel + 1, u32Prescale =>
    if n / u32Prescale < 0x10000 then (u32Prescale, n / u32Prescale) else search n fuel (u32Prescale + 1)

/-- The registers for a prescaler and a count. -/
def output_registers (epwm : EPWM_T) (u32ChannelNum u32Prescale u32CNR u32DutyCycle : ℕ) : EPWM_T :=
  let epwm := EPWM_SET_PRESCALER epwm u32ChannelNum (u32Prescale - 1)
  let epwm := { epwm with CTL1 := epwm.CTL1 &&&
    ~~~(0x3#32 <<< (u32ChannelNum * 2) ||| 0x10000#32 <<< u32ChannelNum) }
  let epwm := EPWM_SET_CNR epwm u32ChannelNum (u32CNR - 1)
  let epwm := EPWM_SET_CMR epwm u32ChannelNum (u32 (u32DutyCycle * (u32CNR - 1 + 1)) / 100)
  { epwm with
    WGCTL0 := epwm.WGCTL0 &&& ~~~(0x30003#32 <<< (u32ChannelNum * 2)) ||| 2#32 <<< (u32ChannelNum * 2)
    WGCTL1 := epwm.WGCTL1 &&& ~~~(0x30003#32 <<< (u32ChannelNum * 2)) ||| 1#32 <<< (u32ChannelNum * 2) }

/-- `none` where the code divides by zero. -/
def EPWM_ConfigOutputChannel (epwm : EPWM_T) (u32EPWMClockSrc u32ChannelNum u32Frequency u32DutyCycle : ℕ) :
    Option EPWM_T :=
  if u32Frequency = 0 then none
  else
    -- the prescaler runs from `1` to `0xFFE`
    let (u32Prescale, u32CNR) := search (u32EPWMClockSrc / u32Frequency) 0xFFE 1
    if u32Prescale * u32CNR = 0 then none
    else some (output_registers epwm u32ChannelNum u32Prescale u32CNR u32DutyCycle)

/-- The other channel of the pair. -/
def pair (channel : ℕ) : ℕ := if channel % 2 = 0 then channel + 1 else channel - 1

/-- What follows when the prescaler was `pre_pwm_prescaler`: the products fit a word. -/
def rescale (epwm : EPWM_T) (pwm_channel pre_pwm_prescaler : ℕ) : EPWM_T :=
  let pwm_channel_pair := pair pwm_channel
  if pre_pwm_prescaler ≠ 0 ∨ EPWM_GET_CNR epwm pwm_channel_pair ≠ 0 ∨
      EPWM_GET_CMR epwm pwm_channel_pair ≠ 0 then
    if pre_pwm_prescaler < EPWM_GET_PRESCALER epwm pwm_channel then
      let epwm := EPWM_SET_CNR epwm pwm_channel_pair
        ((EPWM_GET_CNR epwm pwm_channel_pair + 1) * (pre_pwm_prescaler + 1) /
          (EPWM_GET_PRESCALER epwm pwm_channel + 1))
      EPWM_SET_CMR epwm pwm_channel_pair
        (EPWM_GET_CMR epwm pwm_channel_pair * (pre_pwm_prescaler + 1) /
          (EPWM_GET_PRESCALER epwm pwm_channel + 1))
    else if pre_pwm_prescaler > EPWM_GET_PRESCALER epwm pwm_channel then
      let epwm := EPWM_SET_CNR epwm pwm_channel
        ((EPWM_GET_CNR epwm pwm_channel + 1) * (EPWM_GET_PRESCALER epwm pwm_channel + 1) /
          (pre_pwm_prescaler + 1))
      EPWM_SET_CMR epwm pwm_channel
        (EPWM_GET_CMR epwm pwm_channel * (EPWM_GET_PRESCALER epwm pwm_channel + 1) /
          (pre_pwm_prescaler + 1))
    else epwm
  else epwm

def RT_EOK : ℤ := 0
def RT_ERROR : ℤ := 1

/-- `none` where the code divides by zero. -/
def nu_epwm_set (epwm : EPWM_T) (u32EPWMClockSrc pwm_channel pwm_period pwm_pulse : ℕ) :
    Option (ℤ × EPWM_T) :=
  if pwm_period = 0 then some (-RT_ERROR, epwm)
  else
    (EPWM_ConfigOutputChannel epwm u32EPWMClockSrc pwm_channel (1000000000 / pwm_period)
        (u32 (pwm_pulse * 100) / pwm_period)).map fun epwm' =>
      (RT_EOK, rescale epwm' pwm_channel (EPWM_GET_PRESCALER epwm pwm_channel))

/-! ### The prescaler -/

/-- The smallest prescaler with a count below `0x10000`, if the loop gets there. -/
theorem search_eq (n : ℕ) : search n 0xFFE 1 =
    if n / 65536 + 1 < 0xFFF then (n / 65536 + 1, n / (n / 65536 + 1)) else (0xFFF, 0xFFFF) :=
  @loop_eq _ (search n) (fun p => (p, n / p)) (fun p => (p, 0xFFFF)) n 0x10000 0xFFF (by decide)
    (fun _ => rfl) (fun _ _ _ _ => rfl) 0xFFE 1 (by decide) (by decide) (by omega)

/-! ### What is asked for -/

/-- The steps of the clock in one step of the channel's counter. -/
def EPWM_T.unit (epwm : EPWM_T) (ch : ℕ) : ℕ := EPWM_GET_PRESCALER epwm ch + 1

/-- The steps of the counter in one period. -/
def EPWM_T.count (epwm : EPWM_T) (ch : ℕ) : ℕ := EPWM_GET_CNR epwm ch + 1

/-- Within one unit of each other. -/
def Near (a b unit : ℕ) : Prop := a ≤ b + unit ∧ b ≤ a + unit

/-- From `e` to `e'` the channel was given a frequency of `hz / per` hertz and a duty of `dn / dd`
within a step of its counter, its pair kept its period and its pulse within a step of its counter,
and the other pairs are as they were. -/
structure Serves (e e' : EPWM_T) (clk ch hz per dn dd : ℕ) : Prop where
  frequency : Near (e'.count ch * e'.unit ch * hz) (clk * per) (e'.unit ch * hz)
  duty : Near (EPWM_GET_CMR e' ch * dd) (e'.count ch * dn) dd
  pair_period : Near (e'.count (pair ch) * e'.unit ch) (e.count (pair ch) * e.unit ch) (e'.unit ch)
  pair_pulse : Near (EPWM_GET_CMR e' (pair ch) * e'.unit ch) (EPWM_GET_CMR e (pair ch) * e.unit ch)
    (e'.unit ch)
  others : ∀ c, c / 2 ≠ ch / 2 →
    e'.unit c = e.unit c ∧ e'.count c = e.count c ∧ EPWM_GET_CMR e' c = EPWM_GET_CMR e c

/-- The request is one for the counter: a whole number of hertz, five steps of the clock at least and
no more than the prescaler and the counter can count, and a duty of `100` percent at most, with
products that fit a word. -/
structure Fits (clk period pulse : ℕ) : Prop where
  pos : 0 < period
  hertz : period ≤ 1000000000
  fast : 5 * (1000000000 / period) ≤ clk
  slow : clk / (1000000000 / period) < 65536 * 4094
  duty : pulse ≤ period
  word : pulse * 100 < 2 ^ 32

instance (clk period pulse : ℕ) : Decidable (Fits clk period pulse) :=
  decidable_of_iff (0 < period ∧ period ≤ 1000000000 ∧ 5 * (1000000000 / period) ≤ clk ∧
      clk / (1000000000 / period) < 65536 * 4094 ∧ pulse ≤ period ∧ pulse * 100 < 2 ^ 32)
    ⟨fun ⟨h1, h2, h3, h4, h5, h6⟩ => ⟨h1, h2, h3, h4, h5, h6⟩,
      fun ⟨h1, h2, h3, h4, h5, h6⟩ => ⟨h1, h2, h3, h4, h5, h6⟩⟩

/-! ### The registers -/

section Registers

variable (e : EPWM_T) (ch c v : ℕ)

theorem pair_ne : pair ch ≠ ch := by
  unfold pair
  split <;> omega

theorem pair_half : pair ch / 2 = ch / 2 := by
  unfold pair
  split <;> omega

@[simp] theorem unit_set_cnr : (EPWM_SET_CNR e ch v).unit c = e.unit c := rfl

@[simp] theorem unit_set_cmr : (EPWM_SET_CMR e ch v).unit c = e.unit c := rfl

@[simp] theorem count_set_cmr : (EPWM_SET_CMR e ch v).count c = e.count c := rfl

@[simp] theorem prescaler_set_cnr :
    EPWM_GET_PRESCALER (EPWM_SET_CNR e ch v) c = EPWM_GET_PRESCALER e c := rfl

@[simp] theorem cmr_set_cnr : EPWM_GET_CMR (EPWM_SET_CNR e ch v) c = EPWM_GET_CMR e c := rfl

variable {c v}

theorem count_set_cnr (hv : v < 65536) : (EPWM_SET_CNR e ch v).count ch = v + 1 := by
  simp [EPWM_T.count, EPWM_GET_CNR, EPWM_SET_CNR, Nat.mod_eq_of_lt hv]

theorem count_set_cnr_of_ne (hc : c ≠ ch) : (EPWM_SET_CNR e ch v).count c = e.count c := by
  simp [EPWM_T.count, EPWM_GET_CNR, EPWM_SET_CNR, hc]

theorem cmr_set_cmr (hv : v < 65536) : EPWM_GET_CMR (EPWM_SET_CMR e ch v) ch = v := by
  simp [EPWM_GET_CMR, EPWM_SET_CMR, Nat.mod_eq_of_lt hv]

theorem cmr_set_cmr_of_ne (hc : c ≠ ch) : EPWM_GET_CMR (EPWM_SET_CMR e ch v) c = EPWM_GET_CMR e c := by
  simp [EPWM_GET_CMR, EPWM_SET_CMR, hc]

end Registers

/-- The registers after a channel is configured with a prescaler, a count and a compare value. -/
structure Configured (e e₁ : EPWM_T) (ch q c m : ℕ) : Prop where
  prescaler : EPWM_GET_PRESCALER e₁ ch = q
  cnr : EPWM_GET_CNR e₁ ch + 1 = c
  cmr : EPWM_GET_CMR e₁ ch = m
  other_prescaler : ∀ c, c / 2 ≠ ch / 2 → EPWM_GET_PRESCALER e₁ c = EPWM_GET_PRESCALER e c
  other_cnr : ∀ c, c ≠ ch → EPWM_GET_CNR e₁ c = EPWM_GET_CNR e c
  other_cmr : ∀ c, c ≠ ch → EPWM_GET_CMR e₁ c = EPWM_GET_CMR e c

/-- The bounds of the prescaler and of the count. -/
theorem count_bounds {n : ℕ} (hfast : 5 ≤ n) (hslow : n < 65536 * 4094) :
    n / 65536 < 4094 ∧ 2 * (n / 65536 + 2) < n / (n / 65536 + 1) ∧ n / (n / 65536 + 1) < 65536 := by
  refine ⟨by omega, ?_, (div_lt_swap (by omega) (by decide)).2 (by omega)⟩
  rw [Nat.lt_iff_add_one_le, Nat.le_div_iff_mul_le (by omega)]
  -- a prescaler above `0` comes with a count in the upper half
  have hmul : 65536 * (n / 65536) ≤ n := Nat.mul_div_le n 65536
  have hq : n / 65536 < 4094 := by omega
  generalize n / 65536 = q at *
  rcases q with _ | q
  · omega
  · nlinarith

/-- What is written for a prescaler and a count that fit their registers. -/
theorem output_registers_configured (e : EPWM_T) (ch : ℕ) {k c duty : ℕ} (hk : 1 ≤ k ∧ k ≤ 4096)
    (hc : 1 ≤ c ∧ c < 65536) (hduty : duty ≤ 100) :
    Configured e (output_registers e ch k c duty) ch (k - 1) c (duty * c / 100) := by
  have hle : duty * c ≤ 100 * c := Nat.mul_le_mul_right c hduty
  have hm : u32 (duty * (c - 1 + 1)) / 100 = duty * c / 100 := by
    rw [u32, Nat.sub_add_cancel hc.1, Nat.mod_eq_of_lt (by omega)]
  have hm' : duty * c / 100 < 65536 := by omega
  refine ⟨?_, ?_, ?_, fun k hk => ?_, fun k hk => ?_, fun k hk => ?_⟩
  · simp [EPWM_GET_PRESCALER, output_registers, EPWM_SET_PRESCALER, EPWM_SET_CNR, EPWM_SET_CMR]
    omega
  · simp [EPWM_GET_CNR, output_registers, EPWM_SET_PRESCALER, EPWM_SET_CNR, EPWM_SET_CMR]
    omega
  · simp [EPWM_GET_CMR, output_registers, EPWM_SET_PRESCALER, EPWM_SET_CNR, EPWM_SET_CMR, hm]
    omega
  · simp [EPWM_GET_PRESCALER, output_registers, EPWM_SET_PRESCALER, EPWM_SET_CNR, EPWM_SET_CMR, hk]
  · simp [EPWM_GET_CNR, output_registers, EPWM_SET_PRESCALER, EPWM_SET_CNR, EPWM_SET_CMR, hk]
  · simp [EPWM_GET_CMR, output_registers, EPWM_SET_PRESCALER, EPWM_SET_CNR, EPWM_SET_CMR, hk]

/-- **Configuration**: the prescaler and the count are the two parts of the clock's steps in a period,
and the compare value is the duty of the count. -/
theorem configured (e : EPWM_T) (ch : ℕ) {clk freq duty : ℕ} (hfreq : 0 < freq) (hfast : 5 * freq ≤ clk)
    (hslow : clk / freq < 65536 * 4094) (hduty : duty ≤ 100) :
    ∃ e₁, EPWM_ConfigOutputChannel e clk ch freq duty = some e₁ ∧
      Configured e e₁ ch (clk / freq / 65536) (clk / freq / (clk / freq / 65536 + 1))
        (duty * (clk / freq / (clk / freq / 65536 + 1)) / 100) := by
  have hn : 5 ≤ clk / freq := by rwa [Nat.le_div_iff_mul_le hfreq]
  obtain ⟨hq, hc, hc'⟩ := count_bounds hn hslow
  have hsearch := search_eq (clk / freq)
  rw [if_pos (by omega)] at hsearch
  generalize clk / freq / 65536 = q at *
  generalize clk / freq / (q + 1) = c at *
  have hne : ¬ (q + 1) * c = 0 := by
    rw [Nat.mul_eq_zero]
    omega
  refine ⟨output_registers e ch (q + 1) c duty, ?_, ?_⟩
  · rw [EPWM_ConfigOutputChannel, if_neg (by omega), hsearch]
    exact if_neg hne
  · exact output_registers_configured e ch ⟨Nat.succ_pos q, by omega⟩ ⟨by omega, hc'⟩ hduty

/-! ### The pair -/

theorem mul_near {a b u k : ℕ} (hk : 0 < k) : Near (a * k) (b * k) (u * k) ↔ Near a b u := by
  rw [Near, Near, ← Nat.add_mul, ← Nat.add_mul, Nat.mul_le_mul_right_iff hk, Nat.mul_le_mul_right_iff hk]

/-- The same count of the same unit. -/
theorem Near.refl (a u : ℕ) : Near a a u := ⟨Nat.le_add_right a u, Nat.le_add_right a u⟩

/-- A length in units of `p`, counted in units of `q` and rounded down, is less than a unit short. -/
theorem div_near (a q : ℕ) (hq : 0 < q) : Near (a / q * q) a q :=
  ⟨Nat.le_add_right_of_le (Nat.div_mul_le_self a q), (Nat.lt_div_mul_add hq).le⟩

/-- One more than that is less than a unit too long. -/
theorem succ_div_near (a q : ℕ) (hq : 0 < q) : Near ((a / q + 1) * q) a q := by
  rw [Nat.add_mul, Nat.one_mul]
  exact ⟨Nat.add_le_add_right (Nat.div_mul_le_self a q) q,
    Nat.le_add_right_of_le (Nat.lt_div_mul_add hq).le⟩

variable {e e₁ : EPWM_T} {ch clk freq q c m : ℕ}

/-- The own channel, with its prescaler and its count as they were configured. -/
theorem frequency_near (hfreq : 0 < freq) (q : ℕ) :
    Near (clk / freq / (q + 1) * (q + 1) * freq) (clk * 1) ((q + 1) * freq) := by
  have hlow := Nat.div_mul_le_self (clk / freq) (q + 1)
  have hhigh := Nat.lt_div_mul_add (a := clk / freq) (Nat.succ_pos q)
  have hclk := Nat.div_mul_le_self clk freq
  have hclk' := Nat.lt_div_mul_add (a := clk) hfreq
  constructor
  · calc clk / freq / (q + 1) * (q + 1) * freq ≤ clk / freq * freq := Nat.mul_le_mul_right freq hlow
      _ ≤ clk * 1 + (q + 1) * freq := by omega
  · calc clk * 1 ≤ (clk / freq + 1) * freq := by rw [Nat.add_mul]; omega
      _ ≤ (clk / freq / (q + 1) * (q + 1) + (q + 1)) * freq := Nat.mul_le_mul_right freq hhigh
      _ = _ := Nat.add_mul _ _ _

theorem duty_near (d c : ℕ) : Near (d * c / 100 * 100) (c * d) 100 := by
  rw [Nat.mul_comm c d]
  exact div_near (d * c) 100 (by decide)

/-- **Its own registers after the rescaling**: they stay as they were configured, unless the prescaler
was coarser. -/
theorem Configured.rescale (h : Configured e e₁ ch q c m) (hc : c < 65536) (hm : m < 65536)
    (pre : ℕ) :
    EPWM_GET_PRESCALER (rescale e₁ ch pre) ch = q ∧
      (pre ≤ q → EPWM_GET_CNR (rescale e₁ ch pre) ch + 1 = c ∧ EPWM_GET_CMR (rescale e₁ ch pre) ch = m) ∧
      (q < pre → EPWM_GET_CNR (rescale e₁ ch pre) ch = c * (q + 1) / (pre + 1) ∧
        EPWM_GET_CMR (rescale e₁ ch pre) ch = m * (q + 1) / (pre + 1)) := by
  have hne := (pair_ne ch).symm
  have hcnr (e : EPWM_T) (v : ℕ) : EPWM_GET_CNR (EPWM_SET_CNR e (pair ch) v) ch = EPWM_GET_CNR e ch :=
    Nat.succ_injective (count_set_cnr_of_ne e (pair ch) hne)
  have hcmr (e : EPWM_T) (v : ℕ) : EPWM_GET_CMR (EPWM_SET_CMR e (pair ch) v) ch = EPWM_GET_CMR e ch :=
    cmr_set_cmr_of_ne e (pair ch) hne
  have hset (e : EPWM_T) (k v : ℕ) : EPWM_GET_CNR (EPWM_SET_CMR e k v) ch = EPWM_GET_CNR e ch := rfl
  rw [EpwmOut.rescale]
  dsimp only
  rw [h.prescaler]
  obtain hle | hgt := Nat.lt_or_ge q pre
  · -- coarser before: the channel itself is counted anew
    have hfit {v : ℕ} (hv : v < 65536) : v * (q + 1) / (pre + 1) < 65536 := by
      rw [Nat.div_lt_iff_lt_mul (Nat.succ_pos _)]
      exact Nat.mul_lt_mul'' hv (by omega)
    rw [if_pos (Or.inl (by omega)), if_neg (by omega), if_pos hle, h.cnr, prescaler_set_cnr, h.prescaler,
      cmr_set_cnr, h.cmr]
    refine ⟨h.prescaler, fun hpre => absurd hle (by omega), fun _ => ⟨?_, cmr_set_cmr _ _ (hfit hm)⟩⟩
    rw [hset]
    exact Nat.succ_injective (count_set_cnr _ _ (hfit hc))
  · refine ⟨?_, fun _ => ?_, fun hpre => absurd hpre (by omega)⟩
    · split
      · split
        · exact h.prescaler
        · rw [if_neg (by omega)]
          exact h.prescaler
      · exact h.prescaler
    · split
      · split
        · rw [hset, hcnr, hcmr, cmr_set_cnr]
          exact ⟨h.cnr, h.cmr⟩
        · rw [if_neg (by omega)]
          exact ⟨h.cnr, h.cmr⟩
      · exact ⟨h.cnr, h.cmr⟩

section Pair

variable {hz per dn dd : ℕ} (h : Configured e e₁ ch q c m)
  (hf : Near (c * (q + 1) * hz) (clk * per) ((q + 1) * hz)) (hd : Near (m * dd) (c * dn) dd)

include h

theorem Configured.unit : e₁.unit ch = q + 1 := by
  rw [EPWM_T.unit, h.prescaler]

theorem Configured.others (k : ℕ) (hk : k / 2 ≠ ch / 2) :
    e₁.unit k = e.unit k ∧ e₁.count k = e.count k ∧ EPWM_GET_CMR e₁ k = EPWM_GET_CMR e k := by
  have hne : k ≠ ch := fun h => hk (h ▸ rfl)
  rw [EPWM_T.unit, EPWM_T.count, h.other_prescaler k hk, h.other_cnr k hne, h.other_cmr k hne]
  exact ⟨rfl, rfl, rfl⟩

include hf hd

/-- The prescaler stays, or the pair was never set: the pair keeps its registers. -/
theorem serves_kept (hpre : e.unit ch = q + 1 ∨
      e.unit ch = 1 ∧ EPWM_GET_CNR e (pair ch) = 0 ∧ EPWM_GET_CMR e (pair ch) = 0) :
    Serves e e₁ clk ch hz per dn dd := by
  have hcnr := h.other_cnr (pair ch) (pair_ne ch)
  have hcmr := h.other_cmr (pair ch) (pair_ne ch)
  refine ⟨?_, ?_, ?_, ?_, h.others⟩
  · rwa [EPWM_T.count, h.cnr, h.unit]
  · rwa [EPWM_T.count, h.cnr, h.cmr]
  · rw [h.unit, EPWM_T.count, EPWM_T.count, hcnr]
    obtain hsame | ⟨hone, hzero, -⟩ := hpre
    · rw [hsame]
      exact Near.refl _ _
    · rw [hone, hzero]
      constructor <;> omega
  · rw [h.unit, hcmr]
    obtain hsame | ⟨hone, -, hzero⟩ := hpre
    · rw [hsame]
      exact Near.refl _ _
    · rw [hone, hzero]
      constructor <;> omega

/-- **Growth**: the pair is counted in the coarser unit. -/
theorem serves_grown (hpre : e.unit ch < q + 1) :
    Serves e (EPWM_SET_CMR (EPWM_SET_CNR e₁ (pair ch) (e.count (pair ch) * e.unit ch / (q + 1))) (pair ch)
      (EPWM_GET_CMR e (pair ch) * e.unit ch / (q + 1))) clk ch hz per dn dd := by
  -- the new values are no wider than the old ones
  have hfit {v : ℕ} (hv : v ≤ 65536) : v * e.unit ch / (q + 1) < 65536 := by
    rw [Nat.div_lt_iff_lt_mul (Nat.succ_pos q)]
    calc v * e.unit ch ≤ 65536 * e.unit ch := Nat.mul_le_mul_right _ hv
      _ < 65536 * (q + 1) := Nat.mul_lt_mul_of_pos_left hpre (by decide)
  have hcount : e.count (pair ch) ≤ 65536 := (e.PERIOD (pair ch)).isLt
  have hcmr : EPWM_GET_CMR e (pair ch) ≤ 65536 := (e.CMPDAT (pair ch)).isLt.le
  have hne := (pair_ne ch).symm
  have hcount₁ : e₁.count ch = c := h.cnr
  refine ⟨?_, ?_, ?_, ?_, fun k hk => ?_⟩
  · rwa [unit_set_cmr, unit_set_cnr, count_set_cmr, count_set_cnr_of_ne _ _ hne, h.unit, hcount₁]
  · rwa [count_set_cmr, count_set_cnr_of_ne _ _ hne, cmr_set_cmr_of_ne _ _ hne, cmr_set_cnr, hcount₁,
      h.cmr]
  · rw [unit_set_cmr, unit_set_cnr, count_set_cmr, count_set_cnr _ _ (hfit hcount), h.unit]
    exact succ_div_near _ (q + 1) (Nat.succ_pos q)
  · rw [unit_set_cmr, unit_set_cnr, cmr_set_cmr _ _ (hfit hcmr), h.unit]
    exact div_near _ (q + 1) (Nat.succ_pos q)
  · have hkne : k ≠ pair ch := fun hkp => hk (hkp ▸ pair_half ch)
    rw [unit_set_cmr, unit_set_cnr, count_set_cmr, count_set_cnr_of_ne _ _ hkne, cmr_set_cmr_of_ne _ _ hkne,
      cmr_set_cnr]
    exact h.others k hk

end Pair

/-- **Shrinking**: the own channel is counted in the coarser unit that it has no more, and its period
is two units short. -/
theorem not_served_shrunk {e' : EPWM_T} {hz per dn dd : ℕ} (hhz : 0 < hz) (hunit : e'.unit ch = q + 1)
    (hpre : q + 1 < e.unit ch) (hcount : e'.count ch = c * (q + 1) / e.unit ch + 1)
    (hlow : c * (q + 1) * hz ≤ clk * per) (hc : 2 * (q + 2) < c) :
    ¬ Serves e e' clk ch hz per dn dd := by
  intro h
  -- already the next coarser unit takes three from the count
  have hk : c * (q + 1) / e.unit ch + 2 < c := by
    have hle : c * (q + 1) / e.unit ch ≤ c * (q + 1) / (q + 2) := Nat.div_le_div_left hpre (by omega)
    have hlt : c * (q + 1) / (q + 2) < c - 2 := by
      rw [Nat.div_lt_iff_lt_mul (by omega)]
      obtain ⟨k, rfl⟩ : ∃ k, c = k + 2 := ⟨c - 2, by omega⟩
      rw [Nat.add_sub_cancel]
      nlinarith
    omega
  have hnear := h.frequency.2
  rw [hunit, hcount] at hnear
  have hgap : (c * (q + 1) / e.unit ch + 2) * ((q + 1) * hz) < c * ((q + 1) * hz) :=
    Nat.mul_lt_mul_of_pos_right hk (Nat.mul_pos (Nat.succ_pos q) hhz)
  have : (c * (q + 1) / e.unit ch + 1) * (q + 1) * hz + (q + 1) * hz =
      (c * (q + 1) / e.unit ch + 2) * ((q + 1) * hz) := by ring
  rw [Nat.mul_assoc] at hlow
  omega

/-! ### A request -/

/-- What a request does that fits. -/
theorem nu_epwm_set_eq (e : EPWM_T) (ch : ℕ) {clk period pulse : ℕ} (h : Fits clk period pulse) :
    ∃ e₁, nu_epwm_set e clk ch period pulse =
        some (RT_EOK, rescale e₁ ch (EPWM_GET_PRESCALER e ch)) ∧
      Configured e e₁ ch (clk / (1000000000 / period) / 65536)
        (clk / (1000000000 / period) / (clk / (1000000000 / period) / 65536 + 1))
        (pulse * 100 / period *
          (clk / (1000000000 / period) / (clk / (1000000000 / period) / 65536 + 1)) / 100) := by
  have hduty : pulse * 100 / period ≤ 100 := by
    rw [Nat.div_le_iff_le_mul_add_pred h.pos]
    have := Nat.mul_le_mul_right 100 h.duty
    omega
  obtain ⟨e₁, he₁, hconf⟩ := configured e ch (Nat.div_pos h.hertz h.pos) h.fast h.slow hduty
  refine ⟨e₁, ?_, hconf⟩
  have hpos := h.pos
  rw [nu_epwm_set, if_neg (by omega), u32, Nat.mod_eq_of_lt h.word, he₁, Option.map_some]

/-- The three ways of the prescaler: it stays, or the pair was never set; it grows; it shrinks. -/
theorem rescale_serves_iff {hz per dn dd : ℕ} (h : Configured e e₁ ch q c m)
    (hc : 2 * (q + 2) < c) (hc' : c < 65536) (hhz : 0 < hz)
    (hf : Near (c * (q + 1) * hz) (clk * per) ((q + 1) * hz)) (hlow : c * (q + 1) * hz ≤ clk * per)
    (hd : Near (m * dd) (c * dn) dd) :
    Serves e (rescale e₁ ch (EPWM_GET_PRESCALER e ch)) clk ch hz per dn dd ↔
      EPWM_GET_PRESCALER e ch ≤ q := by
  have hpsc := h.prescaler
  have hcnr := h.other_cnr (pair ch) (pair_ne ch)
  have hcmr := h.other_cmr (pair ch) (pair_ne ch)
  have hunit : e.unit ch = EPWM_GET_PRESCALER e ch + 1 := rfl
  unfold rescale
  simp only [prescaler_set_cnr, cmr_set_cnr, hpsc, hcnr, hcmr]
  obtain hlt | heq | hgt := Nat.lt_trichotomy (EPWM_GET_PRESCALER e ch) q
  · refine iff_of_true ?_ hlt.le
    by_cases hset : EPWM_GET_PRESCALER e ch ≠ 0 ∨ EPWM_GET_CNR e (pair ch) ≠ 0 ∨
        EPWM_GET_CMR e (pair ch) ≠ 0
    · rw [if_pos hset, if_pos hlt]
      exact serves_grown h hf hd (by omega)
    · rw [if_neg hset]
      simp only [not_or, not_not] at hset
      exact serves_kept h hf hd (.inr ⟨by omega, hset.2⟩)
  · refine iff_of_true ?_ heq.le
    rw [if_neg (Nat.not_lt.2 heq.ge), if_neg (Nat.not_lt.2 heq.le), ite_self]
    exact serves_kept h hf hd (.inl (by omega))
  · refine iff_of_false ?_ (Nat.not_le.2 hgt)
    rw [if_pos (.inl (by omega)), if_neg (Nat.not_lt.2 hgt.le), if_pos hgt, h.cnr]
    have hfit : c * (q + 1) / (EPWM_GET_PRESCALER e ch + 1) < 65536 := by
      rw [Nat.div_lt_iff_lt_mul (Nat.succ_pos _)]
      exact Nat.mul_lt_mul'' hc' (by omega)
    refine not_served_shrunk hhz ?_ (by omega) ?_ hlow hc
    · rw [unit_set_cmr, unit_set_cnr, h.unit]
    · rw [count_set_cmr, count_set_cnr _ _ hfit, hunit]

/-- A clock of 72 MHz, a pair that has a prescaler of 2, and a request of 1 kHz. -/
def halved : EPWM_T :=
  ⟨fun _ => 2, fun _ => 23999, fun _ => 12000, 0, 0, 0⟩

end EpwmOut
