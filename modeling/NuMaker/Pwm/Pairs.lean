/-
The PWM driver: six channels in pairs.

The channels of a pair share a prescaler, a counter and its period.  The driver remembers one period
for the whole device, and a disable stops the counter of the pair.

* **`nu_pwm_enable`**, **`nu_pwm_set`** — the driver, over the registers of a PWM module;
* **`World.step`** — a device that takes requests, with the period that each pair was last set with;
* **`Inv`** — an enabled channel runs, with the period of its pair;
* **`only_when_told`** — the requests under which the channels change only when told to;
* **`told_otherwise`** — two that stop a channel, and give it another pair's period.
-/
import Mathlib.Data.Int.Init
import Mathlib.Logic.Function.Basic
import NuMaker.Lib.BitMask
import NuMaker.Lib.Guarded

namespace Pwm

/-! ### The registers -/

/-- `PWM_T`, as far as the driver writes it. -/
structure PWM_T where
  /-- `CLKPSC0_1`, `CLKPSC2_3` and `CLKPSC4_5`. -/
  CLKPSC : ℕ → BitVec 32
  PERIOD : ℕ → BitVec 32
  CMPDAT : ℕ → BitVec 32
  CTL1 : BitVec 32
  WGCTL0 : BitVec 32
  WGCTL1 : BitVec 32
  CNTEN : BitVec 32
  POEN : BitVec 32

def PWM_CHANNEL_NUM : ℕ := 6

def PWM_SET_PRESCALER (pwm : PWM_T) (u32ChannelNum : ℕ) (v : BitVec 32) : PWM_T :=
  { pwm with CLKPSC := Function.update pwm.CLKPSC (u32ChannelNum / 2) v }

def PWM_SET_CNR (pwm : PWM_T) (u32ChannelNum : ℕ) (v : BitVec 32) : PWM_T :=
  { pwm with PERIOD := Function.update pwm.PERIOD (u32ChannelNum / 2 * 2) v }

def PWM_GET_CNR (pwm : PWM_T) (u32ChannelNum : ℕ) : BitVec 32 := pwm.PERIOD (u32ChannelNum / 2 * 2)

def PWM_SET_CMR (pwm : PWM_T) (u32ChannelNum : ℕ) (v : BitVec 32) : PWM_T :=
  { pwm with CMPDAT := Function.update pwm.CMPDAT u32ChannelNum v }

def PWM_EnableOutput (pwm : PWM_T) (u32ChannelMask : BitVec 32) : PWM_T :=
  { pwm with POEN := pwm.POEN ||| u32ChannelMask }

def PWM_DisableOutput (pwm : PWM_T) (u32ChannelMask : BitVec 32) : PWM_T :=
  { pwm with POEN := pwm.POEN &&& ~~~u32ChannelMask }

def PWM_Start (pwm : PWM_T) (u32ChannelMask : BitVec 32) : PWM_T :=
  (List.range PWM_CHANNEL_NUM).foldl (fun pwm i =>
    if u32ChannelMask &&& 1#32 <<< i ≠ 0 then { pwm with CNTEN := pwm.CNTEN ||| 1#32 <<< (i / 2 * 2) }
    else pwm) pwm

def PWM_ForceStop (pwm : PWM_T) (u32ChannelMask : BitVec 32) : PWM_T :=
  (List.range PWM_CHANNEL_NUM).foldl (fun pwm i =>
    if u32ChannelMask &&& 1#32 <<< i ≠ 0 then
      { pwm with CNTEN := pwm.CNTEN &&& ~~~(1#32 <<< (i / 2 * 2)) }
    else pwm) pwm

/-- The search for a prescaler and a count, with the steps that are left of it. -/
def prescale (u32PWMClockSrc u32Frequency : BitVec 32) : ℕ → BitVec 16 → BitVec 16 × BitVec 16
  | 0, u16Prescale => (u16Prescale, 0xFFFF)
  | n + 1, u16Prescale =>
    -- a core without the trap divides by zero to zero, as `BitVec` does
    let i := u32PWMClockSrc / u32Frequency / u16Prescale.setWidth 32
    if i > 0x10000 then prescale u32PWMClockSrc u32Frequency n (u16Prescale + 1)
    else (u16Prescale, i.setWidth 16)

/-- The prescaler runs from `1` to `0xFFE`. -/
def PWM_ConfigOutputChannel (pwm : PWM_T) (u32PWMClockSrc : BitVec 32) (u32ChannelNum : ℕ)
    (u32Frequency u32DutyCycle : BitVec 32) : PWM_T :=
  let (u16Prescale, u16CNR) := prescale u32PWMClockSrc u32Frequency 0xFFE 1
  let pwm := PWM_SET_PRESCALER pwm u32ChannelNum ((u16Prescale - 1).setWidth 32)
  let pwm := { pwm with CTL1 := pwm.CTL1 &&& ~~~(0x3#32 <<< (u32ChannelNum / 2 * 4)) }
  let pwm := PWM_SET_CNR pwm u32ChannelNum ((u16CNR - 1).setWidth 32)
  let pwm := PWM_SET_CMR pwm u32ChannelNum
    (u32DutyCycle * ((u16CNR - 1).setWidth 32 + 1) / 100)
  { pwm with
    WGCTL0 := pwm.WGCTL0 &&& ~~~(0x30003#32 <<< (u32ChannelNum * 2)) ||| 2#32 <<< (u32ChannelNum * 2)
    WGCTL1 := pwm.WGCTL1 &&& ~~~(0x30003#32 <<< (u32ChannelNum * 2)) ||| 1#32 <<< (u32ChannelNum * 2) }

/-! ### The driver -/

/-- `struct nu_pwm`. -/
structure nu_pwm where
  base : PWM_T
  period_time : BitVec 32
  chn_mask : BitVec 32

def RT_EOK : ℤ := 0
def RT_ERROR : ℤ := 1
def RT_EINVAL : ℤ := 10

def nu_pwm_enable (d : nu_pwm) (channel : ℕ) (enable : Bool) : ℤ × nu_pwm :=
  if enable then
    (RT_EOK,
      { d with
        base := PWM_Start (PWM_EnableOutput d.base (1#32 <<< channel)) (1#32 <<< channel)
        chn_mask := d.chn_mask ||| 1#32 <<< channel })
  else
    (RT_EOK,
      { d with
        base := PWM_ForceStop (PWM_DisableOutput d.base (1#32 <<< channel)) (1#32 <<< channel)
        chn_mask := d.chn_mask &&& ~~~(1#32 <<< channel) })

/-- The other channel of the pair. -/
def pair (channel : ℕ) : ℕ := if channel % 2 = 0 then channel + 1 else channel - 1

/-- The driver keeps to the period that it remembers. -/
def nu_pwm.determined (d : nu_pwm) (channel : ℕ) : Bool :=
  d.chn_mask &&& 1#32 <<< pair channel ≠ 0 && PWM_GET_CNR d.base (pair channel) ≠ 0

/-- The period that `nu_pwm_set` goes by. -/
def nu_pwm.used (d : nu_pwm) (channel : ℕ) (period : BitVec 32) : BitVec 32 :=
  if d.determined channel then d.period_time else period

def nu_pwm_set (d : nu_pwm) (u32PWMClockSrc : BitVec 32) (channel : ℕ) (period pulse : BitVec 32) :
    ℤ × nu_pwm :=
  if period = 0 then (-RT_ERROR, d)
  else
    let period := d.used channel period
    -- the remembered period is stored again where it was used
    (RT_EOK,
      { d with
        base := PWM_ConfigOutputChannel d.base u32PWMClockSrc channel (1000000000 / period)
          (pulse * 100 / period)
        period_time := period })

/-- What a request asks for. -/
inductive Command
  | enable
  | disable
  | set (period pulse : BitVec 32)
deriving DecidableEq

def nu_pwm_control (d : nu_pwm) (u32PWMClockSrc : BitVec 32) (channel : ℕ) (cmd : Command) : ℤ × nu_pwm :=
  if channel < PWM_CHANNEL_NUM then
    match cmd with
    | .enable => nu_pwm_enable d channel true
    | .disable => nu_pwm_enable d channel false
    | .set period pulse => nu_pwm_set d u32PWMClockSrc channel period pulse
  else (-RT_EINVAL, d)

/-! ### Runs -/

/-- The device, and the period that each pair was last set with. -/
structure World where
  dev : nu_pwm
  told : ℕ → Option (BitVec 32)

/-- A request: its channel and its command. -/
abbrev Request := ℕ × Command

def World.step (clk : BitVec 32) (w : World) (r : Request) : World where
  dev := (nu_pwm_control w.dev clk r.1 r.2).2
  told := match r.2 with
    | .set period _ =>
      if r.1 < PWM_CHANNEL_NUM ∧ period ≠ 0 then
        Function.update w.told (r.1 / 2) (some (w.dev.used r.1 period))
      else w.told
    | _ => w.told

/-- Out of reset. -/
def World.boot : World :=
  ⟨⟨⟨fun _ => 0, fun _ => 0, fun _ => 0, 0, 0, 0, 0, 0⟩, 0, 0⟩, fun _ => none⟩

def World.enabled (w : World) (ch : ℕ) : Bool := w.dev.chn_mask.getLsbD ch

/-- The output of a channel, its times in steps of the clock. -/
structure Wave where
  running : Bool
  period : ℕ
  pulse : ℕ
deriving DecidableEq, Repr

def World.wave (w : World) (ch : ℕ) : Wave where
  running := w.dev.base.POEN.getLsbD ch && w.dev.base.CNTEN.getLsbD (ch / 2 * 2)
  period := ((PWM_GET_CNR w.dev.base ch).toNat + 1) * ((w.dev.base.CLKPSC (ch / 2)).toNat + 1)
  pulse := (w.dev.base.CMPDAT ch).toNat * ((w.dev.base.CLKPSC (ch / 2)).toNat + 1)

/-- The enabled channels that the request does not name stay as they are, and a channel that is set
while its partner runs has the period that the partner runs with. -/
def World.Keeps (clk : BitVec 32) (w : World) (r : Request) : Prop :=
  (∀ ch, w.enabled ch → ch ≠ r.1 → (w.step clk r).wave ch = w.wave ch) ∧
  ∀ period pulse, r.2 = .set period pulse → r.1 < PWM_CHANNEL_NUM → (w.wave (pair r.1)).running →
    ((w.step clk r).wave r.1).period = (w.wave (pair r.1)).period

/-- No channel is disabled whose partner is enabled, and when one is set whose partner is enabled,
the period that the driver goes by is the one that their pair was last set with. -/
def World.Clean (w : World) (r : Request) : Prop :=
  r.1 < PWM_CHANNEL_NUM → w.enabled (pair r.1) →
    match r.2 with
    | .enable => True
    | .disable => False
    | .set period _ => period ≠ 0 → w.told (r.1 / 2) = some (w.dev.used r.1 period)

instance (w : World) (r : Request) : Decidable (w.Clean r) := by
  obtain ⟨ch, _ | _ | ⟨period, pulse⟩⟩ := r <;> unfold World.Clean <;> infer_instance

/-! ### One request -/

variable {clk : BitVec 32} {w : World}

/-- An enabled channel is on, its counter runs, and a pair has the registers for the period that it
was last set with. -/
structure Inv (clk : BitVec 32) (w : World) : Prop where
  on : ∀ ch, w.dev.base.POEN.getLsbD ch = w.enabled ch
  counts : ∀ ch, w.enabled ch → w.dev.base.CNTEN.getLsbD (ch / 2 * 2) = true
  few : ∀ ch, w.enabled ch → ch < PWM_CHANNEL_NUM
  programmed : ∀ k p, w.told k = some p →
    w.dev.base.CLKPSC k = ((prescale clk (1000000000 / p) 0xFFE 1).1 - 1).setWidth 32 ∧
    w.dev.base.PERIOD (k * 2) = ((prescale clk (1000000000 / p) 0xFFE 1).2 - 1).setWidth 32

theorem Inv.boot (clk : BitVec 32) : Inv clk .boot where
  on _ := rfl
  counts ch h := by simp [World.enabled, World.boot] at h
  few ch h := by simp [World.enabled, World.boot] at h
  programmed k p h := by cases h

theorem PWM_Start_one (pwm : PWM_T) {ch : ℕ} (h : ch < PWM_CHANNEL_NUM) :
    PWM_Start pwm (1#32 <<< ch) = { pwm with CNTEN := pwm.CNTEN ||| 1#32 <<< (ch / 2 * 2) } := by
  unfold PWM_CHANNEL_NUM at h
  interval_cases ch <;> rfl

theorem PWM_ForceStop_one (pwm : PWM_T) {ch : ℕ} (h : ch < PWM_CHANNEL_NUM) :
    PWM_ForceStop pwm (1#32 <<< ch) =
      { pwm with CNTEN := pwm.CNTEN &&& ~~~(1#32 <<< (ch / 2 * 2)) } := by
  unfold PWM_CHANNEL_NUM at h
  interval_cases ch <;> rfl

theorem pair_half (ch : ℕ) : pair ch / 2 = ch / 2 := by
  unfold pair
  split <;> omega

/-- Two channels of one pair are the same, or partners. -/
theorem eq_pair {ch c : ℕ} (h : c / 2 = ch / 2) (hne : c ≠ ch) : c = pair ch := by
  unfold pair
  split <;> omega

theorem getLsbD_or_bit (x : BitVec 32) {k : ℕ} (hk : k < 32) (j : ℕ) :
    (x ||| 1#32 <<< k).getLsbD j = (x.getLsbD j || decide (j = k)) := by
  rw [getLsbD_setBit]
  by_cases hj : j = k
  · simp [hj, hk]
  · simp [hj]

/-- The even channel of the pair. -/
theorem even_eq {c ch : ℕ} : c / 2 * 2 = ch / 2 * 2 ↔ c / 2 = ch / 2 := by omega

theorem step_enable {ch : ℕ} (hch : ch < PWM_CHANNEL_NUM) :
    w.step clk (ch, .enable) =
      { w with dev := { w.dev with
          base := { w.dev.base with
            POEN := w.dev.base.POEN ||| 1#32 <<< ch
            CNTEN := w.dev.base.CNTEN ||| 1#32 <<< (ch / 2 * 2) }
          chn_mask := w.dev.chn_mask ||| 1#32 <<< ch } } := by
  simp [World.step, nu_pwm_control, hch, nu_pwm_enable, PWM_Start_one _ hch, PWM_EnableOutput]

theorem step_disable {ch : ℕ} (hch : ch < PWM_CHANNEL_NUM) :
    w.step clk (ch, .disable) =
      { w with dev := { w.dev with
          base := { w.dev.base with
            POEN := w.dev.base.POEN &&& ~~~(1#32 <<< ch)
            CNTEN := w.dev.base.CNTEN &&& ~~~(1#32 <<< (ch / 2 * 2)) }
          chn_mask := w.dev.chn_mask &&& ~~~(1#32 <<< ch) } } := by
  simp [World.step, nu_pwm_control, hch, nu_pwm_enable, PWM_ForceStop_one _ hch, PWM_DisableOutput]

/-- An enable starts a counter that runs already where the partner is enabled. -/
theorem Inv.enable (h : Inv clk w) {ch : ℕ} (hch : ch < PWM_CHANNEL_NUM) :
    Inv clk (w.step clk (ch, .enable)) ∧ w.Keeps clk (ch, .enable) := by
  have hword : ch < 32 := Nat.lt_trans hch (by decide)
  have heven : ch / 2 * 2 < 32 := by omega
  rw [World.Keeps, step_enable hch]
  refine ⟨⟨fun c => ?_, fun c hc => ?_, fun c hc => ?_, h.programmed⟩, fun c hc hne => ?_,
    fun period pulse hset => nomatch hset⟩
  · simp only [World.enabled, getLsbD_or_bit _ hword]
    exact congrArg (· || decide (c = ch)) (h.on c)
  · simp only [World.enabled, getLsbD_or_bit _ hword, Bool.or_eq_true, decide_eq_true_eq] at hc
    simp only [getLsbD_or_bit _ heven, Bool.or_eq_true, decide_eq_true_eq]
    exact hc.imp (h.counts c) fun hc => by rw [hc]
  · simp only [World.enabled, getLsbD_or_bit _ hword, Bool.or_eq_true, decide_eq_true_eq] at hc
    exact hc.elim (h.few c) fun hc => hc ▸ hch
  · have hcount := h.counts c hc
    simp only [World.wave, getLsbD_or_bit _ hword, getLsbD_or_bit _ heven, hcount, decide_eq_false hne,
      Bool.or_false, Bool.true_or]
    rfl

/-- A disable stops the counter of the pair: no other channel needs it. -/
theorem Inv.disable (h : Inv clk w) {ch : ℕ} (hch : ch < PWM_CHANNEL_NUM)
    (hpair : w.enabled (pair ch) = false) :
    Inv clk (w.step clk (ch, .disable)) ∧ w.Keeps clk (ch, .disable) := by
  -- an enabled channel other than the one that is named is of another pair
  have hother {c : ℕ} (hc : w.enabled c = true) (hne : c ≠ ch) : c / 2 * 2 ≠ ch / 2 * 2 := by
    intro heq
    rw [eq_pair (even_eq.1 heq) hne, hpair] at hc
    exact Bool.false_ne_true hc
  rw [World.Keeps, step_disable hch]
  refine ⟨⟨fun c => ?_, fun c hc => ?_, fun c hc => ?_, h.programmed⟩, fun c hc hne => ?_,
    fun period pulse hset => nomatch hset⟩
  · simp only [World.enabled, getLsbD_clearBit]
    exact congrArg (· && decide (c ≠ ch)) (h.on c)
  · simp only [World.enabled, getLsbD_clearBit, Bool.and_eq_true, decide_eq_true_eq] at hc
    simp only [getLsbD_clearBit, Bool.and_eq_true, decide_eq_true_eq]
    exact ⟨h.counts c hc.1, hother hc.1 hc.2⟩
  · simp only [World.enabled, getLsbD_clearBit, Bool.and_eq_true, decide_eq_true_eq] at hc
    exact h.few c hc.1
  · have heven := hother hc hne
    simp only [World.wave, getLsbD_clearBit, decide_eq_true heven, decide_eq_true hne, Bool.and_true]
    rfl

/-- The registers of a pair, and the compare value of the channel. -/
theorem PWM_ConfigOutputChannel_eq (clk : BitVec 32) (pwm : PWM_T) (freq duty : BitVec 32) (ch : ℕ) :
    ∃ cmr, (PWM_ConfigOutputChannel pwm clk ch freq duty).CLKPSC =
      Function.update pwm.CLKPSC (ch / 2) (((prescale clk freq 0xFFE 1).1 - 1).setWidth 32) ∧
    (PWM_ConfigOutputChannel pwm clk ch freq duty).PERIOD =
      Function.update pwm.PERIOD (ch / 2 * 2) (((prescale clk freq 0xFFE 1).2 - 1).setWidth 32) ∧
    (PWM_ConfigOutputChannel pwm clk ch freq duty).CMPDAT = Function.update pwm.CMPDAT ch cmr ∧
    (PWM_ConfigOutputChannel pwm clk ch freq duty).CNTEN = pwm.CNTEN ∧
    (PWM_ConfigOutputChannel pwm clk ch freq duty).POEN = pwm.POEN :=
  ⟨_, rfl, rfl, rfl, rfl, rfl⟩

/-- What a set does to a device, for the period that the driver goes by. -/
theorem step_set (clk : BitVec 32) (w : World) {ch : ℕ} {period : BitVec 32} (pulse : BitVec 32)
    (hch : ch < PWM_CHANNEL_NUM) (hp : period ≠ 0) :
    w.step clk (ch, .set period pulse) =
      ⟨{ w.dev with
          base := PWM_ConfigOutputChannel w.dev.base clk ch (1000000000 / w.dev.used ch period)
            (pulse * 100 / w.dev.used ch period)
          period_time := w.dev.used ch period },
        Function.update w.told (ch / 2) (some (w.dev.used ch period))⟩ := by
  simp only [World.step, nu_pwm_control, nu_pwm_set, if_pos hch, if_neg hp]
  rw [if_pos ⟨hch, hp⟩]

/-- The registers of the pair stay where the period that the driver goes by is the one that the pair
was last set with. -/
theorem Inv.set_same (h : Inv clk w) {ch : ℕ} {period : BitVec 32} (pulse : BitVec 32)
    (hch : ch < PWM_CHANNEL_NUM) (hp : period ≠ 0) {c : ℕ} (hc : c / 2 = ch / 2 → w.told (ch / 2) = some (w.dev.used ch period)) :
    (w.step clk (ch, .set period pulse)).dev.base.CLKPSC (c / 2) = w.dev.base.CLKPSC (c / 2) ∧
    PWM_GET_CNR (w.step clk (ch, .set period pulse)).dev.base c = PWM_GET_CNR w.dev.base c := by
  obtain ⟨_, hpsc, hcnr, -⟩ := PWM_ConfigOutputChannel_eq clk w.dev.base
    (1000000000 / w.dev.used ch period) (pulse * 100 / w.dev.used ch period) ch
  rw [step_set clk w pulse hch hp, PWM_GET_CNR, PWM_GET_CNR, hpsc, hcnr]
  by_cases hcc : c / 2 = ch / 2
  · obtain ⟨hpsc', hcnr'⟩ := h.programmed _ _ (hc hcc)
    rw [hcc, Function.update_self, Function.update_self]
    exact ⟨hpsc'.symm, hcnr'.symm⟩
  · rw [Function.update_of_ne hcc, Function.update_of_ne (mt even_eq.1 hcc)]
    exact ⟨rfl, rfl⟩

theorem Inv.set (h : Inv clk w) {ch : ℕ} {period pulse : BitVec 32} (hch : ch < PWM_CHANNEL_NUM)
    (hp : period ≠ 0) (hpair : w.enabled (pair ch) → w.told (ch / 2) = some (w.dev.used ch period)) :
    Inv clk (w.step clk (ch, .set period pulse)) ∧ w.Keeps clk (ch, .set period pulse) := by
  obtain ⟨cmr, hpsc, hcnr, hcmr, hcnten, hpoen⟩ := PWM_ConfigOutputChannel_eq clk w.dev.base
    (1000000000 / w.dev.used ch period) (pulse * 100 / w.dev.used ch period) ch
  have hstep := step_set clk w pulse hch hp
  refine ⟨⟨fun c => ?_, fun c hc => ?_, fun c hc => ?_, fun k p hk => ?_⟩, fun c hc hne => ?_,
    fun period' pulse' hset _ hrun => ?_⟩
  · rw [hstep, World.enabled, hpoen]
    exact h.on c
  · rw [hstep] at hc ⊢
    rw [hcnten]
    exact h.counts c hc
  · rw [hstep] at hc
    exact h.few c hc
  · have htold : (w.step clk (ch, .set period pulse)).told =
        Function.update w.told (ch / 2) (some (w.dev.used ch period)) := by rw [hstep]
    rw [htold] at hk
    rw [hstep, hpsc, hcnr]
    by_cases hkk : k = ch / 2
    · subst hkk
      rw [Function.update_self] at hk
      rw [Function.update_self, Function.update_self, Option.some.inj hk]
      exact ⟨rfl, rfl⟩
    · rw [Function.update_of_ne hkk] at hk
      rw [Function.update_of_ne hkk, Function.update_of_ne (by omega)]
      exact h.programmed k p hk
  -- the partner is the only other channel with these registers
  · obtain ⟨hpsc', hcnr'⟩ := h.set_same pulse hch hp (c := c)
      fun hcc => hpair (eq_pair hcc hne ▸ hc)
    have hon : (w.step clk (ch, .set period pulse)).dev.base.POEN = w.dev.base.POEN := by rw [hstep, hpoen]
    have hcounts : (w.step clk (ch, .set period pulse)).dev.base.CNTEN = w.dev.base.CNTEN := by
      rw [hstep, hcnten]
    have hpulse : (w.step clk (ch, .set period pulse)).dev.base.CMPDAT c = w.dev.base.CMPDAT c := by
      rw [hstep, hcmr, Function.update_of_ne hne]
    rw [World.wave, World.wave, hon, hcounts, hpsc', hcnr', hpulse]
  · have hen : w.enabled (pair ch) := by
      rw [← h.on]
      exact (Bool.and_eq_true_iff.1 hrun).1
    obtain ⟨hpsc', hcnr'⟩ := h.set_same pulse hch hp (c := ch) fun _ => hpair hen
    show (PWM_GET_CNR _ ch).toNat.succ * _ = (PWM_GET_CNR _ (pair ch)).toNat.succ * _
    rw [hpsc', hcnr', PWM_GET_CNR, PWM_GET_CNR, pair_half]

/-- A request that is refused changes nothing. -/
theorem step_refused (clk : BitVec 32) (w : World) {r : Request}
    (hr : ¬ r.1 < PWM_CHANNEL_NUM ∨ ∃ pulse, r.2 = .set 0 pulse) :
    w.step clk r = w := by
  obtain ⟨ch, cmd⟩ := r
  obtain hch | ⟨pulse, hcmd⟩ := hr
  · cases cmd <;> simp [World.step, nu_pwm_control, hch]
  · obtain rfl : cmd = .set 0 pulse := hcmd
    simp only [World.step, nu_pwm_control, nu_pwm_set, if_true, ne_eq, not_true_eq_false, and_false,
      if_false]
    split <;> rfl

theorem period_pair (w : World) (ch : ℕ) : (w.wave ch).period = (w.wave (pair ch)).period := by
  simp only [World.wave, PWM_GET_CNR, pair_half]

/-- **A step**: a clean request keeps the channels. -/
theorem Inv.step (h : Inv clk w) (r : Request) (hc : w.Clean r) :
    Inv clk (w.step clk r) ∧ w.Keeps clk r := by
  by_cases hr : ¬ r.1 < PWM_CHANNEL_NUM ∨ ∃ pulse, r.2 = .set 0 pulse
  · have hstep := step_refused clk w hr
    refine ⟨hstep.symm ▸ h, fun c _ _ => ?_, fun _ _ _ _ _ => ?_⟩ <;> rw [hstep]
    exact period_pair w r.1
  obtain ⟨ch, cmd⟩ := r
  rw [not_or, not_not] at hr
  obtain ⟨hch, hset⟩ := hr
  match cmd, hc hch, hset with
  | .enable, _, _ => exact h.enable hch
  | .disable, hno, _ => exact h.disable hch (Bool.eq_false_iff.2 hno)
  | .set period pulse, hsame, hset =>
    have hp : period ≠ 0 := by
      rintro rfl
      exact hset ⟨pulse, rfl⟩
    exact h.set hch hp fun hen => hsame hen hp

/-- **Runs**: while no channel is disabled whose partner is enabled, and none is set whose partner is
enabled when the driver goes by a period that their pair was not last set with, the enabled channels
change only when told to, and those that are set have the period of their pair. -/
theorem only_when_told (clk : BitVec 32) (rs : List Request)
    (hc : Guarded.Along (World.step clk) World.Clean .boot rs) :
    Guarded.Along (World.step clk) (World.Keeps clk) .boot rs :=
  hc.of_inv (fun _ r h hc => h.step r hc) (Inv.boot clk)

theorem only_when_told_pair :
    Guarded.Along (World.step 1000000) (World.Keeps 1000000) .boot
      [(0, .set 1000000 500000), (0, .enable), (1, .set 2000000 250000), (1, .enable)] :=
  only_when_told _ _ (by decide)

/-- Channel 0 runs when its partner is disabled, and stops; and it gets the period of channel 2 when
its partner is set. -/
theorem told_otherwise :
    ¬ Guarded.Along (World.step 1000000) (World.Keeps 1000000) .boot
      [(0, .set 1000000 500000), (0, .enable), (1, .disable)] ∧
    ¬ Guarded.Along (World.step 1000000) (World.Keeps 1000000) .boot
      [(0, .set 1000000 500000), (0, .enable), (2, .set 2000000 500000), (1, .set 1000000 500000)] := by
  constructor
  · intro h
    exact absurd (h.2.2.1.1 0 (by decide) (by decide)) (by decide)
  · intro h
    exact absurd (h.2.2.2.1.1 0 (by decide) (by decide)) (by decide)

end Pwm
