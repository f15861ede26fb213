/-
The audio configuration of the I2S driver: `drv_spii2s.c`.

A configure call stores into the configuration of the device and restarts the channel with it, and
the codec, which is not part of the driver, may refuse.  Of the restart only what it returns is
modelled: it changes no configuration.

* **`nu_spii2s_configure`**, **`nu_spii2s_getcaps`** — the driver;
* **`remember`** — what a caller takes to be configured, from the results alone;
* **`Kept`** — the calls after which the device has that configuration;
* **`faithful_iff`** — the sequences of calls that are remembered as they were made.
-/
import Mathlib.Data.BitVec
import NuMaker.Lib.Guarded

namespace I2s

def RT_EOK : ℤ := 0
def RT_ERROR : ℤ := 1
def RT_EINVAL : ℤ := 10

def AUDIO_TYPE_QUERY : ℤ := 0x00
def AUDIO_TYPE_INPUT : ℤ := 0x01
def AUDIO_TYPE_OUTPUT : ℤ := 0x02
def AUDIO_TYPE_MIXER : ℤ := 0x04
def AUDIO_DSP_PARAM : ℤ := 0
def AUDIO_DSP_SAMPLERATE : ℤ := 1
def AUDIO_DSP_CHANNELS : ℤ := 2
def AUDIO_DSP_SAMPLEBITS : ℤ := 3

/-- The streams. -/
inductive Stream | REPLAY | RECORD
  deriving DecidableEq

@[ext] structure rt_audio_configure where
  samplerate : BitVec 32
  channels : BitVec 16
  samplebits : BitVec 16
  deriving DecidableEq

/-- `struct rt_audio_caps`.  Of the union, `mask` and `value` are where the sample rate is. -/
structure rt_audio_caps where
  main_type : ℤ
  sub_type : ℤ
  config : rt_audio_configure

/-- What the functions of a codec give, those it has, at the time of a call.  They are handed the
configuration to look at. -/
structure Codec where
  nu_acodec_reset : Option ℤ
  nu_acodec_init : Option ℤ
  nu_acodec_dsp_control : Option (rt_audio_configure → ℤ)
  nu_acodec_mixer_query : Option (ℤ → BitVec 32 → ℤ × BitVec 32)

/-- The configuration of the device, and the one in the record of its codec. -/
structure nu_i2s where
  config : rt_audio_configure
  AcodecOps_config : rt_audio_configure

/-! ### The driver -/

def nu_spii2s_capacity_check (pconfig : rt_audio_configure) : Bool :=
  (pconfig.samplebits = 8 || pconfig.samplebits = 16 || pconfig.samplebits = 32) &&
    (pconfig.channels = 1 || pconfig.channels = 2)

def nu_spii2s_dai_setup (codec : Codec) (pconfig : rt_audio_configure) : ℤ :=
  if nu_spii2s_capacity_check pconfig then
    let result := codec.nu_acodec_reset.getD RT_EOK
    if result ≠ RT_EOK then result
    else
      match codec.nu_acodec_init with
      -- left with the result of the reset
      | none => result
      | some result =>
        if result ≠ RT_EOK then result
        else
          match codec.nu_acodec_dsp_control with
          | none => result
          | some dsp_control => dsp_control pconfig
  else -RT_EINVAL

def nu_spii2s_start (codec : Codec) (d : nu_i2s) : Stream → ℤ
  | .REPLAY | .RECORD =>
    if nu_spii2s_dai_setup codec d.config ≠ RT_EOK then -RT_ERROR else RT_EOK

/-- The result, and what `*caps` is then. -/
def nu_spii2s_getcaps (codec : Codec) (d : nu_i2s) (caps : rt_audio_caps) : ℤ × rt_audio_configure :=
  let u := caps.config
  if caps.main_type = AUDIO_TYPE_QUERY then
    if caps.sub_type = AUDIO_TYPE_QUERY then (RT_EOK, { u with samplerate := 1 ||| 2 ||| 4 })
    else (-RT_ERROR, u)
  else if caps.main_type = AUDIO_TYPE_MIXER then
    match codec.nu_acodec_mixer_query with
    | some mixer_query =>
      let (result, value) := mixer_query caps.sub_type u.samplerate
      (result, { u with samplerate := value })
    | none => (-RT_ERROR, u)
  else if caps.main_type = AUDIO_TYPE_INPUT ∨ caps.main_type = AUDIO_TYPE_OUTPUT then
    if caps.sub_type = AUDIO_DSP_PARAM then (RT_EOK, d.config)
    else if caps.sub_type = AUDIO_DSP_SAMPLERATE then
      (RT_EOK, { u with samplerate := d.config.samplerate })
    else if caps.sub_type = AUDIO_DSP_CHANNELS then
      (RT_EOK, { u with channels := d.config.channels })
    else if caps.sub_type = AUDIO_DSP_SAMPLEBITS then
      (RT_EOK, { u with samplebits := d.config.samplebits })
    else (-RT_ERROR, u)
  else (-RT_ERROR, u)

/-- The inner switch: the result so far, `bNeedReset`, and what is stored. -/
def store (d : nu_i2s) (caps : rt_audio_caps) : ℤ × Bool × nu_i2s :=
  let u := caps.config
  if caps.sub_type = AUDIO_DSP_PARAM then
    if d.config ≠ u then (RT_EOK, true, { d with config := u }) else (RT_EOK, false, d)
  else if caps.sub_type = AUDIO_DSP_SAMPLEBITS then
    -- the sample bits are compared with the rate, and stored there
    if d.config.samplerate ≠ u.samplebits.setWidth 32 then
      (RT_EOK, true, { d with config := { d.config with samplerate := u.samplebits.setWidth 32 } })
    else (RT_EOK, false, d)
  else if caps.sub_type = AUDIO_DSP_CHANNELS then
    -- the channels are stored in the record of the codec
    if d.config.channels ≠ u.channels then
      (RT_EOK, true, { d with AcodecOps_config := { d.AcodecOps_config with channels := u.channels } })
    else (RT_EOK, false, d)
  else if caps.sub_type = AUDIO_DSP_SAMPLERATE then
    if d.config.samplerate ≠ u.samplerate then
      (RT_EOK, true, { d with config := { d.config with samplerate := u.samplerate } })
    else (RT_EOK, false, d)
  else (-RT_ERROR, false, d)

def nu_spii2s_configure (codec : Codec) (d : nu_i2s) (caps : rt_audio_caps) : ℤ × nu_i2s :=
  if caps.main_type = AUDIO_TYPE_MIXER then (RT_EOK, d)
  else if caps.main_type = AUDIO_TYPE_INPUT ∨ caps.main_type = AUDIO_TYPE_OUTPUT then
    let stream := if caps.main_type = AUDIO_TYPE_INPUT then Stream.RECORD else Stream.REPLAY
    let (result, bNeedReset, d) := store d caps
    if bNeedReset then (nu_spii2s_start codec d stream, d) else (result, d)
  else (-RT_ERROR, d)

/-! ### What is to be remembered -/

/-- A configure call, with what the codec makes of it. -/
structure Call where
  codec : Codec
  caps : rt_audio_caps

/-- The call is about a stream. -/
def rt_audio_caps.Streams (caps : rt_audio_caps) : Prop :=
  caps.main_type = AUDIO_TYPE_INPUT ∨ caps.main_type = AUDIO_TYPE_OUTPUT

instance (caps : rt_audio_caps) : Decidable caps.Streams := inferInstanceAs (Decidable (_ ∨ _))

/-- A configuration with one parameter, or all of them, taken from another. -/
def put (m u : rt_audio_configure) (sub_type : ℤ) : rt_audio_configure :=
  if sub_type = AUDIO_DSP_PARAM then u
  else if sub_type = AUDIO_DSP_SAMPLERATE then { m with samplerate := u.samplerate }
  else if sub_type = AUDIO_DSP_CHANNELS then { m with channels := u.channels }
  else if sub_type = AUDIO_DSP_SAMPLEBITS then { m with samplebits := u.samplebits }
  else m

/-- A successful call configures its parameter, a failing one nothing. -/
def remember (m : rt_audio_configure) (caps : rt_audio_caps) (result : ℤ) : rt_audio_configure :=
  if result = RT_EOK ∧ caps.Streams then put m caps.config caps.sub_type else m

/-- The device after a call. -/
def next (d : nu_i2s) (c : Call) : nu_i2s := (nu_spii2s_configure c.codec d c.caps).2

/-- What is to be remembered after a call. -/
def spec (d : nu_i2s) (m : rt_audio_configure) (c : Call) : rt_audio_configure :=
  remember m c.caps (nu_spii2s_configure c.codec d c.caps).1

/-- `getcaps` gives the parameters of a configuration. -/
def Reports (d : nu_i2s) (m : rt_audio_configure) : Prop :=
  ∀ (codec : Codec) (caps : rt_audio_caps), caps.Streams →
    0 ≤ caps.sub_type → caps.sub_type ≤ 3 →
      nu_spii2s_getcaps codec d caps = (RT_EOK, put caps.config m caps.sub_type)

/-- In all the states of a run, `getcaps` gives what was last configured with success, and what the
device had at the beginning where nothing was. -/
def Faithful (d : nu_i2s) (calls : List Call) : Prop :=
  ∀ n, Reports ((calls.take n).foldl next d) (Guarded.shadow next spec d d.config (calls.take n))

/-! ### The calls that are remembered -/

/-- The channel can be started with a configuration. -/
def Accepts (codec : Codec) (config : rt_audio_configure) : Prop :=
  nu_spii2s_capacity_check config = true ∧ codec.nu_acodec_reset.getD RT_EOK = RT_EOK ∧
    ∀ result, codec.nu_acodec_init = some result → result = RT_EOK ∧
      ∀ dsp_control, codec.nu_acodec_dsp_control = some dsp_control → dsp_control config = RT_EOK

/-- A call after which the device has the configuration that is to be remembered. -/
def Kept (d : nu_i2s) (c : Call) : Prop :=
  c.caps.Streams →
    (c.caps.sub_type = AUDIO_DSP_PARAM →
      d.config = c.caps.config ∨ Accepts c.codec c.caps.config) ∧
    (c.caps.sub_type = AUDIO_DSP_SAMPLERATE →
      d.config.samplerate = c.caps.config.samplerate ∨
        Accepts c.codec { d.config with samplerate := c.caps.config.samplerate }) ∧
    (c.caps.sub_type = AUDIO_DSP_CHANNELS →
      d.config.channels = c.caps.config.channels ∨ ¬ Accepts c.codec d.config) ∧
    (c.caps.sub_type = AUDIO_DSP_SAMPLEBITS →
      d.config.samplerate = c.caps.config.samplebits.setWidth 32 ∧
        d.config.samplebits = c.caps.config.samplebits)

section Kept

variable {d d' : nu_i2s} {c : Call}

theorem start_eq_ok_iff (codec : Codec) (d : nu_i2s) (stream : Stream) :
    nu_spii2s_start codec d stream = RT_EOK ↔ Accepts codec d.config := by
  have hstart : nu_spii2s_start codec d stream = RT_EOK ↔
      nu_spii2s_dai_setup codec d.config = RT_EOK := by
    cases stream <;> simp only [nu_spii2s_start] <;> split <;> simp_all [RT_EOK, RT_ERROR]
  rw [hstart, nu_spii2s_dai_setup, Accepts]
  by_cases hcap : nu_spii2s_capacity_check d.config = true
  · rw [if_pos hcap]
    by_cases hreset : codec.nu_acodec_reset.getD RT_EOK = RT_EOK
    · -- the codec may lack the functions that come after the reset
      cases hinit : codec.nu_acodec_init with
      | none => simp [hcap, hreset]
      | some result =>
        by_cases hresult : result = RT_EOK
        · cases hdsp : codec.nu_acodec_dsp_control <;> simp [hcap, hreset, hresult]
        · simp [hcap, hreset, hresult]
    · simp [hcap, hreset]
  · simp [hcap, RT_EINVAL, RT_EOK]

theorem configure_of_streams (hs : c.caps.Streams) :
    nu_spii2s_configure c.codec d c.caps =
      let stream := if c.caps.main_type = AUDIO_TYPE_INPUT then Stream.RECORD else Stream.REPLAY
      if (store d c.caps).2.1 then
        (nu_spii2s_start c.codec (store d c.caps).2.2 stream, (store d c.caps).2.2)
      else ((store d c.caps).1, (store d c.caps).2.2) := by
  have hmixer : c.caps.main_type ≠ AUDIO_TYPE_MIXER := by
    rintro h
    rcases hs with hs | hs <;> rw [h] at hs <;> exact absurd hs (by decide)
  have hstreams : c.caps.main_type = AUDIO_TYPE_INPUT ∨ c.caps.main_type = AUDIO_TYPE_OUTPUT := hs
  rw [nu_spii2s_configure, if_neg hmixer, if_pos hstreams]

/-- A call that is about no stream changes nothing. -/
theorem kept_of_not_streams (hs : ¬ c.caps.Streams) : (next d c).config = spec d d.config c := by
  have hnext : (next d c).config = d.config := by
    rw [next, nu_spii2s_configure]
    have hstreams : ¬ (c.caps.main_type = AUDIO_TYPE_INPUT ∨ c.caps.main_type = AUDIO_TYPE_OUTPUT) :=
      hs
    rw [if_neg hstreams]
    split <;> rfl
  rw [hnext, spec, remember, if_neg fun h => hs h.2]

/-- Where the channel is started again, what is stored has to be what was asked for, and stays also
where the start fails. -/
theorem kept_iff_of_restart (hs : c.caps.Streams) (hstore : store d c.caps = (RT_EOK, true, d')) :
    (next d c).config = spec d d.config c ↔
      (Accepts c.codec d'.config → d'.config = put d.config c.caps.config c.caps.sub_type) ∧
      (¬ Accepts c.codec d'.config → d'.config = d.config) := by
  have hcond (stream : Stream) :
      (nu_spii2s_start c.codec d' stream = RT_EOK ∧ c.caps.Streams) ↔ Accepts c.codec d'.config := by
    rw [start_eq_ok_iff, and_iff_left hs]
  rw [next, spec, configure_of_streams hs, hstore]
  by_cases hacc : Accepts c.codec d'.config
  · simp only [if_true, remember, if_pos ((hcond _).mpr hacc)]
    exact ⟨fun h => ⟨fun _ => h, fun hnot => absurd hacc hnot⟩, fun h => h.1 hacc⟩
  · simp only [if_true, remember, if_neg (mt (hcond _).mp hacc)]
    exact ⟨fun h => ⟨fun hpos => absurd hpos hacc, fun _ => h⟩, fun h => h.2 hacc⟩

theorem kept_iff_of_same (hs : c.caps.Streams) (hstore : store d c.caps = (RT_EOK, false, d)) :
    (next d c).config = spec d d.config c ↔
      d.config = put d.config c.caps.config c.caps.sub_type := by
  rw [next, spec, configure_of_streams hs, hstore]
  simp [remember, hs]

/-- A parameter that is compared with its own field, and stored there. -/
theorem kept_iff_of_put (hs : c.caps.Streams) {p : rt_audio_configure}
    (hp : put d.config c.caps.config c.caps.sub_type = p)
    (hstore : store d c.caps =
      if d.config = p then (RT_EOK, false, d) else (RT_EOK, true, { d with config := p })) :
    (next d c).config = spec d d.config c ↔ d.config = p ∨ Accepts c.codec p := by
  by_cases heq : d.config = p
  · rw [if_pos heq] at hstore
    rw [kept_iff_of_same hs hstore, hp]
    exact iff_of_true heq (Or.inl heq)
  · rw [if_neg heq] at hstore
    rw [kept_iff_of_restart hs hstore, hp, or_iff_right heq]
    refine ⟨fun h => ?_, fun hacc => ⟨fun _ => rfl, fun hnot => absurd hacc hnot⟩⟩
    by_contra hacc
    exact heq (h.2 hacc).symm

theorem kept_param (hs : c.caps.Streams) (h : c.caps.sub_type = AUDIO_DSP_PARAM) :
    (next d c).config = spec d d.config c ↔
      d.config = c.caps.config ∨ Accepts c.codec c.caps.config := by
  refine kept_iff_of_put hs (by rw [h]; rfl) ?_
  by_cases heq : d.config = c.caps.config <;> simp [store, h, heq]

theorem kept_samplerate (hs : c.caps.Streams) (h : c.caps.sub_type = AUDIO_DSP_SAMPLERATE) :
    (next d c).config = spec d d.config c ↔
      d.config.samplerate = c.caps.config.samplerate ∨
        Accepts c.codec { d.config with samplerate := c.caps.config.samplerate } := by
  have hfield : d.config = { d.config with samplerate := c.caps.config.samplerate } ↔
      d.config.samplerate = c.caps.config.samplerate :=
    ⟨fun he => congrArg (·.samplerate) he, fun he => rt_audio_configure.ext he rfl rfl⟩
  rw [← hfield]
  refine kept_iff_of_put hs (by rw [h]; rfl) ?_
  by_cases heq : d.config.samplerate = c.caps.config.samplerate
  · rw [if_pos (hfield.mpr heq)]
    simp [store, h, heq, AUDIO_DSP_SAMPLERATE, AUDIO_DSP_PARAM, AUDIO_DSP_SAMPLEBITS,
      AUDIO_DSP_CHANNELS]
  · rw [if_neg (mt hfield.mp heq)]
    simp [store, h, heq, AUDIO_DSP_SAMPLERATE, AUDIO_DSP_PARAM, AUDIO_DSP_SAMPLEBITS,
      AUDIO_DSP_CHANNELS]

/-- A new number of channels is not stored in the device, and remembered where the start fails. -/
theorem kept_channels (hs : c.caps.Streams) (h : c.caps.sub_type = AUDIO_DSP_CHANNELS) :
    (next d c).config = spec d d.config c ↔
      d.config.channels = c.caps.config.channels ∨ ¬ Accepts c.codec d.config := by
  have hput : put d.config c.caps.config c.caps.sub_type =
      { d.config with channels := c.caps.config.channels } := by
    rw [h]
    rfl
  have hfield : d.config = { d.config with channels := c.caps.config.channels } ↔
      d.config.channels = c.caps.config.channels :=
    ⟨fun he => congrArg (·.channels) he, fun he => rt_audio_configure.ext rfl he rfl⟩
  by_cases heq : d.config.channels = c.caps.config.channels
  · have hstore : store d c.caps = (RT_EOK, false, d) := by
      simp [store, h, heq, AUDIO_DSP_PARAM, AUDIO_DSP_SAMPLEBITS, AUDIO_DSP_CHANNELS]
    rw [kept_iff_of_same hs hstore, hput, hfield]
    exact iff_of_true heq (Or.inl heq)
  · have hstore : store d c.caps = (RT_EOK, true,
        { d with AcodecOps_config := { d.AcodecOps_config with
          channels := c.caps.config.channels } }) := by
      simp [store, h, heq, AUDIO_DSP_PARAM, AUDIO_DSP_SAMPLEBITS, AUDIO_DSP_CHANNELS]
    rw [kept_iff_of_restart hs hstore, hput, or_iff_right heq]
    exact ⟨fun hk hacc => heq (hfield.mp (hk.1 hacc)),
      fun hacc => ⟨fun hpos => absurd hpos hacc, fun _ => rfl⟩⟩

/-- Sample bits are remembered only where they are what the device has, and its rate too. -/
theorem kept_samplebits (hs : c.caps.Streams) (h : c.caps.sub_type = AUDIO_DSP_SAMPLEBITS) :
    (next d c).config = spec d d.config c ↔
      d.config.samplerate = c.caps.config.samplebits.setWidth 32 ∧
        d.config.samplebits = c.caps.config.samplebits := by
  have hput : put d.config c.caps.config c.caps.sub_type =
      { d.config with samplebits := c.caps.config.samplebits } := by
    rw [h]
    rfl
  by_cases heq : d.config.samplerate = c.caps.config.samplebits.setWidth 32
  · have hstore : store d c.caps = (RT_EOK, false, d) := by
      simp [store, h, heq, AUDIO_DSP_PARAM, AUDIO_DSP_SAMPLEBITS]
    rw [kept_iff_of_same hs hstore, hput, and_iff_right heq]
    exact ⟨fun he => congrArg (·.samplebits) he, fun he => rt_audio_configure.ext rfl rfl he⟩
  · have hstore : store d c.caps = (RT_EOK, true,
        { d with config := { d.config with
          samplerate := c.caps.config.samplebits.setWidth 32 } }) := by
      simp [store, h, heq, AUDIO_DSP_PARAM, AUDIO_DSP_SAMPLEBITS]
    -- the rate is another one, whether the start succeeds or not
    rw [kept_iff_of_restart hs hstore, hput]
    refine iff_of_false (fun hk => heq ?_) fun hk => heq hk.1
    by_cases hacc : Accepts c.codec
        { d.config with samplerate := c.caps.config.samplebits.setWidth 32 }
    · exact (congrArg (·.samplerate) (hk.1 hacc)).symm
    · exact (congrArg (·.samplerate) (hk.2 hacc)).symm

/-- A parameter that there is not is refused. -/
theorem kept_of_other (hs : c.caps.Streams) (hparam : c.caps.sub_type ≠ AUDIO_DSP_PARAM)
    (hrate : c.caps.sub_type ≠ AUDIO_DSP_SAMPLERATE)
    (hchannels : c.caps.sub_type ≠ AUDIO_DSP_CHANNELS)
    (hbits : c.caps.sub_type ≠ AUDIO_DSP_SAMPLEBITS) : (next d c).config = spec d d.config c := by
  have hstore : store d c.caps = (-RT_ERROR, false, d) := by
    rw [store, if_neg hparam, if_neg hbits, if_neg hchannels, if_neg hrate]
  rw [next, spec, configure_of_streams hs, hstore]
  simp [remember, RT_ERROR, RT_EOK]

/-- **Which calls are remembered as they were made.** -/
theorem kept_iff (d : nu_i2s) (c : Call) : (next d c).config = spec d d.config c ↔ Kept d c := by
  by_cases hs : c.caps.Streams
  swap
  · exact iff_of_true (kept_of_not_streams hs) fun h => absurd h hs
  have hkept : Kept d c ↔ _ := forall_prop_of_true hs
  rw [hkept]
  by_cases hparam : c.caps.sub_type = AUDIO_DSP_PARAM
  · rw [kept_param hs hparam]
    simp [hparam, AUDIO_DSP_PARAM, AUDIO_DSP_SAMPLERATE, AUDIO_DSP_CHANNELS, AUDIO_DSP_SAMPLEBITS]
  by_cases hrate : c.caps.sub_type = AUDIO_DSP_SAMPLERATE
  · rw [kept_samplerate hs hrate]
    simp [hrate, AUDIO_DSP_PARAM, AUDIO_DSP_SAMPLERATE, AUDIO_DSP_CHANNELS, AUDIO_DSP_SAMPLEBITS]
  by_cases hchannels : c.caps.sub_type = AUDIO_DSP_CHANNELS
  · rw [kept_channels hs hchannels]
    simp [hchannels, AUDIO_DSP_PARAM, AUDIO_DSP_SAMPLERATE, AUDIO_DSP_CHANNELS,
      AUDIO_DSP_SAMPLEBITS]
  by_cases hbits : c.caps.sub_type = AUDIO_DSP_SAMPLEBITS
  · rw [kept_samplebits hs hbits]
    simp [hbits, AUDIO_DSP_PARAM, AUDIO_DSP_SAMPLERATE, AUDIO_DSP_CHANNELS, AUDIO_DSP_SAMPLEBITS]
  refine iff_of_true (kept_of_other hs hparam hrate hchannels hbits) ⟨?_, ?_, ?_, ?_⟩
  · exact fun h => absurd h hparam
  · exact fun h => absurd h hrate
  · exact fun h => absurd h hchannels
  · exact fun h => absurd h hbits

end Kept

/-! ### Runs -/

/-- `getcaps` gives what the device has. -/
theorem getcaps_reports_iff (d : nu_i2s) (m : rt_audio_configure) : Reports d m ↔ d.config = m := by
  constructor
  · intro h
    have hall := h ⟨none, none, none, none⟩ ⟨AUDIO_TYPE_INPUT, AUDIO_DSP_PARAM, m⟩ (Or.inl rfl)
      le_rfl (show (0 : ℤ) ≤ 3 by decide)
    exact congrArg Prod.snd hall
  · rintro rfl codec caps hs h0 h3
    have hquery : caps.main_type ≠ AUDIO_TYPE_QUERY := by
      rintro h
      rcases hs with hs | hs <;> rw [h] at hs <;> exact absurd hs (by decide)
    have hmixer : caps.main_type ≠ AUDIO_TYPE_MIXER := by
      rintro h
      rcases hs with hs | hs <;> rw [h] at hs <;> exact absurd hs (by decide)
    have hstreams : caps.main_type = AUDIO_TYPE_INPUT ∨ caps.main_type = AUDIO_TYPE_OUTPUT := hs
    rw [nu_spii2s_getcaps, if_neg hquery, if_neg hmixer, if_pos hstreams, put]
    simp only [AUDIO_DSP_PARAM, AUDIO_DSP_SAMPLERATE, AUDIO_DSP_CHANNELS, AUDIO_DSP_SAMPLEBITS]
    obtain h | h | h | h : caps.sub_type = 0 ∨ caps.sub_type = 1 ∨ caps.sub_type = 2 ∨
        caps.sub_type = 3 := by omega
    all_goals simp [h]

/-- **A sequence of calls is remembered as it was made iff each of its calls is**, in the state in which
it is made. -/
theorem faithful_iff (d : nu_i2s) (calls : List Call) :
    Faithful d calls ↔ Guarded.Along next Kept d calls := by
  have hsteps : Faithful d calls ↔
      Guarded.Along next (fun d c => (next d c).config = spec d d.config c) d calls := by
    rw [← Guarded.follows_iff]
    exact forall_congr' fun n => getcaps_reports_iff _ _
  rw [hsteps]
  exact ⟨fun h => h.mono fun d c => (kept_iff d c).mp, fun h => h.mono fun d c => (kept_iff d c).mpr⟩

/-- A codec that does as it is told. -/
def goodCodec : Codec := ⟨some 0, some 0, some fun _ => 0, none⟩

/-- Stereo is set with success, and there is one channel still. -/
theorem faithful_not_stereo : ¬ ∀ d calls, Faithful d calls := by
  intro h
  have hrun := h ⟨⟨44100, 1, 16⟩, ⟨44100, 1, 16⟩⟩
    [⟨goodCodec, ⟨AUDIO_TYPE_OUTPUT, AUDIO_DSP_CHANNELS, ⟨0, 2, 0⟩⟩⟩] 1
  have hconfig := (getcaps_reports_iff _ _).mp hrun
  exact absurd (congrArg (·.channels) hconfig) (by decide)

end I2s
