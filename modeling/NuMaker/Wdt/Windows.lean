/-
The windows of the watchdog.

The handler resets the counter through a window of `full_iterations` interrupts, and once more,
for another window, if there was a keepalive in it.

* **`feedsLeft`**, **`irqHandler_spec`** — how many more interrupts the handler will answer;
* **`Inv`**, **`run_inv`** — what that has to do with the time that has passed.
-/
import NuMaker.Wdt.Driver

namespace Wdt

/-! ### Feeding -/

/-- The interrupts at which the handler will still reset the counter, if nothing is called. -/
def feedsLeft (s : soft_time_handle) : ℕ :=
  s.left_iterations.toNat + if s.feed_dog && !s.expired then s.full_iterations.toNat + 1 else 0

/-- The handler resets the counter. -/
def Feeds (s : soft_time_handle) : Prop := (WDT_IRQHandler s).1 = true

instance (s : soft_time_handle) : Decidable (Feeds s) := inferInstanceAs (Decidable (_ = true))

/-- **One interrupt uses up one feed**, as long as there are any. -/
theorem irqHandler_spec (s : soft_time_handle) :
    Feeds s ∧ feedsLeft (WDT_IRQHandler s).2 + 1 = feedsLeft s ∨
      ¬ Feeds s ∧ feedsLeft s = 0 ∧ feedsLeft (WDT_IRQHandler s).2 = 0 := by
  obtain ⟨hz, wanted, report, left, full, expired, feed⟩ := s
  unfold Feeds WDT_IRQHandler
  by_cases hleft : left > 0
  · left
    simp only [hleft, if_true, feedsLeft, true_and]
    omega
  · by_cases hfeed : (feed && !expired) = true
    · left
      simp only [hleft, if_false, hfeed, if_true, feedsLeft, true_and, Bool.false_and,
        Bool.false_eq_true]
      omega
    · right
      simp only [hleft, if_false, hfeed, feedsLeft, Bool.not_true, Bool.and_false,
        Bool.false_eq_true, not_false_eq_true, true_and]
      omega

theorem feeds_iff (s : soft_time_handle) : Feeds s ↔ 0 < feedsLeft s := by
  rcases irqHandler_spec s with ⟨h1, h2⟩ | ⟨h1, h2, -⟩
  · exact ⟨fun _ => by omega, fun _ => h1⟩
  · exact ⟨fun h => absurd h h1, fun h => by omega⟩

/-- What the handler leaves alone, and what it does to the rest. -/
theorem irqHandler_fields (s : soft_time_handle) :
    (WDT_IRQHandler s).2.full_iterations = s.full_iterations ∧
      ((WDT_IRQHandler s).2.left_iterations < s.left_iterations ∨
        (WDT_IRQHandler s).2.left_iterations = s.full_iterations ∧ s.expired = false ∧
          Feeds s) ∧
      (WDT_IRQHandler s).2.expired = (s.expired || !decide (Feeds s)) := by
  obtain ⟨hz, wanted, report, left, full, expired, feed⟩ := s
  unfold Feeds WDT_IRQHandler
  by_cases hleft : left > 0
  · simp [hleft]
  · by_cases hfeed : (feed && !expired) = true
    · have hexp : expired = false := by
        cases expired
        · rfl
        · simp at hfeed
      have hfed : feed = true := by
        cases feed
        · simp at hfeed
        · rfl
      simp [hleft, hexp, hfed]
    · simp [hleft, hfeed]

/-! ### The invariant -/

/-- The length of a window, in interrupts short of one. -/
def World.window (w : World) : ℕ := w.soft.full_iterations.toNat

/-- The feeds owed after a keepalive, or after the timeout was set. -/
def World.due (w : World) : ℕ := w.window + if w.kept then 1 else 0

/-- How far the hardware is on the way to its next interrupt. -/
def Hardware.progress (hw : Hardware) : ℕ := if hw.pending then MIN_CYCLES else hw.count

/-- Feeds that are used up have taken their time, a period each after the first. -/
def Paced (due feeds since : ℕ) (hw : Hardware) : Prop :=
  due ≤ feeds ∨ (hw.pending = true ∨ hw.count < MIN_CYCLES) ∧
    MIN_CYCLES * due + hw.progress ≤ MIN_CYCLES * feeds + since + MIN_CYCLES

/-- The feeds there can be after a keepalive, or after the timeout was set. -/
def World.most (w : World) : ℕ := if w.kept then 2 * w.window + 1 else w.window

structure Inv (hz : BitVec 32) (w : World) : Prop where
  full : w.soft.full_iterations = CONV_SEC_TO_IT hz w.wanted
  left : w.soft.left_iterations.toNat ≤ w.window
  gone : w.soft.expired = true → w.soft.left_iterations ≤ 0
  bound : feedsLeft w.soft + w.fed ≤ w.most
  paced : w.soft.expired = false → Paced w.due (feedsLeft w.soft) w.since w.hw
  count : w.reset = false → w.hw.count < MIN_CYCLES + RESET_DELAY

variable {hz : BitVec 32} {w : World}

theorem conv_zero (hz : BitVec 32) : CONV_SEC_TO_IT hz 0 = 0 := by
  have h5 : float 5 = 5 := float_eq (by norm_num) (representable_nat (n := 5) (by norm_num))
  have hhalf : float (5 / 10) = 5 / 10 := by
    refine float_eq (by norm_num) ⟨1, -1, by norm_num, by norm_num⟩
  have h0 : float 0 = 0 := roundTo_zero 24
  simp [CONV_SEC_TO_IT, ROUND_TO_INTEGER, h0, h5, hhalf, toInt]
  norm_num

theorem Inv.boot (hz : BitVec 32) : Inv hz World.boot where
  full := (conv_zero hz).symm
  left := le_refl 0
  gone := by decide
  bound := le_refl 0
  paced _ := Or.inl (le_refl 0)
  count _ := by decide

/-- A cycle brings the interrupt one nearer at most. -/
theorem Paced.tick {due feeds since : ℕ} {hw : Hardware} (h : Paced due feeds since hw) :
    Paced due feeds (since + 1) { hw with
      count := hw.count + 1
      pending := hw.pending || hw.count + 1 == MIN_CYCLES } := by
  rcases h with h | ⟨hp, hle⟩
  · exact Or.inl h
  · right
    cases hpend : hw.pending with
    | true =>
      simp only [Hardware.progress, hpend, if_true] at hle
      simp only [Hardware.progress, Bool.true_or, true_or, if_true, true_and]
      omega
    | false =>
      have hlt : hw.count < MIN_CYCLES := hp.resolve_left (by rw [hpend]; decide)
      simp only [Hardware.progress, hpend, Bool.false_eq_true, if_false] at hle
      by_cases heq : hw.count + 1 = MIN_CYCLES
      · simp only [Hardware.progress, heq, beq_self_eq_true, Bool.or_true, true_or, if_true,
          true_and]
        omega
      · simp only [Hardware.progress, beq_iff_eq, heq, Bool.false_or, false_or, if_false]
        omega

/-- An interrupt uses up a feed. -/
theorem Paced.irq {due feeds since : ℕ} {hw : Hardware} (h : Paced due (feeds + 1) since hw)
    (hp : hw.pending = true) :
    Paced due feeds since { hw with pending := false, count := 0 } := by
  right
  refine ⟨Or.inr (by decide : 0 < MIN_CYCLES), ?_⟩
  rcases h with h | ⟨-, hle⟩
  · simp only [Hardware.progress, MIN_CYCLES, Bool.false_eq_true, if_false]
    omega
  · simp only [Hardware.progress, hp, MIN_CYCLES, if_true, Bool.false_eq_true, if_false] at hle ⊢
    omega

theorem Inv.tick (h : Inv hz w) (hr : w.reset = false) : Inv hz w.tick := by
  unfold World.tick
  split
  · refine ⟨h.full, h.left, h.gone, h.bound, fun he => (h.paced he).tick, fun hr' => ?_⟩
    have hlt := h.count hr
    simp only [beq_eq_false_iff_ne] at hr'
    show w.hw.count + 1 < _
    omega
  · exact h

theorem Inv.irq (h : Inv hz w) : Inv hz w.irq := by
  unfold World.irq
  split
  · rename_i hp
    obtain ⟨hfull, hleft, hexp⟩ := irqHandler_fields w.soft
    have hl := h.left
    have hleft' : (WDT_IRQHandler w.soft).2.left_iterations.toNat ≤
        (WDT_IRQHandler w.soft).2.full_iterations.toNat := by
      rw [hfull]
      rcases hleft with hlt | ⟨heq, -, -⟩
      · exact (Int.toNat_le_toNat hlt.le).trans hl
      · rw [heq]
    have hgone : (WDT_IRQHandler w.soft).2.expired = true →
        (WDT_IRQHandler w.soft).2.left_iterations ≤ 0 := by
      intro he
      rw [hexp, Bool.or_eq_true, Bool.not_eq_true', decide_eq_false_iff_not] at he
      have hlow : w.soft.left_iterations ≤ 0 := by
        rcases he with he | hf
        · exact h.gone he
        · rw [feeds_iff, feedsLeft] at hf
          omega
      rcases hleft with hlt | ⟨-, hlive, hf⟩
      · omega
      · -- the window starts again only if it has not expired
        rw [hlive] at he
        exact absurd hf (by simpa using he)
    rcases irqHandler_spec w.soft with ⟨hf, hless⟩ | ⟨hf, h0, h0'⟩
    · have hb := h.bound
      have hfeeds : (WDT_IRQHandler w.soft).1 = true := hf
      simp only [hfeeds, if_true]
      refine ⟨hfull.trans h.full, hleft', hgone, ?_, fun he => ?_, fun _ => Nat.succ_pos _⟩
      · simp only [World.most, World.window, hfull] at hb ⊢
        omega
      · have hpace := h.paced (by
          rw [hexp, Bool.or_eq_false_iff] at he
          exact he.1)
        simp only [World.due, World.window, hfull] at hpace ⊢
        rw [← hless] at hpace
        exact hpace.irq hp
    · have hb := h.bound
      have hfeeds : (WDT_IRQHandler w.soft).1 = false := by simpa [Feeds] using hf
      simp only [hfeeds, Bool.false_eq_true, if_false]
      refine ⟨hfull.trans h.full, hleft', hgone, ?_, fun he => ?_, h.count⟩
      · simp only [World.most, World.window, hfull] at hb ⊢
        omega
      · -- the window has expired
        simp only [hexp, hf, decide_false, Bool.not_false, Bool.or_true, Bool.true_eq_false] at he
  · exact h

/-- A counter that is reset is no nearer to its interrupt. -/
theorem Paced.start {due feeds since : ℕ} {hw : Hardware} (h : Paced due feeds since hw) :
    Paced due feeds since { hw with enabled := true, count := 0 } := by
  rcases h with h | ⟨-, hle⟩
  · exact Or.inl h
  · refine Or.inr ⟨Or.inr (by decide : 0 < MIN_CYCLES), le_trans ?_ hle⟩
    simp only [Hardware.progress]
    split <;> omega

/-- Setting the timeout opens a window. -/
theorem Inv.setup {secs : BitVec 32} (h : Inv hz w) :
    Inv hz { w with
      soft := soft_time_setup secs hz, wanted := secs, kept := false, since := 0, fed := 0 } where
  full := rfl
  left := le_refl _
  gone he := absurd (show false = true from he) Bool.false_ne_true
  bound := le_refl _
  paced _ := Or.inl (le_refl _)
  count := h.count

/-- A keepalive adds a window, unless this one has expired. -/
theorem Inv.keepalive (h : Inv hz w) :
    Inv hz { w with soft := soft_time_feed_dog w.soft, kept := true, since := 0, fed := 0 } where
  full := h.full
  left := h.left
  gone := h.gone
  bound := by
    have hl := h.left
    simp only [feedsLeft, soft_time_feed_dog, World.most, World.window, Bool.true_and,
      if_true] at hl ⊢
    split <;> omega
  paced he := by
    left
    have he' : w.soft.expired = false := he
    simp only [World.due, World.window, feedsLeft, soft_time_feed_dog, he', Bool.not_false,
      Bool.and_self, if_true]
    omega
  count := h.count

theorem control_set_timeout (hz secs : BitVec 32) (w : World) :
    w.control hz (.SET_TIMEOUT secs) = if secs = 0 then w else { w with
      soft := soft_time_setup secs hz, wanted := secs, kept := false, since := 0, fed := 0 } := by
  have hc : wdt_control hz (.SET_TIMEOUT secs) w.soft w.hw =
      if secs = 0 then ⟨-RT_EINVAL, none, w.soft, w.hw⟩
      else ⟨-RT_EOK, none, soft_time_setup secs hz, w.hw⟩ := rfl
  rw [World.control, hc]
  by_cases h0 : secs = 0
  · rw [if_pos h0, if_pos h0, h0]
    rfl
  · rw [if_neg h0, if_neg h0]
    exact if_neg h0

theorem Inv.control (h : Inv hz w) (cmd : Cmd) : Inv hz (w.control hz cmd) := by
  cases cmd with
  | GET_TIMEOUT args => cases args <;> exact h
  | GET_TIMELEFT args => cases args <;> exact h
  | SET_TIMEOUT secs =>
    rw [control_set_timeout]
    split
    · exact h
    · exact h.setup
  | KEEPALIVE => exact h.keepalive
  | START =>
    exact ⟨h.full, h.left, h.gone, h.bound, fun he => (h.paced he).start, fun _ => Nat.succ_pos _⟩
  | STOP => exact ⟨h.full, h.left, h.gone, h.bound, h.paced, h.count⟩
  | other => exact h

theorem Inv.step (h : Inv hz w) (e : Event) : Inv hz (w.step hz e) := by
  unfold World.step
  split
  · exact h
  · rename_i hr
    cases e with
    | control cmd => exact h.control cmd
    | tick => exact h.tick (Bool.eq_false_iff.2 hr)
    | irq => exact h.irq

theorem Inv.after (h : Inv hz w) (evs : List Event) : Inv hz (w.after hz evs) := by
  induction evs generalizing w with
  | nil => exact h
  | cons e evs ih => exact ih (h.step e)

/-- The invariant of every run. -/
theorem run_inv (hz : BitVec 32) (evs : List Event) : Inv hz (run hz evs) :=
  (Inv.boot hz).after evs

end Wdt
