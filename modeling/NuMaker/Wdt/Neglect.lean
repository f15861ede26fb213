/-
What the watchdog promises.

An application is given at least the wanted time after a keepalive, and at most what is left of a
window and the next.

* **`Inv.early`** — fed as long as the wanted time has not passed;
* **`cared_for`** — an application that keeps alive in time is never reset;
* **`neglected`** — one that stops is;
* **`bites_on_neglect`** — the three together;
* **`fed_past_timeout`** — the wanted time is not where the feeding ends.
-/
import NuMaker.Wdt.Windows

namespace Wdt

variable {hz : BitVec 32} {w : World}

/-! ### In time -/

/-- The wanted time in cycles. -/
def World.cycles (hz : BitVec 32) (w : World) : ℕ := w.wanted.toNat * hz.toNat

/-- Less than the wanted time has passed since the last keepalive, less a period if there was none
since the timeout was set. -/
def Early (hz : BitVec 32) (w : World) : Prop :=
  w.cycles hz < 2 ^ 32 ∧ w.since + (if w.kept then 1 else MIN_CYCLES) ≤ w.cycles hz

instance (hz : BitVec 32) (w : World) : Decidable (Early hz w) := inferInstanceAs (Decidable (_ ∧ _))

/-- A window has all the periods of the wanted time, and up to two more. -/
theorem Inv.window_bounds (h : Inv hz w) (hfit : w.cycles hz < 2 ^ 32) :
    w.cycles hz / MIN_CYCLES ≤ w.window ∧ w.window ≤ w.cycles hz / MIN_CYCLES + 2 := by
  have hb := conv_bounds hfit
  have hfull := h.full
  simp only [World.window, World.cycles, MIN_CYCLES] at hb ⊢
  omega

/-- **In time the dog is fed.** -/
theorem Inv.early (h : Inv hz w) (hp : w.hw.pending = true) (he : w.soft.expired = false)
    (hearly : Early hz w) : Feeds w.soft := by
  obtain ⟨hfit, htime⟩ := hearly
  have hwin := (h.window_bounds hfit).1
  have hpace := h.paced he
  rw [feeds_iff]
  simp only [Paced, World.due, Hardware.progress, hp, if_true, MIN_CYCLES] at *
  cases hk : w.kept with
  | true =>
    simp only [hk, if_true] at *
    omega
  | false =>
    simp only [hk, Bool.false_eq_true, if_false] at *
    omega

/-- Every interrupt is served in time: before the wanted time has passed, and before the hardware
runs out of patience. -/
def CaredFor (hz : BitVec 32) : World → List Event → Prop
  | _, [] => True
  | w, e :: evs =>
    (match e with
      | .control _ => True
      | .tick => ¬ (w.hw.enabled = true ∧ w.hw.pending = true ∧
          w.hw.count + 1 = MIN_CYCLES + RESET_DELAY)
      | .irq => Early hz w) ∧ CaredFor hz (w.step hz e) evs

/-- Not reset, and not on the way to be. -/
structure Alive (w : World) : Prop where
  reset : w.reset = false
  expired : w.soft.expired = false
  near : w.hw.pending = true ∨ w.hw.count < MIN_CYCLES

theorem Alive.control (h : Alive w) (cmd : Cmd) : Alive (w.control hz cmd) := by
  cases cmd with
  | GET_TIMEOUT args => cases args <;> exact ⟨h.reset, h.expired, h.near⟩
  | GET_TIMELEFT args => cases args <;> exact ⟨h.reset, h.expired, h.near⟩
  | SET_TIMEOUT secs =>
    rw [control_set_timeout]
    split
    · exact h
    · exact ⟨h.reset, rfl, h.near⟩
  | KEEPALIVE => exact ⟨h.reset, h.expired, h.near⟩
  | START => exact ⟨h.reset, h.expired, Or.inr (Nat.succ_pos _)⟩
  | STOP => exact ⟨h.reset, h.expired, h.near⟩
  | other => exact ⟨h.reset, h.expired, h.near⟩

theorem Alive.tick (h : Alive w) (hpatient : ¬ (w.hw.enabled = true ∧ w.hw.pending = true ∧
    w.hw.count + 1 = MIN_CYCLES + RESET_DELAY)) : Alive w.tick := by
  unfold World.tick
  split
  · rename_i hon
    have hnear := h.near
    refine ⟨?_, h.expired, ?_⟩
    · -- the interrupt comes a whole delay before the reset
      simp only [beq_eq_false_iff_ne]
      intro hreset
      refine hpatient ⟨hon, hnear.resolve_right ?_, hreset⟩
      simp only [MIN_CYCLES, RESET_DELAY] at hreset ⊢
      omega
    · rcases hnear with hp | hlt
      · left
        simp only [hp, Bool.true_or]
      · rcases (Nat.succ_le_of_lt hlt).eq_or_lt with heq | hlt
        · left
          simp only [beq_iff_eq.2 heq, Bool.or_true]
        · exact Or.inr hlt
  · exact h

theorem Alive.irq (h : Alive w) (hinv : Inv hz w) (hearly : Early hz w) : Alive w.irq := by
  unfold World.irq
  split
  · rename_i hp
    have hf := hinv.early hp h.expired hearly
    have hfeeds : (WDT_IRQHandler w.soft).1 = true := hf
    have hexp := (irqHandler_fields w.soft).2.2
    simp only [hfeeds, if_true]
    refine ⟨h.reset, ?_, Or.inr (Nat.succ_pos _)⟩
    simp only [hexp, h.expired, hf, decide_true, Bool.not_true, Bool.or_self]
  · exact h

/-- **An application that keeps alive in time is never reset.** -/
theorem cared_for {evs : List Event} (h : Alive w) (hinv : Inv hz w) (hcare : CaredFor hz w evs) :
    Alive (w.after hz evs) := by
  induction evs generalizing w with
  | nil => exact h
  | cons e evs ih =>
    refine ih ?_ (hinv.step e) hcare.2
    have hnow := hcare.1
    unfold World.step
    rw [h.reset, if_neg Bool.false_ne_true]
    cases e with
    | control cmd => exact h.control cmd
    | tick => exact h.tick hnow
    | irq => exact h.irq hinv hnow

/-! ### Too late -/

/-- What an application does that does not care: nothing but questions. -/
def Event.neglects : Event → Prop
  | .tick | .irq | .control (.GET_TIMEOUT _) | .control (.GET_TIMELEFT _) | .control .other => True
  | _ => False

/-- The cycles there are left before the reset, if every interrupt is served at the last moment. -/
def World.patience (w : World) : ℕ :=
  feedsLeft w.soft * (MIN_CYCLES + RESET_DELAY) + (MIN_CYCLES + RESET_DELAY - w.hw.count)

/-- Still waiting for the reset. -/
structure Waiting (w : World) : Prop where
  enabled : w.hw.enabled = true
  count : w.hw.count < MIN_CYCLES + RESET_DELAY

theorem Waiting.patience_pos (h : Waiting w) : 0 < w.patience := by
  have hc := h.count
  unfold World.patience
  omega

theorem Waiting.tick (h : Waiting w) : w.tick.reset = true ∨
    Waiting w.tick ∧ w.tick.patience + 1 ≤ w.patience := by
  have hc := h.count
  unfold World.tick
  rw [if_pos h.enabled]
  by_cases hlast : w.hw.count + 1 = MIN_CYCLES + RESET_DELAY
  · left
    simp only [hlast, beq_self_eq_true]
  · right
    refine ⟨⟨h.enabled, by show w.hw.count + 1 < _; omega⟩, ?_⟩
    simp only [World.patience]
    omega

theorem Waiting.irq (h : Waiting w) : Waiting w.irq ∧ w.irq.patience ≤ w.patience := by
  unfold World.irq
  split
  · rcases irqHandler_spec w.soft with ⟨hf, hless⟩ | ⟨hf, h0, h0'⟩
    · have hfeeds : (WDT_IRQHandler w.soft).1 = true := hf
      simp only [hfeeds, if_true]
      refine ⟨⟨h.enabled, Nat.succ_pos _⟩, ?_⟩
      -- a feed is spent for what is left of the hardware's patience
      simp only [World.patience]
      rw [← hless, Nat.add_mul]
      omega
    · have hfeeds : (WDT_IRQHandler w.soft).1 = false := by simpa [Feeds] using hf
      simp only [hfeeds, Bool.false_eq_true, if_false]
      refine ⟨⟨h.enabled, h.count⟩, ?_⟩
      simp only [World.patience, h0, h0']
      exact le_refl _
  · exact ⟨h, le_refl _⟩

/-- A chip that has been reset stays so. -/
theorem after_reset (hr : w.reset = true) (evs : List Event) : w.after hz evs = w := by
  induction evs with
  | nil => rfl
  | cons e evs ih =>
    have hstep : w.step hz e = w := by
      unfold World.step
      rw [if_pos hr]
    show (w.step hz e).after hz evs = w
    rw [hstep, ih]

/-- **An application that stops is reset**, once its patience has passed. -/
theorem neglected {rest : List Event} (h : Waiting w) (hrest : ∀ e ∈ rest, e.neglects)
    (hlong : w.patience ≤ rest.count .tick) : (w.after hz rest).reset = true := by
  induction rest generalizing w with
  | nil => exact absurd hlong (Nat.not_le.2 h.patience_pos)
  | cons e rest ih =>
    by_cases hr : w.reset = true
    · rw [after_reset hr]
      exact hr
    have hrest' := fun e' he' => hrest e' (List.mem_cons_of_mem e he')
    have hnow := hrest e List.mem_cons_self
    show ((w.step hz e).after hz rest).reset = true
    unfold World.step
    rw [if_neg hr]
    cases e with
    | tick =>
      rcases h.tick with hreset | ⟨hwait, hless⟩
      · rw [after_reset hreset]
        exact hreset
      · rw [List.count_cons_self] at hlong
        exact ih hwait hrest' (Nat.le_of_succ_le_succ (hless.trans hlong))
    | irq =>
      obtain ⟨hwait, hless⟩ := h.irq
      exact ih hwait hrest' (hless.trans (by simpa using hlong))
    | control cmd =>
      -- a question changes nothing
      have hsame : w.control hz cmd = w := by
        cases cmd with
        | GET_TIMEOUT args => cases args <;> rfl
        | GET_TIMELEFT args => cases args <;> rfl
        | other => rfl
        | SET_TIMEOUT secs => exact hnow.elim
        | KEEPALIVE => exact hnow.elim
        | START => exact hnow.elim
        | STOP => exact hnow.elim
      show ((w.control hz cmd).after hz rest).reset = true
      rw [hsame]
      exact ih h hrest' (by simpa using hlong)

/-! ### Both -/

theorem Inv.no_more (h : Inv hz w) (he : w.soft.expired = true) : ¬ Feeds w.soft := by
  have hleft := h.gone he
  rw [feeds_iff, feedsLeft, he, Bool.not_true, Bool.and_false, if_neg Bool.false_ne_true]
  omega

theorem Inv.patience_le (h : Inv hz w) :
    w.patience ≤ (2 * w.window + 2) * (MIN_CYCLES + RESET_DELAY) := by
  have hmost : feedsLeft w.soft ≤ 2 * w.window + 1 := by
    have hb := h.bound
    unfold World.most at hb
    split at hb <;> omega
  have hmul := Nat.mul_le_mul_right (MIN_CYCLES + RESET_DELAY) hmost
  rw [World.patience, show 2 * w.window + 2 = 2 * w.window + 1 + 1 from rfl, Nat.add_mul _ 1]
  omega

theorem after_append (hz : BitVec 32) (w : World) (evs rest : List Event) :
    w.after hz (evs ++ rest) = (w.after hz evs).after hz rest :=
  List.foldl_append

/-- **The watchdog bites on neglect.**  A window has as many interrupts as there are whole periods
in the wanted time, or up to two more.  The dog is fed at every interrupt before the wanted time
has passed, and at no more than the rest of a window and the next after a keepalive; an
application that keeps alive in time is never reset, and one that stops is. -/
theorem bites_on_neglect (hz : BitVec 32) (evs : List Event) :
    ((run hz evs).hw.pending = true → (run hz evs).soft.expired = false →
        Early hz (run hz evs) → Feeds (run hz evs).soft) ∧
      (run hz evs).fed ≤ (run hz evs).most ∧
      ((run hz evs).soft.expired = true → ¬ Feeds (run hz evs).soft) ∧
      ((run hz evs).cycles hz < 2 ^ 32 →
        (run hz evs).cycles hz / MIN_CYCLES ≤ (run hz evs).window ∧
          (run hz evs).window ≤ (run hz evs).cycles hz / MIN_CYCLES + 2) ∧
      (CaredFor hz World.boot evs → (run hz evs).reset = false) ∧
      ((run hz evs).hw.enabled = true → ∀ rest : List Event, (∀ e ∈ rest, e.neglects) →
        (2 * (run hz evs).window + 2) * (MIN_CYCLES + RESET_DELAY) ≤ rest.count .tick →
          (run hz (evs ++ rest)).reset = true) := by
  have hinv := run_inv hz evs
  refine ⟨hinv.early, ?_, hinv.no_more, hinv.window_bounds, fun hcare => ?_,
    fun hon rest hrest hlong => ?_⟩
  · exact (Nat.le_add_left _ _).trans hinv.bound
  · exact (cared_for ⟨rfl, rfl, Or.inr (Nat.succ_pos _)⟩ (Inv.boot hz) hcare).reset
  · rw [run, after_append, ← run]
    cases hr : (run hz evs).reset with
    | true => rw [after_reset hr, hr]
    | false => exact neglected ⟨hon, hinv.count hr⟩ hrest (hinv.patience_le.trans hlong)

/-- After one keepalive at 32768 Hz, with a timeout of a second: at most 143500 cycles. -/
theorem bites_on_neglect_second :
    (run 32768 [.control (.SET_TIMEOUT 1), .control .START, .control .KEEPALIVE]).reset = false ∧
      ∀ rest : List Event, (∀ e ∈ rest, e.neglects) → 143500 ≤ rest.count .tick →
        (run 32768 ([.control (.SET_TIMEOUT 1), .control .START, .control .KEEPALIVE] ++
          rest)).reset = true := by
  have hbites :=
    bites_on_neglect 32768 [.control (.SET_TIMEOUT 1), .control .START, .control .KEEPALIVE]
  have hmax := (hbites.2.2.2.1 (by decide)).2
  have hlive := hbites.2.2.2.2.1 ⟨trivial, trivial, trivial, trivial⟩
  have hreset := hbites.2.2.2.2.2 rfl
  refine ⟨hlive, fun rest hrest hlong => hreset rest hrest (Nat.le_trans ?_ hlong)⟩
  rw [show (run 32768 [.control (.SET_TIMEOUT 1), .control .START,
    .control .KEEPALIVE]).cycles 32768 = 32768 by decide] at hmax
  calc _ ≤ (2 * 34 + 2) * (MIN_CYCLES + RESET_DELAY) :=
        Nat.mul_le_mul_right _ (Nat.add_le_add_right (Nat.mul_le_mul_left 2 hmax) 2)
    _ = 143500 := rfl

/-! ### Where the feeding ends -/

/-- The cycles up to the next interrupt. -/
theorem after_ticks (hz : BitVec 32) {w : World} (hr : w.reset = false) (hon : w.hw.enabled = true)
    (hp : w.hw.pending = false) {n : ℕ} (hn : n ≤ MIN_CYCLES) (hc : w.hw.count = 0) :
    w.after hz (List.replicate n .tick) =
      { w with hw := ⟨true, n, decide (n = MIN_CYCLES)⟩, since := w.since + n } := by
  induction n with
  | zero =>
    obtain ⟨soft, ⟨enabled, count, pending⟩, reset, wanted, kept, since, fed⟩ := w
    simp only at hr hon hp hc
    subst hr hon hp hc
    rfl
  | succ n ih =>
    have hlt : n ≠ MIN_CYCLES := by omega
    have hno : n + 1 ≠ MIN_CYCLES + RESET_DELAY := by
      simp only [MIN_CYCLES, RESET_DELAY] at hn ⊢
      omega
    rw [List.replicate_succ', after_append, ih (by omega)]
    simp only [World.after, List.foldl_cons, List.foldl_nil, World.step, hr, Bool.false_eq_true,
      if_false, World.tick, if_true, hlt, decide_false, Bool.false_or, Nat.add_assoc,
      beq_eq_false_iff_ne.2 hno]
    rfl

/-- The interrupts, served as they come. -/
def rounds (n : ℕ) : List Event :=
  (List.replicate n (List.replicate MIN_CYCLES .tick ++ [.irq])).flatten

/-- After so many of them in a window. -/
def World.worn (n : ℕ) (w : World) : World :=
  { w with
    soft := { w.soft with left_iterations := w.soft.left_iterations - n }
    since := w.since + MIN_CYCLES * n, fed := w.fed + n }

theorem after_rounds (hz : BitVec 32) {w : World} (hr : w.reset = false)
    (hhw : w.hw = ⟨true, 0, false⟩) {n : ℕ} (hn : n ≤ w.soft.left_iterations) :
    w.after hz (rounds n) = w.worn n := by
  induction n with
  | zero =>
    simp only [rounds, World.worn, List.replicate_zero, List.flatten_nil, Nat.cast_zero, sub_zero]
    rfl
  | succ n ih =>
    have hmore : w.soft.left_iterations - n > 0 := by push_cast at hn; omega
    have hround : rounds (n + 1) = rounds n ++ (List.replicate MIN_CYCLES .tick ++ [.irq]) := by
      rw [rounds, List.replicate_succ', List.flatten_append, ← rounds, List.flatten_singleton]
    rw [hround, after_append, ih (by push_cast at hn; omega), after_append,
      after_ticks hz (w := w.worn n) hr (by rw [World.worn, hhw]) (by rw [World.worn, hhw]) le_rfl
        (by rw [World.worn, hhw])]
    simp only [World.worn, World.after, List.foldl_cons, List.foldl_nil, World.step, hr,
      Bool.false_eq_true, if_false, World.irq, decide_true, if_true, WDT_IRQHandler, hmore, hhw,
      Nat.cast_succ, Nat.mul_succ, Nat.add_assoc, Int.sub_sub]

/-- A timeout of a second is set and kept alive once, and thirty-three periods pass. -/
def secondLate : List Event :=
  [.control (.SET_TIMEOUT 1), .control .START, .control .KEEPALIVE] ++ rounds 32 ++
    List.replicate MIN_CYCLES .tick

/-- At 32768 Hz the second has passed, and the dog is fed. -/
theorem fed_past_timeout :
    (run 32768 secondLate).hw.pending = true ∧
      (run 32768 secondLate).cycles 32768 < (run 32768 secondLate).since ∧
      Feeds (run 32768 secondLate).soft := by
  have hfull : 32 ≤ CONV_SEC_TO_IT 32768 1 := (@conv_bounds 32768 1 (by decide)).1
  obtain ⟨w, hw⟩ : ∃ w : World, w = ⟨soft_time_feed_dog (soft_time_setup 1 32768),
    ⟨true, 0, false⟩, false, 1, true, 0, 0⟩ := ⟨_, rfl⟩
  have hstart : run 32768 [.control (.SET_TIMEOUT 1), .control .START, .control .KEEPALIVE] = w := by
    rw [hw, run, World.after, List.foldl_cons]
    rw [show World.boot.step 32768 (.control (.SET_TIMEOUT 1)) =
      World.boot.control 32768 (.SET_TIMEOUT 1) from rfl, control_set_timeout,
      if_neg (by decide)]
    rfl
  have hend : run 32768 secondLate = { w.worn 32 with
      hw := ⟨true, MIN_CYCLES, true⟩, since := (w.worn 32).since + MIN_CYCLES } := by
    rw [secondLate, run, after_append, after_append, ← run, hstart,
      after_rounds _ (by rw [hw]) (by rw [hw]) (by rw [hw]; exact hfull),
      after_ticks _ (by rw [hw]; rfl) (by rw [hw]; rfl) (by rw [hw]; rfl) le_rfl (by rw [hw]; rfl),
      decide_eq_true rfl]
  rw [hend]
  refine ⟨rfl, ?_, ?_⟩
  · rw [hw]
    decide
  · rw [feeds_iff, hw]
    show 0 < (CONV_SEC_TO_IT 32768 1 - 32).toNat + ((CONV_SEC_TO_IT 32768 1).toNat + 1)
    omega

end Wdt
