/-
A counter that counts down to zero and then takes its reload value again.

`after c t` is the counter `t` ticks on.  Its value is where it is in a period of one tick more than
the reload value, and a program that only sees the values of two moments less than a period apart
can tell how far they are apart.

* **`val_after`** — the value after any number of ticks;
* **`flag_after`** — from zero, the flag goes up when the counter has been through one period;
* **`val_lt_iff`**, **`val_eq_iff`** — two values, and the ticks between them;
* **`seen`**, **`le_of_seen`** — what is seen of a time when the tick of each reload is left out, and
  the least time for what is seen.
-/
import Mathlib.Tactic

/-- A counter, with its reload value and the flag of having counted to zero. -/
structure Countdown where
  load : ℕ
  val : ℕ
  flag : Bool

namespace Countdown

/-- A tick.  It is the step from one to zero that sets the flag, not the reload. -/
def tick (c : Countdown) : Countdown :=
  if c.val = 0 then { c with val := c.load }
  else { c with val := c.val - 1, flag := c.flag || c.val == 1 }

def after (c : Countdown) : ℕ → Countdown
  | 0 => c
  | t + 1 => (after c t).tick

@[simp] theorem after_zero (c : Countdown) : c.after 0 = c := rfl

theorem after_succ (c : Countdown) (t : ℕ) : c.after (t + 1) = (c.after t).tick := rfl

@[simp] theorem tick_load (c : Countdown) : c.tick.load = c.load := by
  rw [tick]
  split <;> rfl

@[simp] theorem after_load (c : Countdown) (t : ℕ) : (c.after t).load = c.load := by
  induction t with
  | zero => rfl
  | succ t ih => rw [after_succ, tick_load, ih]

/-! ### The value -/

theorem tick_val (c : Countdown) : c.tick.val = if c.val = 0 then c.load else c.val - 1 := by
  rw [tick]
  split <;> rfl

theorem mod_le (φ load : ℕ) : φ % (load + 1) ≤ load :=
  Nat.le_of_lt_succ (Nat.mod_lt φ (Nat.succ_pos load))

/-- The ticks since the last reload. -/
theorem mod_succ (φ load : ℕ) :
    (φ + 1) % (load + 1) = if φ % (load + 1) = load then 0 else φ % (load + 1) + 1 := by
  have hle := mod_le φ load
  rw [Nat.add_mod]
  split
  · next h =>
    rw [h]
    rcases Nat.eq_zero_or_pos load with rfl | hload
    · simp
    · rw [Nat.mod_eq_of_lt (show 1 < load + 1 by omega), Nat.mod_self]
  · next h =>
    rw [Nat.mod_eq_of_lt (show 1 < load + 1 by omega), Nat.mod_eq_of_lt (by omega)]

/-- **The value after `t` ticks.** -/
theorem val_after {c : Countdown} (hval : c.val ≤ c.load) (t : ℕ) :
    (c.after t).val = c.load - (c.load - c.val + t) % (c.load + 1) := by
  induction t with
  | zero =>
    rw [after_zero, Nat.add_zero, Nat.mod_eq_of_lt (by omega)]
    omega
  | succ t ih =>
    have hle := mod_le (c.load - c.val + t) c.load
    rw [after_succ, tick_val, after_load, ih, ← Nat.add_assoc, mod_succ]
    by_cases h : (c.load - c.val + t) % (c.load + 1) = c.load
    · rw [if_pos (by omega), if_pos h, Nat.sub_zero]
    · rw [if_neg (by omega), if_neg h]
      omega

/-! ### The flag -/

theorem tick_flag (c : Countdown) : c.tick.flag = (c.flag || c.val == 1) := by
  rw [tick]
  split
  · next h => simp [h]
  · rfl

/-- **From zero, the flag is set one period on**, and never if there is nothing to count down. -/
theorem flag_after (load t : ℕ) :
    (after ⟨load, 0, false⟩ t).flag = true ↔ load ≠ 0 ∧ load + 1 ≤ t := by
  induction t with
  | zero => simp
  | succ t ih =>
    rw [after_succ, tick_flag, Bool.or_eq_true, ih, beq_iff_eq, val_after (Nat.zero_le _)]
    simp only [Nat.sub_zero]
    rcases Nat.eq_zero_or_pos load with rfl | hload
    · simp
    · rcases Nat.lt_trichotomy t load with hlt | rfl | hgt
      · -- the counter has taken its reload value, if at all, `t - 1` ticks before
        rcases Nat.eq_zero_or_pos t with rfl | ht
        · rw [show load + 0 = load from rfl, Nat.mod_eq_of_lt (show load < load + 1 by omega)]
          omega
        · have hmod : (load + t) % (load + 1) = t - 1 := by
            rw [show load + t = t - 1 + (load + 1) by omega, Nat.add_mod_right,
              Nat.mod_eq_of_lt (by omega)]
          rw [hmod]
          omega
      · have hmod : (t + t) % (t + 1) = t - 1 := by
          rw [show t + t = t - 1 + (t + 1) by omega, Nat.add_mod_right, Nat.mod_eq_of_lt (by omega)]
        rw [hmod]
        omega
      · exact iff_of_true (Or.inl ⟨by omega, by omega⟩) ⟨by omega, by omega⟩

/-! ### Two moments less than a period apart -/

section Sampled

variable {load φ ψ : ℕ}

/-- Within a period there is one reload at most. -/
theorem div_of_near (hle : φ ≤ ψ) (hnear : ψ ≤ φ + load) :
    ψ / (load + 1) = φ / (load + 1) ∧ ψ % (load + 1) = φ % (load + 1) + (ψ - φ) ∨
      ψ / (load + 1) = φ / (load + 1) + 1 ∧
        ψ % (load + 1) + (load + 1) = φ % (load + 1) + (ψ - φ) := by
  have hφ := Nat.div_add_mod φ (load + 1)
  have hψ := Nat.div_add_mod ψ (load + 1)
  have hφle := mod_le φ load
  have hψle := mod_le ψ load
  have hq : φ / (load + 1) ≤ ψ / (load + 1) := Nat.div_le_div_right hle
  have hq' : ψ / (load + 1) ≤ φ / (load + 1) + 1 := by
    rw [← Nat.add_div_right φ (Nat.succ_pos load)]
    exact Nat.div_le_div_right (by omega)
  rcases Nat.eq_or_lt_of_le hq with heq | hlt
  · rw [← heq] at hψ
    exact Or.inl ⟨heq.symm, by omega⟩
  · have heq : ψ / (load + 1) = φ / (load + 1) + 1 := by omega
    rw [heq, Nat.mul_add, Nat.mul_one] at hψ
    exact Or.inr ⟨heq, by omega⟩

theorem val_eq_iff (hle : φ ≤ ψ) (hnear : ψ ≤ φ + load) :
    load - ψ % (load + 1) = load - φ % (load + 1) ↔ ψ = φ := by
  have hφle := mod_le φ load
  have hψle := mod_le ψ load
  rcases div_of_near hle hnear with ⟨-, h⟩ | ⟨-, h⟩ <;> omega

/-- A value that has gone up has been through a reload. -/
theorem val_lt_iff (hle : φ ≤ ψ) (hnear : ψ ≤ φ + load) (hne : ψ ≠ φ) :
    load - ψ % (load + 1) < load - φ % (load + 1) ↔ ψ / (load + 1) = φ / (load + 1) := by
  have hφle := mod_le φ load
  have hψle := mod_le ψ load
  rcases div_of_near hle hnear with ⟨hq, h⟩ | ⟨hq, h⟩ <;> omega

end Sampled

/-! ### A time seen without its reloads -/

/-- The time `φ`, less a tick for each reload. -/
def seen (load φ : ℕ) : ℕ := φ - φ / (load + 1)

theorem div_le (load φ : ℕ) : φ / (load + 1) ≤ φ := Nat.div_le_self φ (load + 1)

theorem seen_add_div (load φ : ℕ) : seen load φ + φ / (load + 1) = φ :=
  Nat.sub_add_cancel (div_le load φ)

theorem seen_succ (load φ : ℕ) : seen load φ ≤ seen load (φ + 1) := by
  have h := seen_add_div load φ
  have h' := seen_add_div load (φ + 1)
  have hdiv : (φ + 1) / (load + 1) ≤ φ / (load + 1) + 1 := by
    rw [← Nat.add_div_right φ (Nat.succ_pos load)]
    exact Nat.div_le_div_right (by omega)
  omega

theorem seen_mono (load : ℕ) : Monotone (seen load) := monotone_nat_of_le_succ (seen_succ load)

/-- From a reload on, a whole number of periods and a rest. -/
theorem seen_mul_add (load q r : ℕ) (hr : r ≤ load) :
    seen load (q * (load + 1) + r) = q * load + r := by
  have hdiv : (q * (load + 1) + r) / (load + 1) = q := by
    rw [Nat.add_comm, Nat.add_mul_div_right _ _ (Nat.succ_pos load), Nat.div_eq_of_lt (by omega),
      Nat.zero_add]
  rw [seen, hdiv, Nat.mul_succ]
  omega

/-- The least time in which `n` is seen from a reload on. -/
def least (load n : ℕ) : ℕ := n + (n - 1) / load

theorem seen_least {load n : ℕ} (hload : load ≠ 0) : seen load (least load n) = n := by
  rcases Nat.eq_zero_or_pos n with rfl | hn
  · simp [least, seen]
  · have hdiv := Nat.div_add_mod (n - 1) load
    have hlt := Nat.mod_lt (n - 1) (Nat.pos_of_ne_zero hload)
    have hform : least load n = (n - 1) / load * (load + 1) + ((n - 1) % load + 1) := by
      rw [least, Nat.mul_succ, Nat.mul_comm _ load]
      omega
    rw [hform, seen_mul_add _ _ _ (by omega), Nat.mul_comm _ load]
    omega

/-- **Wherever it starts, nothing is seen in less than the least time.** -/
theorem le_of_seen {load n φ ψ : ℕ} (hload : load ≠ 0) (hn : n ≠ 0) (hle : φ ≤ ψ)
    (hseen : seen load φ + n ≤ seen load ψ) : least load n ≤ ψ - φ := by
  have hφ := seen_add_div load φ
  have hψ := seen_add_div load ψ
  have hd := seen_add_div load (ψ - φ)
  -- a time that starts at a reload has the fewest reloads in it
  have hdiv : φ / (load + 1) + (ψ - φ) / (load + 1) ≤ ψ / (load + 1) := by
    have h : φ / (load + 1) + (ψ - φ) / (load + 1) ≤ (φ + (ψ - φ)) / (load + 1) :=
      Nat.div_add_div_le_add_div
    rwa [Nat.add_sub_cancel' hle] at h
  by_contra hlt
  have hle' : ψ - φ ≤ least load n - 1 := by omega
  have hseen' := seen_mono load hle'
  -- one tick before the least time, one less has been seen
  have hbefore : seen load (least load n - 1) = n - 1 := by
    have hdm := Nat.div_add_mod (n - 1) load
    have hmod := Nat.mod_lt (n - 1) (Nat.pos_of_ne_zero hload)
    have hform : least load n - 1 = (n - 1) / load * (load + 1) + (n - 1) % load := by
      rw [least, Nat.mul_succ, Nat.mul_comm _ load]
      generalize (n - 1) / load = q at hdm
      omega
    rw [hform, seen_mul_add _ _ _ (by omega), Nat.mul_comm _ load]
    omega
  omega

/-- Half of the time is seen at least, so that any number is seen at last. -/
theorem half_le_seen {load : ℕ} (hload : load ≠ 0) (φ : ℕ) : φ / 2 ≤ seen load φ := by
  have hdiv : φ / (load + 1) ≤ φ / 2 := Nat.div_le_div_left (by omega) (by omega)
  have h := seen_add_div load φ
  omega

end Countdown
