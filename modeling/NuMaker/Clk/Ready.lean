/-
Waiting for a clock to be stable.

`STATUS k` is what the `k`-th read of `CLK->STATUS` gives, and a run is given by all of them.  The
counter is looked at twice, in the loop before it is counted down, and once more behind the loop, so
that there are three outcomes and not two.

* **`CLK_WaitClockReady`** — the driver;
* **`CLK_WaitClockReady_of_first`**, **`CLK_WaitClockReady_of_never`** — what it makes of the reads;
* **`wait_reports_iff`** — the reads that it reports rightly.
-/
import Mathlib.Data.List.Range
import Mathlib.Data.BitVec

namespace Clk

def CLK_TIMEOUT_ERR : ℤ := -1

/-- What a wait leaves: what it returns, its counter, and how many reads it made. -/
structure Wait where
  u32Ret : ℕ
  i32TimeOutCnt : ℤ
  reads : ℕ

/-- All the masked bits are set in a read. -/
def Ready (STATUS : ℕ → BitVec 32) (u32ClkMask : BitVec 32) (k : ℕ) : Prop :=
  STATUS k &&& u32ClkMask = u32ClkMask

instance (STATUS : ℕ → BitVec 32) (u32ClkMask : BitVec 32) :
    DecidablePred (Ready STATUS u32ClkMask) :=
  fun k => inferInstanceAs (Decidable (STATUS k &&& u32ClkMask = u32ClkMask))

/-- The loop, with the reads from the `k`-th on before it. -/
def waitLoop (STATUS : ℕ → BitVec 32) (u32ClkMask : BitVec 32) (i32TimeOutCnt : ℤ) (k : ℕ) : Wait :=
  if Ready STATUS u32ClkMask k then ⟨1, i32TimeOutCnt, k + 1⟩
  -- `i32TimeOutCnt-- <= 0`: the counter goes down also where the loop is left
  else if i32TimeOutCnt ≤ 0 then ⟨0, i32TimeOutCnt - 1, k + 1⟩
  else waitLoop STATUS u32ClkMask (i32TimeOutCnt - 1) (k + 1)
termination_by i32TimeOutCnt.toNat

/-- What is returned, how many reads were made, and `g_CLK_i32ErrCode` after the call. -/
def CLK_WaitClockReady (STATUS : ℕ → BitVec 32) (u32ClkMask : BitVec 32)
    (g_CLK_i32ErrCode : ℤ) : ℕ × ℕ × ℤ :=
  let w := waitLoop STATUS u32ClkMask 2160000 0
  (w.u32Ret, w.reads, if w.i32TimeOutCnt = 0 then CLK_TIMEOUT_ERR else g_CLK_i32ErrCode)

/-! ### What the loop finds -/

section Loop

variable {STATUS : ℕ → BitVec 32} {u32ClkMask : BitVec 32}

/-- **The loop looks for the first read that is ready**, among one more than its counter says. -/
theorem waitLoop_eq (n k : ℕ) :
    waitLoop STATUS u32ClkMask n k =
      match (List.range' k (n + 1)).find? (Ready STATUS u32ClkMask) with
      | some i => ⟨1, n + k - i, i + 1⟩
      | none => ⟨0, -1, k + n + 1⟩ := by
  induction n generalizing k with
  | zero =>
    rw [waitLoop]
    by_cases hk : Ready STATUS u32ClkMask k <;> simp [hk]
  | succ n ih =>
    rw [waitLoop, List.range'_succ]
    by_cases hk : Ready STATUS u32ClkMask k
    · simp [hk]
    · have hpos : ¬ ((n + 1 : ℕ) : ℤ) ≤ 0 := by omega
      have hpred : ((n + 1 : ℕ) : ℤ) - 1 = n := by omega
      rw [if_neg hk, if_neg hpos, hpred, ih, List.find?_cons_of_neg (by simpa using hk)]
      -- the rest of the reads, with the counter one lower and the first read one later
      cases (List.range' (k + 1) (n + 1)).find? (Ready STATUS u32ClkMask) with
      | some i =>
        have hcnt : (n : ℤ) + (k + 1 : ℕ) - i = (n + 1 : ℕ) + k - i := by omega
        simp only [hcnt]
      | none =>
        have hreads : k + 1 + n + 1 = k + (n + 1) + 1 := by omega
        simp only [hreads]

variable {n d : ℕ}

theorem waitLoop_of_first (hd : d ≤ n) (hready : Ready STATUS u32ClkMask d)
    (hbefore : ∀ i < d, ¬ Ready STATUS u32ClkMask i) :
    waitLoop STATUS u32ClkMask n 0 = ⟨1, n - d, d + 1⟩ := by
  have hfind : (List.range' 0 (n + 1)).find? (Ready STATUS u32ClkMask) = some d := by
    rw [← List.range_eq_range', List.find?_range_eq_some]
    refine ⟨by simpa using hready, List.mem_range.mpr (by omega), fun i hi => ?_⟩
    simpa using hbefore i hi
  rw [waitLoop_eq, hfind]
  simp

theorem waitLoop_of_never (hnever : ∀ i ≤ n, ¬ Ready STATUS u32ClkMask i) :
    waitLoop STATUS u32ClkMask n 0 = ⟨0, -1, n + 1⟩ := by
  have hfind : (List.range' 0 (n + 1)).find? (Ready STATUS u32ClkMask) = none := by
    rw [← List.range_eq_range', List.find?_range_eq_none]
    intro i hi
    simpa using hnever i (by omega)
  rw [waitLoop_eq, hfind]
  simp

end Loop

/-! ### What is reported -/

section Reports

variable {STATUS : ℕ → BitVec 32} {u32ClkMask : BitVec 32} {d : ℕ}

/-- The last read that the counter admits is the one that sets the error code. -/
theorem CLK_WaitClockReady_of_first (hd : d ≤ 2160000) (hready : Ready STATUS u32ClkMask d)
    (hbefore : ∀ i < d, ¬ Ready STATUS u32ClkMask i) (g_CLK_i32ErrCode : ℤ) :
    CLK_WaitClockReady STATUS u32ClkMask g_CLK_i32ErrCode =
      (1, d + 1, if d = 2160000 then CLK_TIMEOUT_ERR else g_CLK_i32ErrCode) := by
  have hloop := waitLoop_of_first hd hready hbefore
  have hcnt : ((2160000 : ℕ) : ℤ) - d = 0 ↔ d = 2160000 := by omega
  simp only [CLK_WaitClockReady, show (2160000 : ℤ) = (2160000 : ℕ) from rfl, hloop, hcnt]

/-- A wait in vain leaves the counter at `-1`, and the error code as it was. -/
theorem CLK_WaitClockReady_of_never (hnever : ∀ i ≤ 2160000, ¬ Ready STATUS u32ClkMask i)
    (g_CLK_i32ErrCode : ℤ) :
    CLK_WaitClockReady STATUS u32ClkMask g_CLK_i32ErrCode = (0, 2160001, g_CLK_i32ErrCode) := by
  have hloop := waitLoop_of_never hnever
  simp only [CLK_WaitClockReady, show (2160000 : ℤ) = (2160000 : ℕ) from rfl, hloop]
  simp

/-- A run either gets to a first read that is ready, or to none at all. -/
theorem first_or_never (STATUS : ℕ → BitVec 32) (u32ClkMask : BitVec 32) (n : ℕ) :
    (∃ d ≤ n, Ready STATUS u32ClkMask d ∧ ∀ i < d, ¬ Ready STATUS u32ClkMask i) ∨
      ∀ i ≤ n, ¬ Ready STATUS u32ClkMask i := by
  by_cases h : ∃ d, d ≤ n ∧ Ready STATUS u32ClkMask d
  · obtain ⟨hd, hready⟩ := Nat.find_spec h
    refine Or.inl ⟨Nat.find h, hd, hready, fun i hi hi' => ?_⟩
    exact Nat.find_min h hi ⟨hi.le.trans hd, hi'⟩
  · exact Or.inr fun i hi hready => h ⟨i, hi, hready⟩

/-- The wait ends after a bounded number of reads, tells whether one of them was ready, and sets the
error code just where none was. -/
def Reports (STATUS : ℕ → BitVec 32) (u32ClkMask : BitVec 32) : Prop :=
  ∀ g_CLK_i32ErrCode : ℤ,
    let (u32Ret, reads, err) := CLK_WaitClockReady STATUS u32ClkMask g_CLK_i32ErrCode
    reads ≤ 2160001 ∧
    (u32Ret = 1 ↔ ∃ i < reads, Ready STATUS u32ClkMask i) ∧
    err = if u32Ret = 0 then CLK_TIMEOUT_ERR else g_CLK_i32ErrCode

theorem not_reports_of_never (hnever : ∀ i ≤ 2160000, ¬ Ready STATUS u32ClkMask i) :
    ¬ Reports STATUS u32ClkMask := by
  intro h
  have herr := h 0
  rw [CLK_WaitClockReady_of_never hnever] at herr
  exact absurd herr.2.2 (by decide)

theorem reports_of_first_iff (hd : d ≤ 2160000) (hready : Ready STATUS u32ClkMask d)
    (hbefore : ∀ i < d, ¬ Ready STATUS u32ClkMask i) :
    Reports STATUS u32ClkMask ↔ d < 2160000 := by
  constructor
  · intro h
    have herr := h 0
    rw [CLK_WaitClockReady_of_first hd hready hbefore] at herr
    -- an error code of `0` stays only where the counter has not come to its end
    have hlast : d ≠ 2160000 := by
      rintro rfl
      exact absurd herr.2.2 (by decide)
    omega
  · intro hlt err
    rw [CLK_WaitClockReady_of_first hd hready hbefore, if_neg hlt.ne]
    exact ⟨by omega, ⟨fun _ => ⟨d, d.lt_succ_self, hready⟩, fun _ => rfl⟩, rfl⟩

/-- **A wait is reported rightly iff its clock is ready before the counter is used up.** -/
theorem wait_reports_iff (STATUS : ℕ → BitVec 32) (u32ClkMask : BitVec 32) :
    Reports STATUS u32ClkMask ↔ ∃ i < 2160000, Ready STATUS u32ClkMask i := by
  rcases first_or_never STATUS u32ClkMask 2160000 with ⟨d, hd, hready, hbefore⟩ | hnever
  · rw [reports_of_first_iff hd hready hbefore]
    constructor
    · exact fun hlt => ⟨d, hlt, hready⟩
    · rintro ⟨i, hi, hi'⟩
      exact (Nat.le_of_not_lt fun hlt => hbefore i hlt hi').trans_lt hi
  · refine iff_of_false (not_reports_of_never hnever) ?_
    rintro ⟨i, hi, hi'⟩
    exact hnever i hi.le hi'

/-- A clock that is never stable: the wait returns `0` and sets no error code. -/
theorem wait_reports_not_always : ¬ ∀ STATUS u32ClkMask, Reports STATUS u32ClkMask :=
  fun h => not_reports_of_never (fun _ _ => show ¬ (0#32 &&& 1#32 = 1#32) by decide)
    (h (fun _ => 0) 1)

end Reports

end Clk
