/-
Strings of C, and the decimal numbers that its library reads in them.

* **`CString`** — the bytes before the terminator; reading one behind it is undefined;
* **`atol`** — blanks, a sign and digits, and whatever follows them is not looked at;
* **`atol_of_digits`** — a text of digits is read as their number.
-/
import Mathlib.Algebra.Group.Int.Defs
import Mathlib.Data.List.TakeWhile
import Mathlib.Tactic.Common

/-- A string up to its terminator. -/
structure CString where
  chars : List UInt8
  nonzero : ∀ c ∈ chars, c ≠ 0

/-- `s[i]`; the terminator can be read, and nothing behind it. -/
def CString.at (s : CString) (i : ℕ) : Option UInt8 := (s.chars ++ [0])[i]?

namespace Numeral

/-- `isspace`, in the C locale. -/
def isspace (c : UInt8) : Bool := c = 32 || (9 ≤ c && c ≤ 13)

def isdigit (c : UInt8) : Bool := 48 ≤ c && c ≤ 57

/-- The number that digits make, the first of them the highest. -/
def decimal (digits : List UInt8) : ℕ := digits.foldl (fun n c => 10 * n + (c.toNat - 48)) 0

/-- What is before a number: whether there is a minus sign, and the text behind it. -/
def sign : List UInt8 → Bool × List UInt8
  | c :: text => if c = 45 then (true, text) else if c = 43 then (false, text) else (false, c :: text)
  | [] => (false, [])

/-- `atol`, for a `long` of 32 bits; a number that is too large becomes the last one. -/
def atol (text : List UInt8) : ℤ :=
  let (minus, text) := sign (text.dropWhile isspace)
  let n : ℤ := decimal (text.takeWhile isdigit)
  if minus then max (-n) (-2 ^ 31) else min n (2 ^ 31 - 1)

theorem isspace_of_isdigit {c : UInt8} (h : isdigit c = true) : isspace c = false := by
  simp only [isdigit, Bool.and_eq_true, decide_eq_true_eq, UInt8.le_iff_toNat_le] at h
  simp only [isspace, Bool.or_eq_false_iff, Bool.and_eq_false_iff, decide_eq_false_iff_not,
    UInt8.le_iff_toNat_le, ← UInt8.toNat_inj]
  change 48 ≤ c.toNat ∧ c.toNat ≤ 57 at h
  change ¬ c.toNat = 32 ∧ (¬ 9 ≤ c.toNat ∨ ¬ c.toNat ≤ 13)
  omega

theorem sign_of_isdigit {c : UInt8} {text : List UInt8} (h : isdigit c = true) :
    sign (c :: text) = (false, c :: text) := by
  have hminus : c ≠ 45 := by rintro rfl; exact absurd h (by decide)
  have hplus : c ≠ 43 := by rintro rfl; exact absurd h (by decide)
  rw [sign, if_neg hminus, if_neg hplus]

/-- **Digits are read as their number.** -/
theorem atol_of_digits {text : List UInt8} (h : ∀ c ∈ text, isdigit c = true) :
    atol text = min (decimal text : ℤ) (2 ^ 31 - 1) := by
  cases text with
  | nil => rfl
  | cons c text =>
    have hc := h c List.mem_cons_self
    have hspace : (c :: text).dropWhile isspace = c :: text :=
      List.dropWhile_cons_of_neg (by simp [isspace_of_isdigit hc])
    have hall : (c :: text).takeWhile isdigit = c :: text := List.takeWhile_eq_self_iff.mpr h
    simp only [atol, hspace, sign_of_isdigit hc, hall, Bool.false_eq_true, if_false]

end Numeral
