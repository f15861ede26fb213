/-
Decimal digits packed into the fields of a machine word.

A word is built by or-ing digits shifted to their places.  Reading a field masks and shifts it
back; it is a homomorphism for `|||`, so that a field is read off one digit at a time:

* **`readField_packDigits`** — a digit that fits its field, apart from the others, is read back;
* **`tens_units`** — the two digits of a number below a hundred give it back.
-/
import Mathlib.Tactic

variable {w : ℕ}

/-- The mask of `len` bits at `pos`. -/
def fieldMask (w pos len : ℕ) : BitVec w := BitVec.ofNat w (2 ^ len - 1) <<< pos

/-- A field of a register, masked and shifted down. -/
def readField (r : BitVec w) (pos len : ℕ) : BitVec w := (r &&& fieldMask w pos len) >>> pos

/-- A digit on its way into a word: its value, and the field it is shifted to. -/
structure Digit (w : ℕ) where
  val : BitVec w
  pos : ℕ
  len : ℕ

/-- A decimal digit that fits its field. -/
structure Digit.Valid (d : Digit w) : Prop where
  decimal : d.val.toNat ≤ 9
  fits : d.val.toNat < 2 ^ d.len
  inWord : d.pos + d.len ≤ w

/-- The fields of two digits do not overlap. -/
def Digit.Apart (d e : Digit w) : Prop := d.pos + d.len ≤ e.pos ∨ e.pos + e.len ≤ d.pos

/-- The digits or-ed together, each shifted to its place. -/
def packDigits (l : List (Digit w)) : BitVec w := l.foldl (fun r d => r ||| d.val <<< d.pos) 0

/-! ### Reading fields -/

theorem getLsbD_readField (r : BitVec w) (pos len i : ℕ) :
    (readField r pos len).getLsbD i = (decide (i < len) && r.getLsbD (pos + i)) := by
  rw [readField, fieldMask, BitVec.getLsbD_ushiftRight, BitVec.getLsbD_and,
    BitVec.getLsbD_shiftLeft, BitVec.getLsbD_ofNat, Nat.testBit_two_pow_sub_one]
  by_cases hw : pos + i < w
  · simp [hw, show i < w by omega, Bool.and_comm]
  · simp [BitVec.getLsbD_of_ge r (pos + i) (by omega)]

theorem readField_or (a b : BitVec w) (pos len : ℕ) :
    readField (a ||| b) pos len = readField a pos len ||| readField b pos len := by
  refine BitVec.eq_of_getLsbD_eq fun i _ => ?_
  simp only [BitVec.getLsbD_or, getLsbD_readField, Bool.and_or_distrib_left]

theorem readField_zero (pos len : ℕ) : readField (0 : BitVec w) pos len = 0 := by
  refine BitVec.eq_of_getLsbD_eq fun i _ => ?_
  simp [getLsbD_readField]

/-- A bit beyond the length a value fits in is clear. -/
theorem getLsbD_of_fits {v : BitVec w} {len i : ℕ} (hv : v.toNat < 2 ^ len) (hi : len ≤ i) :
    v.getLsbD i = false :=
  Nat.testBit_lt_two_pow (lt_of_lt_of_le hv (Nat.pow_le_pow_right (by omega) hi))

theorem readField_self {v : BitVec w} {pos len : ℕ} (hv : v.toNat < 2 ^ len)
    (hw : pos + len ≤ w) : readField (v <<< pos) pos len = v := by
  refine BitVec.eq_of_getLsbD_eq fun i hi => ?_
  rw [getLsbD_readField, BitVec.getLsbD_shiftLeft]
  by_cases hl : i < len
  · simp [hl, show pos + i < w by omega]
  · simp [hl, getLsbD_of_fits hv (by omega : len ≤ i)]

theorem readField_apart {v : BitVec w} {pos len pos' len' : ℕ} (hv : v.toNat < 2 ^ len)
    (ha : pos + len ≤ pos' ∨ pos' + len' ≤ pos) :
    readField (v <<< pos) pos' len' = 0 := by
  refine BitVec.eq_of_getLsbD_eq fun i hi => ?_
  rw [getLsbD_readField, BitVec.getLsbD_shiftLeft]
  by_cases hl : i < len'
  · by_cases hp : pos' + i < pos
    · simp [hp]
    · simp [getLsbD_of_fits hv (by omega : len ≤ pos' + i - pos)]
  · simp [hl]

/-! ### Packed digits -/

/-- Digits apart from a field leave it as it was. -/
theorem readField_foldl_apart {l : List (Digit w)} {pos len : ℕ}
    (hv : ∀ d ∈ l, d.val.toNat < 2 ^ d.len)
    (ha : ∀ d ∈ l, d.pos + d.len ≤ pos ∨ pos + len ≤ d.pos) (r : BitVec w) :
    readField (l.foldl (fun r d => r ||| d.val <<< d.pos) r) pos len = readField r pos len := by
  induction l generalizing r with
  | nil => rfl
  | cons d l ih =>
    rw [List.foldl_cons, ih (fun e he => hv e (List.mem_cons_of_mem _ he))
      (fun e he => ha e (List.mem_cons_of_mem _ he)), readField_or,
      readField_apart (hv d List.mem_cons_self) (ha d List.mem_cons_self)]
    exact BitVec.or_zero

/-- **A digit is read back** from the word it was packed into. -/
theorem readField_packDigits {l : List (Digit w)} (hv : ∀ d ∈ l, d.Valid)
    (ha : l.Pairwise Digit.Apart) {d : Digit w} (hd : d ∈ l) :
    readField (packDigits l) d.pos d.len = d.val := by
  suffices h : ∀ r : BitVec w, readField r d.pos d.len = 0 →
      readField (l.foldl (fun r d => r ||| d.val <<< d.pos) r) d.pos d.len = d.val from
    h 0 (readField_zero _ _)
  intro r hr
  induction l generalizing r with
  | nil => cases hd
  | cons e l ih =>
    have hv' : ∀ d ∈ l, d.Valid := fun d hd => hv d (List.mem_cons_of_mem _ hd)
    obtain ⟨hae, hal⟩ := List.pairwise_cons.1 ha
    rw [List.foldl_cons]
    rcases List.mem_cons.1 hd with rfl | hd'
    · rw [readField_foldl_apart (fun c hc => (hv' c hc).fits)
        (fun c hc => (hae c hc).symm), readField_or, hr,
        readField_self (hv d hd).fits (hv d hd).inWord]
      exact BitVec.zero_or
    · refine ih hv' hal hd' _ ?_
      rw [readField_or, hr, readField_apart (hv e List.mem_cons_self).fits (hae d hd')]
      exact BitVec.zero_or

/-- **A number is its tens and its units.** -/
theorem tens_units (v : BitVec 32) : v / 10#32 * 10#32 + v % 10#32 = v := by
  refine BitVec.eq_of_toNat_eq ?_
  have := v.isLt
  simp only [BitVec.toNat_add, BitVec.toNat_mul, BitVec.toNat_udiv, BitVec.toNat_umod,
    BitVec.toNat_ofNat, Nat.reducePow, Nat.reduceMod]
  omega
