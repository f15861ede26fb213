/-
Bit fields of a machine word.

`field r pos len` is the value of the `len` bits of `r` from `pos` on.  A word
is written either by adding up shifted values, which `field_pack` reads back, or
by replacing one field, `setField`, which `field_setField` reads back and
`field_setField_of_disjoint` leaves out of the other fields.
-/
import Mathlib.Tactic

variable {w : ℕ}

/-- The value of the `len` bits of `r` from `pos` on. -/
def field (r : BitVec w) (pos len : ℕ) : ℕ := r.toNat / 2 ^ pos % 2 ^ len

/-- `r` with the `len` bits from `pos` on cleared and `v`, shifted to `pos`, put in. -/
def setField (r : BitVec w) (pos len : ℕ) (v : BitVec w) : BitVec w :=
  (r &&& ~~~(BitVec.ofNat w (2 ^ len - 1) <<< pos)) ||| (v <<< pos)

theorem field_lt (r : BitVec w) (pos len : ℕ) : field r pos len < 2 ^ len :=
  Nat.mod_lt _ (by positivity)

/-- The middle part of a sum of three parts that do not overlap. -/
theorem field_pack {r : BitVec w} {pos len a v b : ℕ} (ha : a < 2 ^ pos) (hv : v < 2 ^ len)
    (h : r.toNat = a + 2 ^ pos * (v + 2 ^ len * b)) : field r pos len = v := by
  rw [field, h, Nat.add_mul_div_left _ _ (by positivity), Nat.div_eq_of_lt ha, Nat.zero_add,
    Nat.add_mul_mod_self_left, Nat.mod_eq_of_lt hv]

theorem testBit_field (r : BitVec w) (pos len i : ℕ) :
    (field r pos len).testBit i = (decide (i < len) && r.getLsbD (pos + i)) := by
  rw [field, Nat.testBit_mod_two_pow, Nat.testBit_div_two_pow, BitVec.getLsbD, Nat.add_comm]

theorem getLsbD_setField {r v : BitVec w} {pos len : ℕ} (hv : v.toNat < 2 ^ len) {i : ℕ}
    (hi : i < w) :
    (setField r pos len v).getLsbD i =
      if pos ≤ i ∧ i < pos + len then v.getLsbD (i - pos) else r.getLsbD i := by
  have hones : (BitVec.ofNat w (2 ^ len - 1)).getLsbD (i - pos) = decide (i - pos < len) := by
    rw [BitVec.getLsbD_ofNat, Nat.testBit_two_pow_sub_one]
    simp
    omega
  have hhigh : len ≤ i - pos → v.getLsbD (i - pos) = false := by
    intro h
    exact Nat.testBit_lt_two_pow (lt_of_lt_of_le hv (Nat.pow_le_pow_right (by omega) h))
  rw [setField, BitVec.getLsbD_or, BitVec.getLsbD_and, BitVec.getLsbD_not, BitVec.getLsbD_shiftLeft,
    BitVec.getLsbD_shiftLeft, hones]
  by_cases h1 : pos ≤ i
  · by_cases h2 : i < pos + len
    · rw [if_pos ⟨h1, h2⟩]
      simp [hi, show ¬ i < pos by omega, show i - pos < len by omega]
    · rw [if_neg (fun h => h2 h.2), hhigh (by omega)]
      simp [hi, show ¬ i - pos < len by omega]
  · rw [if_neg (fun h => h1 h.1)]
    simp [hi, show i < pos by omega]

theorem field_setField {r v : BitVec w} {pos len : ℕ} (hv : v.toNat < 2 ^ len)
    (hw : pos + len ≤ w) : field (setField r pos len v) pos len = v.toNat := by
  refine Nat.eq_of_testBit_eq fun i => ?_
  rw [testBit_field]
  by_cases hi : i < len
  · rw [getLsbD_setField hv (by omega), if_pos (by omega), Nat.add_sub_cancel_left]
    simp [hi, BitVec.getLsbD]
  · rw [Nat.testBit_lt_two_pow (lt_of_lt_of_le hv (Nat.pow_le_pow_right (by omega) (by omega)))]
    simp [hi]

/-- A value that is too wide for its field is read back cut off. -/
theorem field_setField_mod {r v : BitVec w} {pos len : ℕ} (hw : pos + len ≤ w) :
    field (setField r pos len v) pos len = v.toNat % 2 ^ len := by
  refine Nat.eq_of_testBit_eq fun i => ?_
  rw [testBit_field, Nat.testBit_mod_two_pow, ← BitVec.getLsbD]
  by_cases hi : i < len
  · have hones : (BitVec.ofNat w (2 ^ len - 1)).getLsbD i = true := by
      rw [BitVec.getLsbD_ofNat, Nat.testBit_two_pow_sub_one]
      simp
      omega
    rw [setField, BitVec.getLsbD_or, BitVec.getLsbD_and, BitVec.getLsbD_not,
      BitVec.getLsbD_shiftLeft, BitVec.getLsbD_shiftLeft, Nat.add_sub_cancel_left, hones]
    simp [hi, show pos + i < w by omega]
  · simp [hi]

theorem field_setField_of_disjoint {r v : BitVec w} {pos len pos' len' : ℕ}
    (hv : v.toNat < 2 ^ len) (hd : pos + len ≤ pos' ∨ pos' + len' ≤ pos) :
    field (setField r pos len v) pos' len' = field r pos' len' := by
  refine Nat.eq_of_testBit_eq fun i => ?_
  rw [testBit_field, testBit_field]
  by_cases hi : i < len'
  · by_cases hw : pos' + i < w
    · rw [getLsbD_setField hv hw, if_neg (by omega)]
    · rw [BitVec.getLsbD_of_ge _ _ (by omega), BitVec.getLsbD_of_ge _ _ (by omega)]
  · simp [hi]
