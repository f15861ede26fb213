/-
Words in memory, least byte first: `nu_get16_le`, `nu_get24_le`, `nu_get32_le` and their setters,
each with its number of bytes as a parameter.
-/
import Mathlib.Tactic

namespace NuUtils

/-- A word read from memory. -/
def getLe (mem : ℕ → BitVec 8) (pos : ℕ) : ℕ → BitVec 32
  | 0 => 0
  | n + 1 => (mem pos).setWidth 32 + getLe mem (pos + 1) n <<< 8

/-- A word written to memory. -/
def setLe (mem : ℕ → BitVec 8) (pos : ℕ) (val : BitVec 32) : ℕ → ℕ → BitVec 8
  | 0 => mem
  | n + 1 => setLe (Function.update mem pos (val.setWidth 8)) (pos + 1) (val >>> 8) n

/-- Reading looks at nothing but its bytes. -/
theorem getLe_congr {mem mem' : ℕ → BitVec 8} {pos n : ℕ}
    (h : ∀ a, pos ≤ a → a < pos + n → mem a = mem' a) : getLe mem pos n = getLe mem' pos n := by
  induction n generalizing pos with
  | zero => rfl
  | succ n ih =>
    rw [getLe, getLe, h pos (le_refl pos) (by omega), ih fun a h1 h2 => h a (by omega) (by omega)]

/-- A written word, byte by byte, and the memory around it. -/
theorem setLe_apply (mem : ℕ → BitVec 8) (pos : ℕ) (val : BitVec 32) (n a : ℕ) :
    setLe mem pos val n a =
      if pos ≤ a ∧ a < pos + n then (val >>> (8 * (a - pos))).setWidth 8 else mem a := by
  induction n generalizing mem pos val with
  | zero => rw [setLe, if_neg (by omega)]
  | succ n ih =>
    rw [setLe, ih]
    by_cases h0 : a = pos
    · subst h0
      rw [if_neg (by omega), if_pos (by omega), Function.update_self, Nat.sub_self, Nat.mul_zero,
        BitVec.ushiftRight_zero]
    · by_cases h1 : pos + 1 ≤ a ∧ a < pos + 1 + n
      · have hshift : 8 * (a - pos) = 8 + 8 * (a - (pos + 1)) := by omega
        rw [if_pos h1, if_pos (by omega), hshift, BitVec.shiftRight_add]
      · rw [if_neg h1, if_neg (by omega), Function.update_of_ne h0]

/-- A word as a number: its low byte and the word of the bytes that follow. -/
theorem getLe_toNat {mem : ℕ → BitVec 8} {pos n : ℕ} (hn : n ≤ 4) :
    (getLe mem pos n).toNat < 256 ^ n ∧ ∀ k, n = k + 1 →
      (getLe mem pos n).toNat = (mem pos).toNat + 256 * (getLe mem (pos + 1) k).toNat := by
  induction n generalizing pos with
  | zero => exact ⟨by simp [getLe], fun k hk => by omega⟩
  | succ n ih =>
    have hlow : (mem pos).toNat < 256 := (mem pos).isLt
    have hrest : (getLe mem (pos + 1) n).toNat < 256 ^ n := (ih (by omega)).1
    have hpow : 256 ^ n ≤ 256 ^ 3 := Nat.pow_le_pow_right (by decide) (by omega)
    have hval : (getLe mem pos (n + 1)).toNat =
        (mem pos).toNat + 256 * (getLe mem (pos + 1) n).toNat := by
      rw [getLe, BitVec.toNat_add, BitVec.toNat_setWidth, BitVec.toNat_shiftLeft, Nat.shiftLeft_eq]
      omega
    refine ⟨?_, fun k hk => ?_⟩
    · rw [hval, Nat.pow_succ]
      omega
    · obtain rfl : n = k := by omega
      exact hval

/-- A word read from memory, byte by byte. -/
theorem getLe_byte {mem : ℕ → BitVec 8} {pos n i : ℕ} (hn : n ≤ 4) (hi : i < n) :
    (getLe mem pos n >>> (8 * i)).setWidth 8 = mem (pos + i) := by
  apply BitVec.eq_of_toNat_eq
  rw [BitVec.toNat_setWidth, BitVec.toNat_ushiftRight, Nat.shiftRight_eq_div_pow]
  induction i generalizing pos n with
  | zero =>
    obtain ⟨k, rfl⟩ : ∃ k, n = k + 1 := ⟨n - 1, by omega⟩
    have hlow : (mem pos).toNat < 256 := (mem pos).isLt
    rw [(getLe_toNat hn).2 k rfl]
    simp only [Nat.mul_zero, Nat.pow_zero, Nat.div_one, Nat.add_zero]
    omega
  | succ i ih =>
    obtain ⟨k, rfl⟩ : ∃ k, n = k + 1 := ⟨n - 1, by omega⟩
    have hlow : (mem pos).toNat < 256 := (mem pos).isLt
    have hdiv : ((mem pos).toNat + 256 * (getLe mem (pos + 1) k).toNat) / 256 =
        (getLe mem (pos + 1) k).toNat := by omega
    have hpow : 2 ^ (8 * (i + 1)) = 256 * 2 ^ (8 * i) := by
      rw [Nat.mul_add, Nat.pow_add, Nat.mul_comm]
    rw [(getLe_toNat hn).2 k rfl, hpow, ← Nat.div_div_eq_div_mul, hdiv, ih (by omega) (by omega),
      Nat.add_right_comm, Nat.add_assoc]

end NuUtils
