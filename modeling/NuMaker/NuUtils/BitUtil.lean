/-
`nu_ctz` and `nu_cto`: the position of the first set and of the first clear bit
of a word, 32 when there is none.
-/
import NuMaker.Lib.BitMask

namespace NuUtils

/-- `nu_ctz`: count trailing zeros. -/
def nu_ctz (x : BitVec 32) : ℕ := if x ≠ 0 then 31 - (x &&& -x).clz.toNat else 32

/-- `nu_cto`: count trailing ones. -/
def nu_cto (x : BitVec 32) : ℕ := nu_ctz (~~~x)

theorem nu_ctz_zero : nu_ctz 0#32 = 32 := rfl

theorem nu_ctz_lowest {x : BitVec 32} (h : x ≠ 0) : Lowest x (nu_ctz x) := by
  obtain ⟨k, hk⟩ := exists_lowest h
  have heq : nu_ctz x = k := by
    rw [nu_ctz, if_pos h, lowest_isolated hk]
    exact clz_bit (BitVec.lt_of_getLsbD hk.isSet)
  rwa [heq]

theorem nu_ctz_lt {x : BitVec 32} (h : x ≠ 0) : nu_ctz x < 32 :=
  BitVec.lt_of_getLsbD (nu_ctz_lowest h).isSet

theorem nu_ctz_eq_32 {x : BitVec 32} : nu_ctz x = 32 ↔ x = 0 := by
  constructor
  · intro h
    by_contra hx
    exact absurd (nu_ctz_lt hx) (by omega)
  · rintro rfl
    exact nu_ctz_zero

theorem nu_ctz_ne_zero {x : BitVec 32} (h : nu_ctz x < 32) : x ≠ 0 := fun h0 => by
  rw [nu_ctz_eq_32.2 h0] at h
  exact Nat.lt_irrefl _ h

theorem nu_ctz_eq_of_not_lt {x : BitVec 32} (h : ¬ nu_ctz x < 32) : nu_ctz x = 32 := by
  by_contra hne
  exact h (nu_ctz_lt fun h0 => hne (nu_ctz_eq_32.2 h0))

/-- The loops that take the first set bit off go through the bits in order. -/
theorem bits_nu_ctz {x : BitVec 32} (h : x ≠ 0) :
    bits x = nu_ctz x :: bits (x &&& ~~~(1#32 <<< nu_ctz x)) := bits_lowest (nu_ctz_lowest h)

theorem bits_nu_ctz_lt {x : BitVec 32} (h : nu_ctz x < 32) :
    (bits (x &&& ~~~(1#32 <<< nu_ctz x))).length < (bits x).length := by
  rw [bits_nu_ctz (nu_ctz_ne_zero h), List.length_cons]
  exact Nat.lt_succ_self _

/-- The first clear bit below 32: it is clear, and every bit below it is set. -/
theorem nu_cto_spec {x : BitVec 32} (h : nu_cto x < 32) :
    x.getLsbD (nu_cto x) = false ∧ ∀ j < nu_cto x, x.getLsbD j = true := by
  have hne : ~~~x ≠ 0#32 := fun h0 => by
    rw [nu_cto, h0, nu_ctz_zero] at h
    omega
  obtain ⟨h1, h2⟩ := nu_ctz_lowest hne
  rw [← nu_cto] at h1 h2
  refine ⟨?_, fun j hj => ?_⟩
  · simpa [h] using h1
  · have hj' : j < 32 := by omega
    simpa [hj'] using h2 j hj

theorem nu_cto_le (x : BitVec 32) : nu_cto x ≤ 32 := by
  by_cases h : ~~~x = 0#32
  · rw [nu_cto, h, nu_ctz_zero]
  · exact le_of_lt (nu_ctz_lt h)

/-- A clear bit bounds the first one. -/
theorem nu_cto_le_of_clear {x : BitVec 32} {k : ℕ} (hk : k < 32) (h : x.getLsbD k = false) :
    nu_cto x ≤ k := by
  by_contra hlt
  have hle := nu_cto_le x
  by_cases h32 : nu_cto x < 32
  · exact absurd ((nu_cto_spec h32).2 k (by omega)) (by simp [h])
  · have h0 : ~~~x = 0 := nu_ctz_eq_32.mp (show nu_ctz (~~~x) = 32 by rw [← nu_cto]; omega)
    have hb : (~~~x).getLsbD k = (0 : BitVec 32).getLsbD k := by rw [h0]
    rw [BitVec.getLsbD_not, h] at hb
    simp [hk] at hb

end NuUtils
