/-
Machine words as sets of bit numbers.

`1 <<< k` is the word with bit `k` only (no bit when `k` is beyond the width);
setting, clearing and testing a bit with it are the set operations.  `x &&& -x`
keeps the lowest bit of `x`, which is how the position of that bit is found
(`lowest_isolated`).
-/
import Mathlib.Tactic

variable {w : ℕ}

theorem getLsbD_bit (k j : ℕ) : ((1#w) <<< k).getLsbD j = (decide (j < w) && decide (j = k)) := by
  rw [BitVec.getLsbD_shiftLeft, BitVec.getLsbD_one]
  by_cases hj : j < w <;> by_cases hk : j = k <;> simp [hj, hk] <;> omega

theorem getLsbD_setBit (x : BitVec w) (k j : ℕ) :
    (x ||| (1#w) <<< k).getLsbD j = (x.getLsbD j || (decide (j < w) && decide (j = k))) := by
  rw [BitVec.getLsbD_or, getLsbD_bit]

theorem getLsbD_clearBit (x : BitVec w) (k j : ℕ) :
    (x &&& ~~~((1#w) <<< k)).getLsbD j = (x.getLsbD j && decide (j ≠ k)) := by
  rw [BitVec.getLsbD_and, BitVec.getLsbD_not, getLsbD_bit]
  by_cases hj : j < w
  · simp [hj]
  · simp [BitVec.getLsbD_of_ge x j (by omega)]

/-- Testing a bit. -/
theorem and_bit_ne_zero (x : BitVec w) (k : ℕ) : x &&& (1#w) <<< k ≠ 0 ↔ x.getLsbD k = true := by
  constructor
  · intro h
    by_contra hk
    refine h (BitVec.eq_of_getLsbD_eq fun j hj => ?_)
    rw [BitVec.getLsbD_and, getLsbD_bit]
    by_cases hjk : j = k
    · subst hjk
      simp [hk]
    · simp [hjk]
  · intro h h0
    have hk : k < w := BitVec.lt_of_getLsbD h
    have hb : (x &&& (1#w) <<< k).getLsbD k = (0 : BitVec w).getLsbD k := by rw [h0]
    rw [BitVec.getLsbD_and, getLsbD_bit, h] at hb
    simp [hk] at hb

theorem exists_bit_of_ne_zero {x : BitVec w} (h : x ≠ 0) : ∃ k < w, x.getLsbD k = true := by
  by_contra hc
  refine h (BitVec.eq_of_getLsbD_eq fun j hj => ?_)
  rw [show (0 : BitVec w).getLsbD j = false from BitVec.getLsbD_zero]
  exact Bool.eq_false_iff.mpr fun hb => hc ⟨j, hj, hb⟩

/-- Bit `k` is the lowest bit of `x`. -/
structure Lowest (x : BitVec w) (k : ℕ) : Prop where
  isSet : x.getLsbD k = true
  below : ∀ j < k, x.getLsbD j = false

theorem Lowest.unique {x : BitVec w} {k k' : ℕ} (h : Lowest x k) (h' : Lowest x k') : k = k' := by
  rcases Nat.lt_trichotomy k k' with hlt | rfl | hlt
  · exact absurd h.isSet (by simp [h'.below k hlt])
  · rfl
  · exact absurd h'.isSet (by simp [h.below k' hlt])

theorem exists_lowest {x : BitVec w} (h : x ≠ 0) : ∃ k, Lowest x k := by
  obtain ⟨k, -, hk⟩ := exists_bit_of_ne_zero h
  have hex : ∃ k, x.getLsbD k = true := ⟨k, hk⟩
  exact ⟨Nat.find hex, Nat.find_spec hex, fun j hj => Bool.eq_false_iff.mpr (Nat.find_min hex hj)⟩

/-- `x &&& -x` is the lowest bit of `x`. -/
theorem lowest_isolated {x : BitVec w} {k : ℕ} (h : Lowest x k) : x &&& -x = (1#w) <<< k := by
  refine BitVec.eq_of_getLsbD_eq fun j hj => ?_
  rw [BitVec.getLsbD_and, BitVec.getLsbD_neg, getLsbD_bit]
  rcases Nat.lt_trichotomy j k with hlt | rfl | hlt
  · simp [h.below j hlt, Nat.ne_of_lt hlt]
  · have hno : ¬ ∃ i < j, x.getLsbD i = true := by
      rintro ⟨i, hi, hb⟩
      exact absurd hb (by simp [h.below i hi])
    simp [h.isSet, hj, hno]
  · have hyes : ∃ i < j, x.getLsbD i = true := ⟨k, hlt, h.isSet⟩
    simp [hyes, hj, Nat.ne_of_gt hlt]

/-- The leading zeros of a single bit give its position. -/
theorem clz_bit {k : ℕ} (hk : k < w) : w - 1 - ((1#w) <<< k).clz.toNat = k := by
  have hset : ((1#w) <<< k).getLsbD k = true := by
    rw [getLsbD_bit]
    simp [hk]
  have hne : (1#w) <<< k ≠ 0 := by
    intro h0
    rw [h0] at hset
    simp at hset
  have htop := BitVec.getLsbD_true_clz_of_ne_zero (by omega) hne
  rw [getLsbD_bit] at htop
  simpa using (Bool.and_eq_true_iff.mp htop).2

/-! ### The bits in order -/

/-- The bits that are set, in ascending order. -/
def bits (x : BitVec w) : List ℕ := (List.range w).filter fun i => x.getLsbD i

theorem mem_bits {x : BitVec w} {i : ℕ} : i ∈ bits x ↔ x.getLsbD i = true := by
  rw [bits, List.mem_filter, List.mem_range]
  exact ⟨fun h => h.2, fun h => ⟨BitVec.lt_of_getLsbD h, h⟩⟩

theorem bits_sorted (x : BitVec w) : (bits x).Pairwise (· < ·) :=
  List.Pairwise.filter _ List.pairwise_lt_range

theorem bits_nodup (x : BitVec w) : (bits x).Nodup := (bits_sorted x).imp Nat.ne_of_lt

@[simp] theorem bits_zero : bits (0 : BitVec w) = [] := by
  rw [bits, List.filter_eq_nil_iff]
  simp

/-- **Taking the lowest bit off** takes the first one off. -/
theorem bits_lowest {x : BitVec w} {k : ℕ} (h : Lowest x k) :
    bits x = k :: bits (x &&& ~~~((1#w) <<< k)) := by
  have hmem : ∀ i, i ∈ bits (x &&& ~~~((1#w) <<< k)) ↔ x.getLsbD i = true ∧ i ≠ k := by
    intro i
    rw [mem_bits, getLsbD_clearBit, Bool.and_eq_true, decide_eq_true_eq]
  refine List.Perm.eq_of_pairwise
    (fun (a b : ℕ) _ _ (hab : a < b) (hba : b < a) => absurd hba hab.asymm)
    (bits_sorted x) (List.Pairwise.cons (fun i hi => ?_) (bits_sorted _)) ?_
  · -- the others are above it
    obtain ⟨hi, hne⟩ := (hmem i).1 hi
    rcases Nat.lt_trichotomy i k with hlt | rfl | hgt
    · rw [h.below i hlt] at hi
      cases hi
    · exact absurd rfl hne
    · exact hgt
  · refine (List.perm_ext_iff_of_nodup (bits_nodup x) (List.nodup_cons.2 ⟨fun hk => ?_,
      bits_nodup _⟩)).2 fun i => ?_
    · exact ((hmem k).1 hk).2 rfl
    · rw [List.mem_cons, hmem, mem_bits]
      by_cases hik : i = k
      · simp only [hik, h.isSet, true_or]
      · simp only [hik, false_or, ne_eq, not_false_eq_true, and_true]

/-! ### Masks -/

variable {x m n s : BitVec w}

theorem or_mask_and (x m : BitVec w) : (x ||| m) &&& m = m := by
  refine BitVec.eq_of_getLsbD_eq fun j _ => ?_
  rw [BitVec.getLsbD_and, BitVec.getLsbD_or]
  cases x.getLsbD j <;> cases m.getLsbD j <;> rfl

/-- Setting bits leaves the others set. -/
theorem and_of_or_mask (m : BitVec w) (h : x &&& n = n) : (x ||| m) &&& n = n := by
  refine BitVec.eq_of_getLsbD_eq fun j _ => ?_
  have hj : (x &&& n).getLsbD j = n.getLsbD j := by rw [h]
  rw [BitVec.getLsbD_and] at hj ⊢
  rw [BitVec.getLsbD_or]
  revert hj
  cases x.getLsbD j <;> cases m.getLsbD j <;> cases n.getLsbD j <;> decide

/-- Setting bits leaves the others as they are. -/
theorem or_mask_and_of_disjoint (x : BitVec w) (h : m &&& n = 0) : (x ||| m) &&& n = x &&& n := by
  refine BitVec.eq_of_getLsbD_eq fun j hw => ?_
  have hj : (m &&& n).getLsbD j = (0 : BitVec w).getLsbD j := by rw [h]
  rw [BitVec.getLsbD_and, show (0 : BitVec w).getLsbD j = false from BitVec.getLsbD_zero] at hj
  rw [BitVec.getLsbD_and, BitVec.getLsbD_or, BitVec.getLsbD_and]
  revert hj
  cases x.getLsbD j <;> cases m.getLsbD j <;> cases n.getLsbD j <;> decide

/-- Clearing bits leaves the others as they are. -/
theorem and_of_and_not_mask (x : BitVec w) (h : m &&& n = 0) : (x &&& ~~~m) &&& n = x &&& n := by
  refine BitVec.eq_of_getLsbD_eq fun j hw => ?_
  have hj : (m &&& n).getLsbD j = (0 : BitVec w).getLsbD j := by rw [h]
  rw [BitVec.getLsbD_and, show (0 : BitVec w).getLsbD j = false from BitVec.getLsbD_zero] at hj
  rw [BitVec.getLsbD_and, BitVec.getLsbD_and, BitVec.getLsbD_not, BitVec.getLsbD_and,
    decide_eq_true hw]
  revert hj
  cases x.getLsbD j <;> cases m.getLsbD j <;> cases n.getLsbD j <;> decide

/-- Replacing what is under a mask. -/
theorem replace_mask_and (x : BitVec w) (h : s &&& m = s) : (x &&& ~~~m ||| s) &&& m = s := by
  refine BitVec.eq_of_getLsbD_eq fun j hw => ?_
  have hj : (s &&& m).getLsbD j = s.getLsbD j := by rw [h]
  rw [BitVec.getLsbD_and] at hj ⊢
  rw [BitVec.getLsbD_or, BitVec.getLsbD_and, BitVec.getLsbD_not, decide_eq_true hw]
  revert hj
  cases x.getLsbD j <;> cases m.getLsbD j <;> cases s.getLsbD j <;> decide
