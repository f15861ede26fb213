/-
Copying bytes, one by one and in units.

A memory is a map from addresses to bytes, with the addresses written so far.
`copy` copies forward byte by byte; `moves` copies units of `k` bytes, each of
which is read as a whole before it is written.  The two agree when the distance of
the ranges is a multiple of `k` (`moves_eq_copy`), whether or not they overlap.
-/
import Mathlib.Tactic
import Mathlib.Data.BitVec

/-- A memory with a record of the addresses written. -/
structure TracedMem (w : ℕ) where
  byte : BitVec w → BitVec 8
  written : List (BitVec w)

namespace TracedMem

variable {w : ℕ}

def put (M : TracedMem w) (a : BitVec w) (v : BitVec 8) : TracedMem w :=
  ⟨Function.update M.byte a v, M.written ++ [a]⟩

/-- Write `k` bytes from `dst` on. -/
def store (M : TracedMem w) (dst : BitVec w) (v : ℕ → BitVec 8) : ℕ → TracedMem w
  | 0 => M
  | k + 1 => (store M dst v k).put (dst + BitVec.ofNat w k) (v k)

/-- Move one unit of `k` bytes: all are read before the first is written. -/
def move (M : TracedMem w) (dst src : BitVec w) (k : ℕ) : TracedMem w :=
  M.store dst (fun i => M.byte (src + BitVec.ofNat w i)) k

/-- Move `n` units of `k` bytes, one after another. -/
def moves (M : TracedMem w) (dst src : BitVec w) (k : ℕ) : ℕ → TracedMem w
  | 0 => M
  | n + 1 => (moves M dst src k n).move (dst + BitVec.ofNat w (n * k)) (src + BitVec.ofNat w (n * k)) k

/-- Copy `n` bytes forward, one after another. -/
def copy (M : TracedMem w) (dst src : BitVec w) : ℕ → TracedMem w
  | 0 => M
  | n + 1 =>
    let M' := copy M dst src n
    M'.put (dst + BitVec.ofNat w n) (M'.byte (src + BitVec.ofNat w n))

variable (M : TracedMem w) (dst src : BitVec w)

theorem add_ofNat_add (a : BitVec w) (m n : ℕ) :
    a + BitVec.ofNat w m + BitVec.ofNat w n = a + BitVec.ofNat w (m + n) := by
  rw [BitVec.ofNat_add, BitVec.add_assoc]

theorem copy_add (m n : ℕ) :
    M.copy dst src (m + n) =
      (M.copy dst src m).copy (dst + BitVec.ofNat w m) (src + BitVec.ofNat w m) n := by
  induction n with
  | zero => rfl
  | succ n ih =>
    rw [← Nat.add_assoc, copy, ih, copy]
    simp only [add_ofNat_add]

theorem moves_add (k m n : ℕ) :
    M.moves dst src k (m + n) =
      (M.moves dst src k m).moves (dst + BitVec.ofNat w (m * k)) (src + BitVec.ofNat w (m * k)) k n := by
  induction n with
  | zero => rfl
  | succ n ih =>
    rw [← Nat.add_assoc, moves, ih, moves]
    simp only [add_ofNat_add, Nat.add_mul]

/-- Copying changes no byte outside the range. -/
theorem copy_byte_of_ne {n : ℕ} {a : BitVec w} (h : ∀ i < n, a ≠ dst + BitVec.ofNat w i) :
    (M.copy dst src n).byte a = M.byte a := by
  induction n with
  | zero => rfl
  | succ n ih =>
    rw [copy]
    show Function.update (M.copy dst src n).byte _ _ a = _
    rw [Function.update_of_ne (h n (Nat.lt_succ_self n))]
    exact ih fun i hi => h i (Nat.lt_succ_of_lt hi)

theorem copy_written (n : ℕ) :
    (M.copy dst src n).written = M.written ++ (List.range n).map fun i => dst + BitVec.ofNat w i := by
  induction n with
  | zero => simp [copy]
  | succ n ih =>
    rw [copy]
    show (M.copy dst src n).written ++ [_] = _
    rw [ih, List.range_succ, List.map_append, List.append_assoc]
    rfl

/-- A unit is copied byte by byte when no byte of it is read after it was written. -/
theorem move_eq_copy {k : ℕ} (hw : k ≤ 2 ^ w) (hk : k ∣ (dst - src).toNat) : M.move dst src k = M.copy dst src k := by
  have hstore : ∀ j ≤ k, M.store dst (fun i => M.byte (src + BitVec.ofNat w i)) j =
      M.copy dst src j := by
    intro j
    induction j with
    | zero => exact fun _ => rfl
    | succ j ih =>
      intro hj
      rw [store, copy, ih (by omega)]
      congr 1
      refine (copy_byte_of_ne M dst src fun i hi heq => ?_).symm
      -- the distance of the ranges would be `j - i`, which is less than a unit
      have hsplit : BitVec.ofNat w j = BitVec.ofNat w (j - i) + BitVec.ofNat w i := by
        rw [← BitVec.ofNat_add, Nat.sub_add_cancel (Nat.le_of_lt hi)]
      have hdist : dst - src = BitVec.ofNat w (j - i) := by
        rw [hsplit] at heq
        linear_combination -heq
      rw [hdist, BitVec.toNat_ofNat, Nat.mod_eq_of_lt (by omega)] at hk
      have := Nat.le_of_dvd (by omega) hk
      omega
  exact hstore k le_rfl

theorem moves_eq_copy {k : ℕ} (hw : k ≤ 2 ^ w) (hk : k ∣ (dst - src).toNat) (n : ℕ) :
    M.moves dst src k n = M.copy dst src (n * k) := by
  induction n with
  | zero => rw [Nat.zero_mul, moves, copy]
  | succ n ih =>
    have hsub : dst + BitVec.ofNat w (n * k) - (src + BitVec.ofNat w (n * k)) = dst - src := by
      ring
    rw [moves, ih, Nat.succ_mul, copy_add, move_eq_copy _ _ _ hw (by rwa [hsub])]

end TracedMem
