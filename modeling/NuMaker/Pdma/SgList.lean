/-
The check of a caller's descriptor list, `nu_pdma_sgtbls_valid`.

The walk follows `NEXT` from the head and stops when it is back at the head or at the base of the
pool, which an empty link is taken for.  It looks at the links only, not at the mode that says
whether the engine follows them.  So it goes on for ever on a list that runs into another loop, it
passes what lies behind a descriptor at offset 0, and it may reject what lies behind the last.

* **`SgMem.ends_iff`** — the walk ends iff the links run into no such loop;
* **`SgMem.decides_iff`** — the descriptor memories on which it ends and accepts exactly the lists
  whose descriptors are all in reach.
-/
import NuMaker.Pdma.Driver
import NuMaker.Lib.Orbit

namespace Pdma

/-- `NU_PDMA_SG_LIMITED_DISTANCE`. -/
def NU_PDMA_SG_LIMITED_DISTANCE : BitVec 32 := 0x10000

/-- A memory of descriptors and the base of a module's pool. -/
structure SgMem where
  SCATBA : BitVec 32
  desc : BitVec 32 → DSCT_T

namespace SgMem

variable (M : SgMem)

/-- The address a descriptor is rejected for. -/
def Far (node : BitVec 32) : Prop :=
  node < M.SCATBA ∨ node - M.SCATBA ≥ NU_PDMA_SG_LIMITED_DISTANCE

instance (node : BitVec 32) : Decidable (M.Far node) := inferInstanceAs (Decidable (_ ∨ _))

/-- Where the link of a descriptor points. -/
def next (node : BitVec 32) : BitVec 32 := (M.desc node).NEXT + M.SCATBA

/-- The loop of `nu_pdma_sgtbls_valid` from `node` on, `none` when it is not through in `fuel`
rounds. -/
def nu_pdma_sgtbls_valid_loop (head : BitVec 32) : ℕ → BitVec 32 → Option ℤ
  | 0, _ => none
  | fuel + 1, node =>
    if M.Far node then some RT_ERROR
    else if M.next node ≠ M.SCATBA ∧ M.next node ≠ head then
      nu_pdma_sgtbls_valid_loop head fuel (M.next node)
    else some RT_EOK

/-- `nu_pdma_sgtbls_valid`. -/
def nu_pdma_sgtbls_valid (fuel : ℕ) (head : BitVec 32) : Option ℤ :=
  M.nu_pdma_sgtbls_valid_loop head fuel head

/-! ### What the engine reaches -/

/-- The descriptors that the engine comes to from the head: it follows the link of a descriptor in
scatter-gather mode. -/
inductive Reach (head : BitVec 32) : BitVec 32 → Prop
  | head : Reach head head
  | link {a : BitVec 32} : Reach head a → (M.desc a).OPMODE = 2 → Reach head (M.next a)

/-- Every descriptor of the list is within the distance. -/
def WellFormed (head : BitVec 32) : Prop := ∀ a, M.Reach head a → ¬ M.Far a

/-- What is asked of the check: it ends, and accepts the well-formed lists and no others. -/
def Decides (head : BitVec 32) : Prop :=
  ∃ fuel r, M.nu_pdma_sgtbls_valid fuel head = some r ∧ (r = RT_EOK ↔ M.WellFormed head)

/-- Descriptors in scatter-gather mode up to the `n`-th. -/
def Scatter (head : BitVec 32) (n : ℕ) : Prop := ∀ i < n, (M.desc (M.next^[i] head)).OPMODE = 2

theorem reach_iff (head a : BitVec 32) :
    M.Reach head a ↔ ∃ n, a = M.next^[n] head ∧ M.Scatter head n := by
  constructor
  · intro h
    induction h with
    | head => exact ⟨0, rfl, fun i hi => absurd hi (Nat.not_lt_zero i)⟩
    | link _ hmode ih =>
      obtain ⟨n, rfl, hn⟩ := ih
      refine ⟨n + 1, (Function.iterate_succ_apply' M.next n head).symm, fun i hi => ?_⟩
      rcases Nat.lt_succ_iff_lt_or_eq.mp hi with hi | rfl
      · exact hn i hi
      · exact hmode
  · rintro ⟨n, rfl, hn⟩
    induction n with
    | zero => exact .head
    | succ n ih =>
      rw [Function.iterate_succ_apply']
      exact .link (ih fun i hi => hn i (Nat.lt_succ_of_lt hi)) (hn n (Nat.lt_succ_self n))

/-! ### The walk -/

/-- Where the loop stops. -/
def Stop (head node : BitVec 32) : Prop := node = M.SCATBA ∨ node = head

instance (head node : BitVec 32) : Decidable (M.Stop head node) :=
  inferInstanceAs (Decidable (_ ∨ _))

theorem nu_pdma_sgtbls_valid_eq (head : BitVec 32) (fuel : ℕ) (node : BitVec 32) :
    M.nu_pdma_sgtbls_valid_loop head fuel node =
      (Orbit.walk M.next M.Far (M.Stop head) fuel node).map fun b => if b then RT_EOK else RT_ERROR := by
  induction fuel generalizing node with
  | zero => rfl
  | succ fuel ih =>
    rw [nu_pdma_sgtbls_valid_loop, Orbit.walk, ih]
    by_cases hfar : M.Far node
    · rw [if_pos hfar, if_pos hfar]
      rfl
    rw [if_neg hfar, if_neg hfar]
    by_cases hstop : M.Stop head (M.next node)
    · rw [if_neg fun h => hstop.elim h.1 h.2, if_pos hstop]
      rfl
    · rw [if_pos ⟨fun h => hstop (Or.inl h), fun h => hstop (Or.inr h)⟩, if_neg hstop]

/-- The first `n` links lead neither out of the distance nor back to the head or to offset 0. -/
abbrev Passes (head : BitVec 32) (n : ℕ) : Prop := Orbit.Passes M.next M.Far (M.Stop head) head n

/-- The links run into a loop that neither the head nor offset 0 is on. -/
def Loops (head : BitVec 32) : Prop :=
  ∃ i j, i < j ∧ M.next^[i] head = M.next^[j] head ∧ M.Passes head j

/-- **Termination.**  The check ends iff the list does not run into such a loop. -/
theorem ends_iff (head : BitVec 32) :
    (∃ fuel r, M.nu_pdma_sgtbls_valid fuel head = some r) ↔ ¬ M.Loops head := by
  have hends : (∃ fuel r, M.nu_pdma_sgtbls_valid fuel head = some r) ↔
      Orbit.Ends M.next M.Far (M.Stop head) head := by
    unfold nu_pdma_sgtbls_valid Orbit.Ends
    simp only [nu_pdma_sgtbls_valid_eq, Option.map_eq_some_iff]
    constructor
    · rintro ⟨m, r, b, hb, -⟩
      exact ⟨m, b, hb⟩
    · rintro ⟨m, b, hb⟩
      exact ⟨m, _, b, hb, rfl⟩
  have hfinite : Finite (BitVec 32) :=
    Finite.of_injective BitVec.toFin fun a b h => BitVec.eq_of_toFin_eq h
  rw [hends, Loops, ← Orbit.not_ends_iff_cycle, not_not]

theorem valid_eq_error_iff (head : BitVec 32) (fuel : ℕ) :
    M.nu_pdma_sgtbls_valid fuel head = some RT_ERROR ↔
      ∃ n < fuel, M.Passes head n ∧ M.Far (M.next^[n] head) := by
  rw [← Orbit.walk_eq_false_iff, nu_pdma_sgtbls_valid, nu_pdma_sgtbls_valid_eq]
  cases Orbit.walk M.next M.Far (M.Stop head) fuel head with
  | none => simp
  | some b => cases b <;> simp [RT_EOK, RT_ERROR]

theorem valid_eq_eok_iff (head : BitVec 32) (fuel : ℕ) :
    M.nu_pdma_sgtbls_valid fuel head = some RT_EOK ↔
      ∃ n < fuel, M.Passes head n ∧ ¬ M.Far (M.next^[n] head) ∧ M.Stop head (M.next^[n + 1] head) := by
  rw [← Orbit.walk_eq_true_iff, nu_pdma_sgtbls_valid, nu_pdma_sgtbls_valid_eq]
  cases Orbit.walk M.next M.Far (M.Stop head) fuel head with
  | none => simp
  | some b => cases b <;> simp [RT_EOK, RT_ERROR]

theorem valid_eq_or (head : BitVec 32) {fuel : ℕ} {r : ℤ}
    (h : M.nu_pdma_sgtbls_valid fuel head = some r) : r = RT_EOK ∨ r = RT_ERROR := by
  rw [nu_pdma_sgtbls_valid, nu_pdma_sgtbls_valid_eq, Option.map_eq_some_iff] at h
  obtain ⟨b, -, rfl⟩ := h
  cases b
  · exact Or.inr rfl
  · exact Or.inl rfl

/-! ### When the check decides -/

/-- The `m`-th address is the first that is too far. -/
def FirstFar (head : BitVec 32) (m : ℕ) : Prop :=
  M.Far (M.next^[m] head) ∧ ∀ i < m, ¬ M.Far (M.next^[i] head)

/-- The memories on which the check is right.  No foreign loop; and where the links lead out of
the distance, either they are all followed by the engine and none of the descriptors on the way
behind the head is at offset 0, or one of them is and one is not followed. -/
structure Straight (head : BitVec 32) : Prop where
  ends : ¬ M.Loops head
  far : ∀ m, M.FirstFar head m →
    (M.Scatter head m ↔ ∀ i < m, 0 < i → M.next^[i] head ≠ M.SCATBA)

theorem not_far_base : ¬ M.Far M.SCATBA := by
  rintro (h | h)
  · exact absurd h (BitVec.lt_irrefl _)
  · rw [BitVec.sub_self] at h
    exact absurd h (by decide)

/-- An orbit that leaves the distance does not return to the head before. -/
theorem FirstFar.ne_head {head : BitVec 32} {m : ℕ} (h : M.FirstFar head m) :
    ∀ i < m, 0 < i → M.next^[i] head ≠ head := by
  intro i hi hpos hreturn
  obtain ⟨k, hk, heq⟩ := Orbit.exists_lt_of_return M.next hpos hreturn m
  exact h.2 k (hk.trans hi) (heq ▸ h.1)

theorem exists_firstFar {head : BitVec 32} {n : ℕ} (h : M.Far (M.next^[n] head)) :
    ∃ m ≤ n, M.FirstFar head m := by
  classical
  have hex : ∃ m, M.Far (M.next^[m] head) := ⟨n, h⟩
  exact ⟨Nat.find hex, Nat.find_min' hex h, Nat.find_spec hex, fun i hi => Nat.find_min hex hi⟩

/-- What is too far is the only thing wrong with a list. -/
theorem not_wellFormed_iff (head : BitVec 32) :
    ¬ M.WellFormed head ↔ ∃ m, M.FirstFar head m ∧ M.Scatter head m := by
  constructor
  · intro h
    unfold WellFormed at h
    push Not at h
    obtain ⟨a, hreach, hfar⟩ := h
    obtain ⟨n, rfl, hn⟩ := (M.reach_iff head a).mp hreach
    obtain ⟨m, hm, hfirst⟩ := M.exists_firstFar hfar
    exact ⟨m, hfirst, fun i hi => hn i (lt_of_lt_of_le hi hm)⟩
  · rintro ⟨m, hfirst, hscatter⟩ hwf
    exact hwf _ ((M.reach_iff head _).mpr ⟨m, rfl, hscatter⟩) hfirst.1

/-- The walk rejects a list at the first address that is too far, if it gets there. -/
theorem valid_error_of_firstFar {head : BitVec 32} {m : ℕ} (h : M.FirstFar head m)
    (hbase : ∀ i < m, 0 < i → M.next^[i] head ≠ M.SCATBA) :
    M.nu_pdma_sgtbls_valid (m + 1) head = some RT_ERROR := by
  rw [valid_eq_error_iff]
  refine ⟨m, Nat.lt_succ_self m, fun i hi => ⟨h.2 i hi, fun hstop => ?_⟩, h.1⟩
  rcases Nat.lt_or_eq_of_le hi with hi' | heq
  · rcases hstop with hstop | hstop
    · exact hbase (i + 1) hi' (Nat.succ_pos i) hstop
    · exact h.ne_head M (i + 1) hi' (Nat.succ_pos i) hstop
  · -- neither the base nor the head is too far
    have hfar : M.Far (M.next^[i + 1] head) := by
      rw [show i + 1 = m from heq]
      exact h.1
    rcases hstop with hstop | hstop
    · exact M.not_far_base (hstop ▸ hfar)
    · rw [hstop] at hfar
      exact h.2 0 (Nat.lt_of_le_of_lt (Nat.zero_le i) hi) hfar

/-- It accepts it when a descriptor at offset 0 comes before. -/
theorem valid_eok_of_base {head : BitVec 32} {m : ℕ} (h : M.FirstFar head m)
    (hbase : ∃ i < m, 0 < i ∧ M.next^[i] head = M.SCATBA) :
    ∃ fuel, M.nu_pdma_sgtbls_valid fuel head = some RT_EOK := by
  classical
  obtain ⟨hlt, hpos, heq⟩ := Nat.find_spec hbase
  obtain ⟨n, hn⟩ := Nat.exists_eq_succ_of_ne_zero (Nat.ne_of_gt hpos)
  rw [hn] at hlt heq
  refine ⟨n + 1, (M.valid_eq_eok_iff head _).mpr ⟨n, Nat.lt_succ_self n, fun i hi => ?_,
    h.2 n (by omega), Or.inl heq⟩⟩
  refine ⟨h.2 i (by omega), fun hstop => ?_⟩
  rcases hstop with hstop | hstop
  · exact Nat.find_min hbase (m := i + 1) (by omega) ⟨by omega, Nat.succ_pos i, hstop⟩
  · exact h.ne_head M (i + 1) (by omega) (Nat.succ_pos i) hstop

/-- Two answers of the walk are the same. -/
theorem valid_unique {head : BitVec 32} {fuel fuel' : ℕ} {r r' : ℤ}
    (h : M.nu_pdma_sgtbls_valid fuel head = some r)
    (h' : M.nu_pdma_sgtbls_valid fuel' head = some r') : r = r' := by
  have hexcl : ∀ k k', M.nu_pdma_sgtbls_valid k head = some RT_EOK →
      M.nu_pdma_sgtbls_valid k' head ≠ some RT_ERROR := by
    intro k k' hok herr
    obtain ⟨n, -, hpass, hnear, hstop⟩ := (M.valid_eq_eok_iff head k).mp hok
    obtain ⟨m, -, hpass', hfar⟩ := (M.valid_eq_error_iff head k').mp herr
    rcases Nat.lt_trichotomy n m with hlt | rfl | hlt
    · exact (hpass' n hlt).2 hstop
    · exact hnear hfar
    · exact (hpass m hlt).1 hfar
  rcases M.valid_eq_or head h with rfl | rfl <;> rcases M.valid_eq_or head h' with rfl | rfl
  · rfl
  · exact absurd h' (hexcl _ _ h)
  · exact absurd h (hexcl _ _ h')
  · rfl

/-- **The check.**  It is right exactly on the straight memories. -/
theorem decides_iff (head : BitVec 32) : M.Decides head ↔ M.Straight head := by
  constructor
  · rintro ⟨fuel, r, hr, hright⟩
    refine ⟨(M.ends_iff head).mp ⟨fuel, r, hr⟩, fun m hfirst => ⟨fun hscatter => ?_, fun hbase => ?_⟩⟩
    · -- the list is not well formed, so it was not accepted, so no offset 0 came before
      have hbad : ¬ M.WellFormed head := (M.not_wellFormed_iff head).mpr ⟨m, hfirst, hscatter⟩
      by_contra hno
      push Not at hno
      obtain ⟨fuel', hok⟩ := M.valid_eok_of_base hfirst hno
      exact hbad (hright.mp (M.valid_unique hr hok))
    · -- it was rejected, so the engine does come to an address that is too far
      have herr : r = RT_ERROR := M.valid_unique hr (M.valid_error_of_firstFar hfirst hbase)
      have hbad : ¬ M.WellFormed head := fun hwf => by
        rw [hright.mpr hwf] at herr
        exact absurd herr (by decide)
      obtain ⟨m', hfirst', hscatter⟩ := (M.not_wellFormed_iff head).mp hbad
      have hsame : m' = m := by
        rcases Nat.lt_trichotomy m' m with hlt | heq | hlt
        · exact absurd hfirst'.1 (hfirst.2 m' hlt)
        · exact heq
        · exact absurd hfirst.1 (hfirst'.2 m hlt)
      exact hsame ▸ hscatter
  · rintro ⟨hends, hfar⟩
    obtain ⟨fuel, r, hr⟩ := (M.ends_iff head).mpr hends
    refine ⟨fuel, r, hr, fun hok => ?_, fun hwf => ?_⟩
    · by_contra hbad
      obtain ⟨m, hfirst, hscatter⟩ := (M.not_wellFormed_iff head).mp hbad
      have herr := M.valid_error_of_firstFar hfirst ((hfar m hfirst).mp hscatter)
      have heq : r = RT_ERROR := M.valid_unique hr herr
      rw [hok] at heq
      exact absurd heq (by decide)
    · rcases M.valid_eq_or head hr with heq | heq
      · exact heq
      · exfalso
        rw [heq] at hr
        obtain ⟨m, -, hpass, hm⟩ := (M.valid_eq_error_iff head fuel).mp hr
        have hfirst : M.FirstFar head m := ⟨hm, fun i hi => (hpass i hi).1⟩
        refine (M.not_wellFormed_iff head).mpr ⟨m, hfirst, (hfar m hfirst).mpr fun i hi hpos => ?_⟩ hwf
        obtain ⟨j, rfl⟩ := Nat.exists_eq_succ_of_ne_zero (Nat.ne_of_gt hpos)
        exact fun hbase => (hpass j (by omega)).2 (Or.inl hbase)

end SgMem

/-- A list of two descriptors whose second is linked to itself. -/
def rho : SgMem :=
  { SCATBA := 0x20000000
    desc := fun a => ⟨2, 0, 0, if a = 0x20000010 then 0x20 else if a = 0x20000020 then 0x20 else 0⟩ }

/-- The check of that list does not end. -/
theorem nu_pdma_sgtbls_valid_rho : ¬ rho.Decides 0x20000010 := by
  rintro ⟨fuel, r, hr, -⟩
  refine (rho.ends_iff 0x20000010).mp ⟨fuel, r, hr⟩ ⟨1, 2, by decide, by decide, ?_⟩
  intro i hi
  have h01 : i = 0 ∨ i = 1 := by omega
  rcases h01 with rfl | rfl <;> exact ⟨by decide, by decide⟩

end Pdma
