/-
When a transfer starts.

A transfer on a channel in use, with a proper width and aligned addresses, is
refused for want of descriptors only.  Up to 65536 units it needs none of the pool;
beyond, `ChainReady` says what it needs, and `nu_pdma_transfer_starts_iff` that
nothing else is.
-/
import NuMaker.Pdma.Chain

namespace Pdma

/-- A chain for `n` units can be had: the channel has one of that length, or, no array
being missing, memory for one is there and enough tokens are. -/
def ChainReady (c : Core) (id n : ℕ) (malloc : Option (ℕ → nu_pdma_desc_t)) : Prop :=
  if (c.chain (arrayIdx id)).2 = n / 65536 + 1 then (c.chain (arrayIdx id)).1.isSome = true
  else
    ((c.chain (arrayIdx id)).2 = 0 ∨ (c.chain (arrayIdx id)).1.isSome = true) ∧ malloc.isSome = true ∧
      n / 65536 + 1 ≤ (c.takable id).card

instance (c : Core) (id n : ℕ) (malloc : Option (ℕ → nu_pdma_desc_t)) :
    Decidable (ChainReady c id n malloc) := by
  unfold ChainReady
  infer_instance

theorem Core.Given.takable {c : Core} {id : ℕ} {t : BitVec 32}
    (h : c.Given (modIdx id) (c.own (arrayIdx id)) t) : tokenSet t = c.takable id := by
  ext i
  rw [mem_tokenSet, Core.takable, Finset.mem_filter, Finset.mem_range, h i, Bool.or_eq_true,
    decide_eq_true_eq]
  refine ⟨fun hi => ⟨?_, hi⟩, fun hi => hi.2⟩
  exact BitVec.lt_of_getLsbD ((h i).trans (by simpa using hi))

/-! ### Preparing a chain -/

/-- The old chain can be given back unless its array is missing. -/
theorem chainRelease_isSome_iff {s : State} {id : ℕ} (hok : s.core.Ok) :
    (chainRelease s id).isSome ↔
      (s.core.chain (arrayIdx id)).2 = 0 ∨ (s.core.chain (arrayIdx id)).1.isSome := by
  have hchain : s.core.chain (arrayIdx id) = ((s.nu_pdma_chn_arr (arrayIdx id)).m_ppsSgtbl,
    (s.nu_pdma_chn_arr (arrayIdx id)).m_u32WantedSGTblNum) := rfl
  rw [chainRelease, hchain]
  simp only
  split
  · rename_i hpos
    cases harr : (s.nu_pdma_chn_arr (arrayIdx id)).m_ppsSgtbl with
    | none => simp [Nat.ne_of_gt hpos]
    | some arr =>
      rw [harr] at hchain
      obtain ⟨l, rfl, hasc, hlt, hlen, -⟩ := hok.chain_ok _ _ _ hchain
      obtain ⟨htake, -, hin⟩ := hok.own_take hchain
      have hnum : (s.nu_pdma_chn_arr (arrayIdx id)).m_u32WantedSGTblNum ≤ 4096 := by
        have := ascending_length_le hasc hlt
        omega
      obtain ⟨s1, arr1, hfree⟩ := @nu_pdma_sgtbls_free_ok s id _ _ hnum (by rwa [htake])
      obtain ⟨t, -, -, -, harr1⟩ := nu_pdma_sgtbls_free_some hfree
      simp only [hfree, Option.isSome_some, or_true, iff_true]
      -- the array holds null entries only when it is given back once more
      obtain ⟨s2, arr2, hfree2⟩ := @nu_pdma_sgtbls_free_ok
        (s1.setChn (arrayIdx id) { s.nu_pdma_chn_arr (arrayIdx id) with m_ppsSgtbl := some arr1 })
        id _ arr1 hnum (by
          rw [harr1, List.take_left' (List.length_replicate ..)]
          exact fun i hi => absurd (List.eq_of_mem_replicate hi) (by simp))
      unfold _nu_pdma_sgtbls_free
      simp [hfree2]
  · rename_i hpos
    simp [Nat.eq_zero_of_not_pos hpos]

/-- With memory for the array and enough tokens a chain is obtained. -/
theorem chainObtain_ok (s : State) {id wanted : ℕ} {malloc : Option (ℕ → nu_pdma_desc_t)}
    (hm : malloc.isSome) (hw : wanted ≤ (s.freeTokens (modIdx id)).card) :
    ∃ s', chainObtain s id wanted malloc = some (RT_EOK, s') := by
  obtain ⟨words, rfl⟩ := Option.isSome_iff_exists.mp hm
  have h32 : (s.freeTokens (modIdx id)).card ≤ 32 := by
    have := Finset.card_filter_le (Finset.range 32)
      fun i => (s.m_u32SGTblToken (modIdx id)).getLsbD i = true
    rwa [Finset.card_range] at this
  obtain ⟨ok, t, l, hrun, ht⟩ := nu_pdma_sgtbls_allocate_loop_taken wanted
    (s.m_u32SGTblToken (modIdx id)) []
  obtain rfl := ht.ok_iff.mpr hw
  have hnum : wanted ≤ NU_PDMA_SG_TBL_MAXSIZE := by
    rw [NU_PDMA_SG_TBL_MAXSIZE]
    omega
  rw [chainObtain]
  simp only [nu_pdma_sgtbls_allocate, if_pos hnum, hrun]
  exact ⟨_, rfl⟩

theorem chainPrepare_ready_iff {s : State} {id n : ℕ} {malloc : Option (ℕ → nu_pdma_desc_t)}
    (hok : s.core.Ok) : (∃ s', chainPrepare s id n malloc = some (RT_EOK, s') ∧
      (s'.core.chain (arrayIdx id)).1.isSome) ↔ ChainReady s.core id n malloc := by
  have hchain : (s.nu_pdma_chn_arr (arrayIdx id)).m_u32WantedSGTblNum =
    (s.core.chain (arrayIdx id)).2 := rfl
  rw [chainPrepare, ChainReady, NU_PDMA_MAX_TXCNT, hchain]
  by_cases hw : (s.core.chain (arrayIdx id)).2 = n / 65536 + 1
  · simp [hw]
  · simp only [ne_eq, hw, not_false_iff, if_true, if_false, ← chainRelease_isSome_iff hok]
    cases hr : chainRelease s id with
    | none => simp
    | some s0 =>
      obtain ⟨t0, w0, h0, hs0⟩ := chainRelease_some hok hr
      have hfree : s0.freeTokens (modIdx id) = s.core.takable id := by
        rw [← h0.takable]
        show tokenSet (s0.core.token (modIdx id)) = _
        rw [hs0]
        simp
      simp only [Option.isSome_some, true_and]
      constructor
      · rintro ⟨s', hobt, hsome⟩
        rcases chainObtain_cases hobt with ⟨hne, -⟩ | ⟨-, t, l, ht, -⟩ | ⟨hne, -⟩
        · exact absurd rfl hne
        · refine ⟨?_, ?_⟩
          · cases malloc with
            | none =>
              rw [chainObtain] at hobt
              exact absurd (show RT_ERROR = RT_EOK from congrArg Prod.fst (Option.some.inj hobt))
                (by decide)
            | some words => rfl
          · rw [← hfree]
            exact ht.ok_iff.mp rfl
        · exact absurd rfl hne
      · rintro ⟨hm, hle⟩
        obtain ⟨s', hobt⟩ := chainObtain_ok s0 hm (hfree ▸ hle)
        refine ⟨s', hobt, ?_⟩
        rcases chainObtain_cases hobt with ⟨hne, -⟩ | ⟨-, t, l, -, hs'⟩ | ⟨hne, -⟩
        · exact absurd rfl hne
        · rw [hs']
          simp
        · exact absurd rfl hne

/-! ### Setting up descriptors -/

section Aligned

variable {id w : ℕ} {src dst : BitVec 32} (hw : w = 8 ∨ w = 16 ∨ w = 32)
  (hsrc : src.toNat % (w / 8) = 0) (hdst : dst.toNat % (w / 8) = 0)

include hw

/-- An offset of whole units keeps an address aligned. -/
theorem chainAddr_aligned {inc : Bool} {a : BitVec 32} (ha : a.toNat % (w / 8) = 0) {off : ℕ}
    (hoff : off % (w / 8) = 0) : (chainAddr inc a off).toNat % (w / 8) = 0 := by
  cases inc with
  | false => exact ha
  | true =>
    rw [chainAddr, if_pos rfl, BitVec.toNat_add, BitVec.toNat_ofNat]
    rcases hw with rfl | rfl | rfl
    · omega
    · omega
    · omega

include hsrc hdst

theorem nu_pdma_desc_setup_starts {s : State} (ha : nu_pdma_check_is_nonallocated s id = false)
    (p : Desc) {n : ℕ} (hn : n ≤ 65536) (next : nu_pdma_desc_t) (silent : Bool) :
    (nu_pdma_desc_setup s id (some p) w src dst n next silent).1 = RT_EOK := by
  have hal : ¬ (src.toNat % (w / 8) ≠ 0 ∨ dst.toNat % (w / 8) ≠ 0) := by simp [hsrc, hdst]
  have hcnt : ¬ n > NU_PDMA_MAX_TXCNT := Nat.not_lt.mpr hn
  unfold nu_pdma_desc_setup
  simp only [ha, Bool.false_eq_true, if_false, hw, not_true_eq_false, if_neg hal, if_neg hcnt]

theorem chainLoop_starts {e : nu_pdma_memctrl_t} {l : List ℕ} : ∀ {s : State} {n off : ℕ},
    nu_pdma_check_is_nonallocated s id = false → off % (w / 8) = 0 →
    (chainLoop id w src dst e s (entries l) n off).1 = RT_EOK := by
  induction l with
  | nil => exact fun _ _ => rfl
  | cons i l ih =>
    intro s n off ha hoff
    have hset : (nu_pdma_desc_setup s id (some (.tbl (i : ℕ))) w (chainAddr e.srcInc src off)
        (chainAddr e.dstInc dst off) (chainTxCnt n) ((entries l).headD none)
        (decide ¬ entries l = [])).1 = RT_EOK :=
      nu_pdma_desc_setup_starts hw (chainAddr_aligned hw hsrc hoff) (chainAddr_aligned hw hdst hoff)
        ha _ (chainTxCnt_le n) _ _
    rw [entries, List.map_cons, ← entries, chainLoop]
    simp only [Option.map_some, hset, ne_eq, not_true_eq_false, if_false]
    refine ih ?_ ?_
    · rw [← ha]
      exact congrArg (fun c : Core => decide (c.mask (modIdx id) &&& bit (chnIdx id) = 0))
        (nu_pdma_desc_setup_core ..)
    · rcases hw with rfl | rfl | rfl
      · omega
      · omega
      · omega

/-! ### The transfer -/

theorem _nu_pdma_transfer_chain_starts_iff {s : State} (hok : s.core.Ok)
    (ha : nu_pdma_check_is_nonallocated s id = false) {n t : ℕ}
    {malloc : Option (ℕ → nu_pdma_desc_t)} :
    (∃ s', _nu_pdma_transfer_chain s id w src dst n t malloc = some (RT_EOK, s')) ↔
      ChainReady s.core id n malloc := by
  rw [← chainPrepare_ready_iff hok]
  unfold _nu_pdma_transfer_chain
  simp only
  constructor
  · rintro ⟨s', h⟩
    cases hp : chainPrepare s id n malloc with
    | none =>
      rw [hp] at h
      exact absurd h (by simp)
    | some r =>
      obtain ⟨ret, s1⟩ := r
      simp only [hp] at h
      by_cases hret : ret ≠ RT_EOK
      · rw [if_pos hret] at h
        exact absurd rfl (chainExit_some hret h).1
      · obtain rfl : ret = RT_EOK := not_not.mp hret
        refine ⟨s1, rfl, ?_⟩
        rw [if_neg hret] at h
        cases harr : (s1.nu_pdma_chn_arr (arrayIdx id)).m_ppsSgtbl with
        | none =>
          rw [harr] at h
          exact absurd h (by simp)
        | some arr => simp [State.core, harr]
  · rintro ⟨s1, hp, hsome⟩
    obtain ⟨arr, harr⟩ := Option.isSome_iff_exists.mp hsome
    obtain ⟨-, l, rfl, -, -, hlen⟩ := chainPrepare_ok hok hp harr
    have ha1 : nu_pdma_check_is_nonallocated s1 id = false := by
      have hmask : s1.core.mask = s.core.mask := by
        have hdone := chainPrepare_done hok hp
        generalize s1.core = c1 at hdone
        cases hdone <;> rfl
      rw [← ha]
      exact congrArg (fun m : ℕ → BitVec 32 => decide (m (modIdx id) &&& bit (chnIdx id) = 0)) hmask
    have hrun : (chainLoop id w src dst (s.nu_pdma_chn_arr (arrayIdx id)).m_eMemCtl s1 (entries l)
      n 0).1 = RT_EOK := chainLoop_starts hw hsrc hdst ha1 (Nat.zero_mod _)
    have harr' : (s1.nu_pdma_chn_arr (arrayIdx id)).m_ppsSgtbl = some (entries l) := harr
    cases l with
    | nil => exact absurd hlen (by simp)
    | cons i l =>
      simp only [hp, ne_eq, not_true_eq_false, if_false, harr', hrun]
      exact ⟨_, rfl⟩

/-- **When a transfer starts**: on a channel in use, with a proper width and aligned
addresses, if and only if it fits in one descriptor or a chain can be had. -/
theorem nu_pdma_transfer_starts_iff {s : State} (hok : s.core.Ok) (hid : IsChn id)
    (ha : nu_pdma_check_is_nonallocated s id = false) {n t : ℕ} (h0 : n ≠ 0)
    {malloc : Option (ℕ → nu_pdma_desc_t)} :
    (∃ s', nu_pdma_transfer s id w src dst n t malloc = some (RT_EOK, s')) ↔
      n ≤ 65536 ∨ ChainReady s.core id n malloc := by
  rw [nu_pdma_transfer, if_pos hid.1]
  simp only [ha, Bool.false_eq_true, if_false, h0, NU_PDMA_MAX_TXCNT]
  by_cases hn : n > 65536
  · simp only [hn, if_true, Nat.not_le.mpr hn, false_or]
    exact _nu_pdma_transfer_chain_starts_iff hw hsrc hdst hok ha
  · have hset := nu_pdma_desc_setup_starts hw hsrc hdst ha .chan (Nat.not_lt.mp hn) none false
    simp only [hn, hset, ne_eq, not_true_eq_false, if_false, Nat.not_lt.mp hn, true_or, iff_true]
    exact ⟨_, rfl⟩

end Aligned

end Pdma
