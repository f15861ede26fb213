/-
Running out of descriptors.

Descriptors are asked for in two places: by a caller of `nu_pdma_sgtbls_allocate`
and by a transfer of more than 65536 units.  The first gives back what it took, entry
by entry.  The second lets the first do so and then gives up the whole array, of
which only the entries up to the failing one were ever assigned; what follows them
is what the memory of the array happened to hold.

* `nu_pdma_sgtbls_allocate_runsOut` — the array and the state after a failing request;
* `nu_pdma_transfer_runsOut` — how the transfer ends, the rest of its array null;
* `shortage_atomic_iff` — running out is atomic exactly when that rest is null.
-/
import NuMaker.Pdma.Start

namespace Pdma

/-! ### What is asked for -/

/-- A request for descriptors: a caller's, into his array, or that of a transfer, into
an array whose memory holds `words`. -/
inductive SgRequest
  | allocate (ppsSgtbls : List nu_pdma_desc_t) (num : ℕ)
  | transfer (u32DataWidth : ℕ) (u32AddrSrc u32AddrDst : BitVec 32)
    (u32TransferCnt u32IdleTimeout_us : ℕ) (words : ℕ → nu_pdma_desc_t)

/-- The request gets as far as asking for tokens, and there are too few. -/
def RunsOut (s : State) (id : ℕ) : SgRequest → Prop
  | .allocate ppsSgtbls num => ppsSgtbls.length = num ∧ (s.freeTokens (modIdx id)).card < num
  | .transfer _ _ _ n _ _ =>
    IsChn id ∧ nu_pdma_check_is_nonallocated s id = false ∧ 65536 < n ∧
      (s.core.chain (arrayIdx id)).2 ≠ n / 65536 + 1 ∧
      ((s.core.chain (arrayIdx id)).2 = 0 ∨ (s.core.chain (arrayIdx id)).1.isSome = true) ∧
      (s.core.takable id).card < n / 65536 + 1

/-- Token `i` of module `m` is free. -/
def Core.IsFree (c : Core) (m i : ℕ) : Prop := (c.token m).getLsbD i = true

/-- Token `i` belongs to the chain on record `k`. -/
def Core.Owns (c : Core) (k i : ℕ) : Prop := some (i : ℤ) ∈ c.own k

/-- Every token that was free or owned is free or has the owner it had, and none is
freed that its owner did not give up. -/
structure Core.Keeps (c c' : Core) : Prop where
  free : ∀ m i, c.IsFree m i → c'.IsFree m i
  owned : ∀ k i, c.Owns k i → c'.Owns k i ∨ c'.IsFree (k / PDMA_CH_MAX) i
  owner : ∀ k i, c'.Owns k i → c.Owns k i
  freed : ∀ m i, c'.IsFree m i → c.IsFree m i ∨ ∃ k, k / PDMA_CH_MAX = m ∧ c.Owns k i ∧ ¬ c'.Owns k i

/-- `nu_pdma_sgtbls_free` on the first `num` entries takes the one at `k` for a
descriptor. -/
def Releases (ppsSgtbls : List nu_pdma_desc_t) (num k : ℕ) : Prop :=
  k < num ∧ ∃ i, ppsSgtbls[k]? = some (some i)

/-- The request fails with an error, every token is kept, and only entries that it
filled are released.  A caller sees the others as they were, where a release
would have cleared them; a transfer hands its array to `chainExit`. -/
def Atomic (s : State) (id : ℕ) : SgRequest → Prop
  | .allocate ppsSgtbls num =>
    ∃ ret s' ppsSgtbls', nu_pdma_sgtbls_allocate s id ppsSgtbls num = some (ret, s', ppsSgtbls') ∧
      ret ≠ RT_EOK ∧ s.core.Keeps s'.core ∧
      ∀ k, (s.freeTokens (modIdx id)).card < k → ppsSgtbls'[k]? = ppsSgtbls[k]?
  | .transfer w src dst n t words =>
    ∃ ret s', nu_pdma_transfer s id w src dst n t (some words) = some (ret, s') ∧
      ret ≠ RT_EOK ∧ s.core.Keeps s'.core ∧
      ∀ ret1 s1 ppsSgtbls num, chainPrepare s id n (some words) = some (ret1, s1) →
        s1.core.chain (arrayIdx id) = (some ppsSgtbls, num) →
        ∀ k, Releases ppsSgtbls num k → k < (s.core.takable id).card

/-- The number asked for passes the assertion on it, and the array of a transfer is
null past the entry that gets no token. -/
def Clear (s : State) (id : ℕ) : SgRequest → Prop
  | .allocate _ num => num ≤ NU_PDMA_SG_TBL_MAXSIZE
  | .transfer _ _ _ n _ words =>
    n / 65536 + 1 ≤ NU_PDMA_SG_TBL_MAXSIZE ∧
      ∀ k, (s.core.takable id).card < k → k < n / 65536 + 1 → words k = none

/-! ### A failing request -/

theorem Core.Keeps.refl (c : Core) : c.Keeps c :=
  ⟨fun _ _ h => h, fun _ _ h => Or.inl h, fun _ _ h => h, fun _ _ h => Or.inl h⟩

/-- With too few tokens those taken are given back, and the array is null up to the
entry that got none. -/
theorem nu_pdma_sgtbls_allocate_runsOut {s : State} {id num : ℕ} {arr : List nu_pdma_desc_t}
    (hok : s.core.Ok) (hlen : arr.length = num) (hnum : num ≤ NU_PDMA_SG_TBL_MAXSIZE)
    (hlt : (s.freeTokens (modIdx id)).card < num) :
    nu_pdma_sgtbls_allocate s id arr num = some (-RT_ERROR, s,
      List.replicate ((s.freeTokens (modIdx id)).card + 1) none ++
        arr.drop ((s.freeTokens (modIdx id)).card + 1)) := by
  -- no assertion stops the call: the entries it gives back are tokens
  have hsome : (nu_pdma_sgtbls_allocate s id arr num).isSome := by
    obtain ⟨ok, token', l, hrun, ht⟩ := nu_pdma_sgtbls_allocate_loop_taken num
      (s.m_u32SGTblToken (modIdx id)) []
    rw [nu_pdma_sgtbls_allocate, if_pos hnum, hrun]
    cases ok with
    | true => rfl
    | false =>
      have hin : ∀ i ∈ l, i < 16 := fun i hi => hok.token_lt _ _ (ht.mem i hi)
      have hel : (entries l).length = l.length := List.length_map ..
      have htake : (entries l ++ none :: arr.drop (l.length + 1)).take l.length = entries l := by
        rw [List.take_append_of_le_length (le_of_eq hel.symm), ← hel, List.take_length]
      have hll : l.length ≤ 4096 := le_of_lt (lt_of_lt_of_le ht.len.1 hnum)
      obtain ⟨s1, arr1, hfree⟩ := @nu_pdma_sgtbls_free_ok (s.setToken (modIdx id) token') id _ _ hll
        (htake.symm ▸ inPool_entries hin)
      rw [entries] at hfree
      simp only [List.nil_append, hfree, Option.isSome_some]
  obtain ⟨⟨ret, s', arr'⟩, hr⟩ := Option.isSome_iff_exists.mp hsome
  rcases nu_pdma_sgtbls_allocate_cases hlen hr with ⟨-, t, l, ht, -⟩ | ⟨rfl, rfl, -, rfl⟩
  · exact absurd (ht.ok_iff.mp rfl) (Nat.not_le.mpr hlt)
  · exact hr

/-! ### A failing transfer -/

section Transfer

variable {s : State} {id n : ℕ} {words : ℕ → nu_pdma_desc_t}

/-- The array that a transfer gives up. -/
def shortArray (s : State) (id n : ℕ) (words : ℕ → nu_pdma_desc_t) : List nu_pdma_desc_t :=
  List.replicate ((s.core.takable id).card + 1) none ++
    ((List.range (n / 65536 + 1)).map words).drop ((s.core.takable id).card + 1)

/-- Before the array is given up the old chain is back in the pool. -/
theorem chainPrepare_runsOut (hok : s.core.Ok) (hw : (s.core.chain (arrayIdx id)).2 ≠ n / 65536 + 1)
    (hrel : (s.core.chain (arrayIdx id)).2 = 0 ∨ (s.core.chain (arrayIdx id)).1.isSome = true)
    (hnum : n / 65536 + 1 ≤ NU_PDMA_SG_TBL_MAXSIZE)
    (hlt : (s.core.takable id).card < n / 65536 + 1) :
    ∃ s1 t0, chainPrepare s id n (some words) = some (-RT_ERROR, s1) ∧
      s.core.Given (modIdx id) (s.core.own (arrayIdx id)) t0 ∧ s1.core = { s.core with
        token := Function.update s.core.token (modIdx id) t0
        chain := Function.update s.core.chain (arrayIdx id)
          (some (shortArray s id n words), n / 65536 + 1) } := by
  obtain ⟨s0, hr⟩ := Option.isSome_iff_exists.mp ((chainRelease_isSome_iff hok).mpr hrel)
  obtain ⟨t0, w0, h0, hs0⟩ := chainRelease_some hok hr
  have hok0 : s0.core.Ok := by
    rw [hs0]
    exact hok.update (fun i hi => given_lt hok (hok.own_inPool _) h0 hi) (by simp)
  have hfree : s0.freeTokens (modIdx id) = s.core.takable id := by
    rw [← h0.takable]
    show tokenSet (s0.core.token (modIdx id)) = _
    rw [hs0]
    simp
  have halloc := @nu_pdma_sgtbls_allocate_runsOut s0 id (n / 65536 + 1)
    ((List.range (n / 65536 + 1)).map words) hok0 (by simp) hnum (hfree ▸ hlt)
  rw [hfree] at halloc
  have hne : (s.nu_pdma_chn_arr (arrayIdx id)).m_u32WantedSGTblNum ≠ n / 65536 + 1 := hw
  have hrun : chainPrepare s id n (some words) = some (-RT_ERROR, s0.setChn (arrayIdx id)
      { s0.nu_pdma_chn_arr (arrayIdx id) with
        m_ppsSgtbl := some (shortArray s id n words)
        m_u32WantedSGTblNum := n / 65536 + 1 }) := by
    rw [chainPrepare, NU_PDMA_MAX_TXCNT]
    simp only [if_pos hne, hr, chainObtain, halloc]
    rfl
  refine ⟨_, t0, hrun, h0, ?_⟩
  rw [State.core_setChn_chain, hs0]
  · simp only [Function.update_idem]
  · rfl

/-- A chain given back to the pool, and nothing else, keeps every token. -/
theorem Core.Keeps.give_back {c c' : Core} (hid : IsChn id) {t0 : BitVec 32}
    (h0 : c.Given (modIdx id) (c.own (arrayIdx id)) t0)
    (h : c' = { c with
      token := Function.update c.token (modIdx id) t0
      chain := Function.update c.chain (arrayIdx id) (none, 0) }) : c.Keeps c' := by
  have hdiv : arrayIdx id / PDMA_CH_MAX = modIdx id := by
    have := hid.2
    rw [PDMA_CH_MAX] at this
    rw [arrayIdx, PDMA_CH_MAX]
    omega
  have hself : c'.own (arrayIdx id) = [] := by simp [h, Core.own]
  have hother : ∀ k, k ≠ arrayIdx id → c'.own k = c.own k := fun k hk => by simp [h, Core.own, hk]
  have htok : ∀ i, c'.IsFree (modIdx id) i ↔ c.IsFree (modIdx id) i ∨ c.Owns (arrayIdx id) i := by
    intro i
    have hword : c'.token (modIdx id) = t0 := by
      rw [h]
      exact Function.update_self ..
    rw [Core.IsFree, hword, h0 i, Bool.or_eq_true, decide_eq_true_eq]
    rfl
  have hmod : ∀ m, m ≠ modIdx id → ∀ i, c'.IsFree m i ↔ c.IsFree m i := by
    intro m hm i
    have hword : c'.token m = c.token m := by
      rw [h]
      exact Function.update_of_ne hm ..
    rw [Core.IsFree, hword]
    rfl
  refine ⟨fun m i hi => ?_, fun k i hi => ?_, fun k i hi => ?_, fun m i hi => ?_⟩
  · by_cases hm : m = modIdx id
    · subst hm
      exact (htok i).mpr (Or.inl hi)
    · exact (hmod m hm i).mpr hi
  · by_cases hk : k = arrayIdx id
    · subst hk
      rw [hdiv]
      exact Or.inr ((htok i).mpr (Or.inr hi))
    · rw [Core.Owns, hother k hk]
      exact Or.inl hi
  · by_cases hk : k = arrayIdx id
    · subst hk
      rw [Core.Owns, hself] at hi
      exact absurd hi (by simp)
    · rwa [Core.Owns, hother k hk] at hi
  · by_cases hm : m = modIdx id
    · subst hm
      refine ((htok i).mp hi).imp_right fun ho => ⟨_, hdiv, ho, ?_⟩
      rw [Core.Owns, hself]
      exact List.not_mem_nil
    · exact Or.inl ((hmod m hm i).mp hi)

theorem shortArray_length (hlt : (s.core.takable id).card < n / 65536 + 1) :
    (shortArray s id n words).length = n / 65536 + 1 := by
  rw [shortArray, List.length_append, List.length_replicate, List.length_drop, List.length_map,
    List.length_range]
  omega

/-- Past the entry that got no token the array holds what its memory held. -/
theorem shortArray_getElem? {k : ℕ} (hk : (s.core.takable id).card < k) (hkn : k < n / 65536 + 1) :
    (shortArray s id n words)[k]? = some (words k) := by
  rw [shortArray, List.getElem?_append_right (by rw [List.length_replicate]; omega),
    List.length_replicate, List.getElem?_drop, List.getElem?_map]
  rw [List.getElem?_range (by omega), Option.map_some]
  congr 2
  omega

/-- The array is null when the rest of its memory is. -/
theorem shortArray_null (h : ∀ k, (s.core.takable id).card < k → k < n / 65536 + 1 → words k = none) :
    ∀ p ∈ shortArray s id n words, p = none := by
  intro p hp
  rcases List.mem_append.mp hp with hp | hp
  · exact List.eq_of_mem_replicate hp
  · obtain ⟨j, hj⟩ := List.mem_iff_getElem?.mp hp
    rw [List.getElem?_drop, List.getElem?_map] at hj
    obtain ⟨k, hk, rfl⟩ := Option.map_eq_some_iff.mp hj
    obtain ⟨hlt, rfl⟩ := List.getElem?_eq_some_iff.mp hk
    rw [List.length_range] at hlt
    rw [List.getElem_range]
    exact h _ (by omega) hlt

/-- **How a transfer that runs out ends**, the rest of its array null: with an error,
and its chain back in the pool. -/
theorem nu_pdma_transfer_runsOut {w t : ℕ} {src dst : BitVec 32} (hok : s.core.Ok)
    (hs : RunsOut s id (.transfer w src dst n t words))
    (hc : Clear s id (.transfer w src dst n t words)) :
    ∃ s' t0, nu_pdma_transfer s id w src dst n t (some words) = some (RT_ERROR, s') ∧
      s.core.Given (modIdx id) (s.core.own (arrayIdx id)) t0 ∧ s'.core = { s.core with
        token := Function.update s.core.token (modIdx id) t0
        chain := Function.update s.core.chain (arrayIdx id) (none, 0) } := by
  obtain ⟨hid, ha, hn, hw, hrel, hlt⟩ := hs
  obtain ⟨hnum, hnull⟩ := hc
  obtain ⟨s1, t0, hprep, h0, hs1⟩ := @chainPrepare_runsOut s id n words hok hw hrel hnum hlt
  have hchain : s1.core.chain (arrayIdx id) = (some (shortArray s id n words), n / 65536 + 1) := by
    rw [hs1]
    exact Function.update_self ..
  have harr : (s1.nu_pdma_chn_arr (arrayIdx id)).m_ppsSgtbl = some (shortArray s id n words) :=
    congrArg Prod.fst hchain
  have hcount : (s1.nu_pdma_chn_arr (arrayIdx id)).m_u32WantedSGTblNum = n / 65536 + 1 :=
    congrArg Prod.snd hchain
  have hall := shortArray_null hnull
  have htake : (shortArray s id n words).take (n / 65536 + 1) = shortArray s id n words :=
    List.take_of_length_le (le_of_eq (shortArray_length hlt))
  have hin : InPool ((shortArray s id n words).take (n / 65536 + 1)) := by
    rw [htake]
    exact fun i hi => absurd (hall _ hi) (by simp)
  obtain ⟨s2, arr2, hfree⟩ := @nu_pdma_sgtbls_free_ok s1 id _ _ hnum hin
  obtain ⟨s', hexit⟩ : ∃ s', _nu_pdma_sgtbls_free s1 id = some s' := by
    unfold _nu_pdma_sgtbls_free
    simp [harr, hcount, hfree]
  have hne : -RT_ERROR ≠ RT_EOK := by decide
  refine ⟨s', t0, ?_, h0, ?_⟩
  · have hn0 : n ≠ 0 := by omega
    have hgt : n > NU_PDMA_MAX_TXCNT := hn
    unfold nu_pdma_transfer _nu_pdma_transfer_chain
    simp only [if_pos hid.1, ha, Bool.false_eq_true, if_false, hn0, if_pos hgt, hprep, if_pos hne,
      chainExit, hexit, neg_neg]
  · rcases _nu_pdma_sgtbls_free_cases hexit with ⟨hnone, -⟩ | ⟨arr, num, t', hc, -, hb, hs'⟩
    · rw [hchain] at hnone
      exact absurd hnone (by simp)
    · -- the null entries free nothing more
      rw [hchain, Prod.mk.injEq, Option.some.injEq] at hc
      obtain ⟨rfl, rfl⟩ := hc
      rw [htake] at hb
      have htok : t' = t0 := by
        rw [given_null hall hb, hs1]
        exact Function.update_self ..
      rw [hs', htok, hs1]
      simp only [Function.update_idem]

/-- Where the array is not null past the entry that got no token, a word that was never
assigned is taken for a descriptor. -/
theorem Atomic.null {w t : ℕ} {src dst : BitVec 32} (hok : s.core.Ok)
    (hs : RunsOut s id (.transfer w src dst n t words))
    (h : Atomic s id (.transfer w src dst n t words)) :
    Clear s id (.transfer w src dst n t words) := by
  obtain ⟨hid, ha, hn, hw, hrel, hlt⟩ := hs
  obtain ⟨ret, s', hrun, -, -, hreleases⟩ := h
  -- no result without a prepared chain, which takes the assertion to hold
  have hnum : n / 65536 + 1 ≤ NU_PDMA_SG_TBL_MAXSIZE := by
    by_contra hc
    obtain ⟨s0, hr⟩ := Option.isSome_iff_exists.mp ((chainRelease_isSome_iff hok).mpr hrel)
    have hne : (s.nu_pdma_chn_arr (arrayIdx id)).m_u32WantedSGTblNum ≠ n / 65536 + 1 := hw
    have hprep : chainPrepare s id n (some words) = none := by
      rw [chainPrepare, NU_PDMA_MAX_TXCNT]
      simp only [if_pos hne, hr, chainObtain, nu_pdma_sgtbls_allocate, if_neg hc]
    have hn0 : n ≠ 0 := by omega
    have hgt : n > NU_PDMA_MAX_TXCNT := hn
    unfold nu_pdma_transfer _nu_pdma_transfer_chain at hrun
    simp only [if_pos hid.1, ha, Bool.false_eq_true, if_false, hn0, if_pos hgt, hprep] at hrun
    exact absurd hrun (by simp)
  refine ⟨hnum, fun k hk hkn => ?_⟩
  obtain ⟨s1, t0, hprep, -, hs1⟩ := @chainPrepare_runsOut s id n words hok hw hrel hnum hlt
  have hchain : s1.core.chain (arrayIdx id) = (some (shortArray s id n words), n / 65536 + 1) := by
    rw [hs1]
    exact Function.update_self ..
  cases hwk : words k with
  | none => rfl
  | some i =>
    have hrel : Releases (shortArray s id n words) (n / 65536 + 1) k :=
      ⟨hkn, i, by rw [shortArray_getElem? hk hkn, hwk]⟩
    exact absurd (hreleases _ _ _ _ hprep hchain k hrel) (by omega)

end Transfer

/-! ### Atomicity -/

theorem atomic_of_clear {s : State} {id : ℕ} {r : SgRequest} (hok : s.core.Ok) (hs : RunsOut s id r)
    (hc : Clear s id r) : Atomic s id r := by
  cases r with
  | allocate arr num =>
    obtain ⟨hlen, hlt⟩ := hs
    refine ⟨_, s, _, nu_pdma_sgtbls_allocate_runsOut hok hlen hc hlt, by decide, .refl _,
      fun k hk => ?_⟩
    rw [List.getElem?_append_right (by rw [List.length_replicate]; omega), List.length_replicate,
      List.getElem?_drop]
    congr 1
    omega
  | transfer w src dst n t words =>
    obtain ⟨s', t0, hrun, h0, hs'⟩ := nu_pdma_transfer_runsOut hok hs hc
    refine ⟨_, s', hrun, by decide, .give_back hs.1 h0 hs', ?_⟩
    intro ret1 s1 arr num hprep hchain k hk
    obtain ⟨hid, ha, hn, hw, hrel, hlt⟩ := hs
    obtain ⟨s2, t2, hprep2, -, hs2⟩ := @chainPrepare_runsOut s id n words hok hw hrel hc.1 hlt
    rw [hprep2, Option.some.injEq, Prod.mk.injEq] at hprep
    rw [← hprep.2, hs2] at hchain
    simp only [Function.update_self, Prod.mk.injEq, Option.some.injEq] at hchain
    -- an array of null entries only releases none
    obtain ⟨i, hi⟩ := hk.2
    rw [← hchain.1] at hi
    exact absurd (shortArray_null hc.2 _ (List.mem_of_getElem? hi)) (by simp)

/-- **Running out of descriptors is atomic** exactly when the number asked for passes the
assertion on it and the array of a transfer is null past the entry that gets no
token; for the array of a caller any content will do. -/
theorem shortage_atomic_iff {s : State} {id : ℕ} {r : SgRequest} (hok : s.core.Ok)
    (hs : RunsOut s id r) : Atomic s id r ↔ Clear s id r := by
  refine ⟨fun h => ?_, atomic_of_clear hok hs⟩
  cases r with
  | allocate arr num =>
    obtain ⟨ret, s', arr', hrun, -⟩ := h
    by_contra hc
    have hnum : ¬ num ≤ NU_PDMA_SG_TBL_MAXSIZE := hc
    rw [nu_pdma_sgtbls_allocate, if_neg hnum] at hrun
    exact absurd hrun (by simp)
  | transfer w src dst n t words => exact h.null hok hs

/-- A caller holds token 0. -/
def oneHeld : World :=
  ⟨oneChannel.drv.setToken 0 0xFFFE, Function.update oneChannel.arrays 0 (some (0, [some 0]))⟩

theorem oneHeld_reachable : oneHeld.Reachable 0 :=
  .step oneChannel_reachable
    (show oneChannel.Allowed (.sgtbls_allocate 0 0 1 fun _ => none) from ⟨by decide, rfl⟩) trivial
    (show oneChannel.step (.sgtbls_allocate 0 0 1 fun _ => none) = some oneHeld from rfl)

/-- A transfer asks for 17 descriptors with 15 to be had. -/
theorem oneHeld_runsOut {words : ℕ → nu_pdma_desc_t} :
    RunsOut oneHeld.drv 0 (.transfer 8 0x20000000 0x20100000 1048576 0 words) :=
  ⟨by decide, by decide, by decide, by decide, by decide, by decide⟩

theorem shortage_atomic_null :
    Atomic oneHeld.drv 0 (.transfer 8 0x20000000 0x20100000 1048576 0 fun _ => none) :=
  (shortage_atomic_iff oneHeld_reachable.ok.tables oneHeld_runsOut).mpr ⟨by decide, fun _ _ _ => rfl⟩

/-- The last word of the array happens to point at token 0, which the transfer frees. -/
theorem shortage_frees_held : ¬ ∀ (hclk : ℕ) (σ : World), σ.Reachable hclk →
    ∀ (id : ℕ) (r : SgRequest), RunsOut σ.drv id r → Atomic σ.drv id r := by
  intro hall
  have hok := oneHeld_reachable.ok.tables
  have hruns := @oneHeld_runsOut fun k => if k = 16 then some 0 else none
  have hclear := (hall 0 oneHeld oneHeld_reachable 0 _ hruns).null hok hruns
  exact absurd (hclear.2 16 (by decide) (by decide)) (by decide)

end Pdma
