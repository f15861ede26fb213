/-
What a transfer does to the driver's tables.

`State.core` keeps the part of the state that channels and tokens are managed
in; setting up descriptors and starting the engine leave it alone.
`TransferDone` lists what a call of `nu_pdma_transfer` can do to it: nothing,
give up the channel's chain, or put a new chain in its place
(`nu_pdma_transfer_done`).
-/
import NuMaker.Pdma.Tokens

namespace Pdma

/-- The channel mask, the tokens, the channels' chains and their control. -/
structure Core where
  inited : Bool
  mask : ℕ → BitVec 32
  token : ℕ → BitVec 32
  chain : ℕ → Option (List nu_pdma_desc_t) × ℕ
  ctl : ℕ → ℕ × nu_pdma_memctrl_t

def State.core (s : State) : Core where
  inited := s.nu_pdma_inited
  mask := s.nu_pdma_chn_mask_arr
  token := s.m_u32SGTblToken
  chain := fun k => ((s.nu_pdma_chn_arr k).m_ppsSgtbl, (s.nu_pdma_chn_arr k).m_u32WantedSGTblNum)
  ctl := fun k => ((s.nu_pdma_chn_arr k).m_u32Peripheral, (s.nu_pdma_chn_arr k).m_eMemCtl)

namespace State

@[simp] theorem core_setPdma (s : State) (m : ℕ) (p : PDMA_T) : (s.setPdma m p).core = s.core := rfl

@[simp] theorem core_setTbl (s : State) (m : ℕ) (i : ℤ) (d : DSCT_T) :
    (s.setTbl m i d).core = s.core := rfl

@[simp] theorem core_setToken (s : State) (m : ℕ) (v : BitVec 32) :
    (s.setToken m v).core = { s.core with token := Function.update s.core.token m v } := rfl

@[simp] theorem core_setMask (s : State) (m : ℕ) (v : BitVec 32) :
    (s.setMask m v).core = { s.core with mask := Function.update s.core.mask m v } := rfl

theorem core_setChn (s : State) (k : ℕ) (c : nu_pdma_chn) :
    (s.setChn k c).core =
      { s.core with
        chain := Function.update s.core.chain k (c.m_ppsSgtbl, c.m_u32WantedSGTblNum)
        ctl := Function.update s.core.ctl k (c.m_u32Peripheral, c.m_eMemCtl) } := by
  simp only [core, setChn, Core.mk.injEq, true_and]
  constructor <;> funext j <;> by_cases hj : j = k <;> simp [hj]

/-- A channel record with the same control. -/
theorem core_setChn_chain (s : State) (k : ℕ) {c : nu_pdma_chn}
    (h : (c.m_u32Peripheral, c.m_eMemCtl) = s.core.ctl k) :
    (s.setChn k c).core =
      { s.core with
        chain := Function.update s.core.chain k (c.m_ppsSgtbl, c.m_u32WantedSGTblNum) } := by
  rw [core_setChn, h, Function.update_eq_self]

/-- A channel record with the same control and chain. -/
theorem core_setChn_eq (s : State) (k : ℕ) {c : nu_pdma_chn}
    (h : (c.m_u32Peripheral, c.m_eMemCtl) = s.core.ctl k)
    (h' : (c.m_ppsSgtbl, c.m_u32WantedSGTblNum) = s.core.chain k) :
    (s.setChn k c).core = s.core := by
  rw [core_setChn_chain s k h, h', Function.update_eq_self]

@[simp] theorem core_setDesc (s : State) (id : ℕ) (p : Desc) (d : DSCT_T) :
    (s.setDesc id p d).core = s.core := by
  cases p <;> rfl

end State

/-! ### What leaves the tables alone -/

theorem nu_pdma_timeout_set_core (s : State) (id t : ℕ) : (nu_pdma_timeout_set s id t).2.core = s.core := by
  rw [nu_pdma_timeout_set]
  split
  · rfl
  · split
    · rfl
    · simp only
      split <;> exact State.core_setChn_eq s _ rfl rfl

theorem nu_pdma_desc_setup_core (s : State) (id : ℕ) (p : Option Desc) (w : ℕ) (src dst : BitVec 32)
    (n : ℕ) (next : nu_pdma_desc_t) (silent : Bool) :
    (nu_pdma_desc_setup s id p w src dst n next silent).2.core = s.core := by
  unfold nu_pdma_desc_setup
  cases p with
  | none => rfl
  | some p =>
    simp only
    split_ifs <;> simp

theorem _nu_pdma_transfer_core (s : State) (id p : ℕ) (head : Desc) (t : ℕ) :
    (_nu_pdma_transfer s id p head t).core = s.core := by
  have h0 := nu_pdma_timeout_set_core
    (s.setPdma (modIdx id)
      (PDMA_EnableInt_TRANS_DONE (PDMA_DisableTimeout (s.pdma (modIdx id)) (bit (chnIdx id)))
        (chnIdx id))) id t
  rw [State.core_setPdma] at h0
  unfold _nu_pdma_transfer
  simp only
  split
  · exact h0
  · split <;> exact h0

theorem chainLoop_core (id w : ℕ) (src dst : BitVec 32) (e : nu_pdma_memctrl_t) :
    ∀ (l : List nu_pdma_desc_t) (s : State) (n off : ℕ),
    (chainLoop id w src dst e s l n off).2.core = s.core := by
  intro l
  induction l with
  | nil => exact fun _ _ _ => rfl
  | cons p l ih =>
    intro s n off
    rw [chainLoop]
    split
    · exact nu_pdma_desc_setup_core ..
    · rw [ih]
      exact nu_pdma_desc_setup_core ..

/-! ### Invariant of the tables -/

/-- The driver is initialised, every free token is one of the pool, and every chain is an ascending list of
tokens of the length on record. -/
structure Core.Ok (c : Core) : Prop where
  inited : c.inited = true
  token_lt : ∀ m i, (c.token m).getLsbD i = true → i < 16
  chain_ok : ∀ k arr w, c.chain k = (some arr, w) →
    ∃ l : List ℕ, arr = entries l ∧ l.Pairwise (· < ·) ∧ (∀ t ∈ l, t < 16) ∧ l.length = w ∧ 2 ≤ w

/-- The tokens of the chain on record `k`. -/
def Core.own (c : Core) (k : ℕ) : List nu_pdma_desc_t := (c.chain k).1.getD []

/-- `t` is the token word of module `m` with the bits of the entries `l` set. -/
def Core.Given (c : Core) (m : ℕ) (l : List nu_pdma_desc_t) (t : BitVec 32) : Prop :=
  ∀ i, t.getLsbD i = ((c.token m).getLsbD i || decide (some (i : ℤ) ∈ l))

/-- The tokens a chain of channel `id` can be built of: the free ones and those of
the chain there is. -/
def Core.avail (c : Core) (id : ℕ) : Finset ℕ :=
  (Finset.range 32).filter fun i =>
    (c.token (modIdx id)).getLsbD i || decide (some (i : ℤ) ∈ c.own (arrayIdx id))

/-- The tokens a transfer on channel `id` can take: those free and those of its chain. -/
def Core.takable (c : Core) (id : ℕ) : Finset ℕ :=
  (Finset.range 32).filter fun i =>
    (c.token (modIdx id)).getLsbD i = true ∨ some (i : ℤ) ∈ c.own (arrayIdx id)

/-- What a transfer of `n` units on channel `id` can do to the tables, when the
allocator answers `malloc`: nothing, give up the chain (and with it the entries
`junk` that the array happened to hold), or replace the chain. -/
inductive TransferDone (c : Core) (id n : ℕ) (malloc : Option (ℕ → nu_pdma_desc_t)) : ℤ → Core → Prop
  | same {ret} : TransferDone c id n malloc ret c
  | gone {ret t t0 w junk} (hret : ret ≠ RT_EOK) (h0 : c.Given (modIdx id) (c.own (arrayIdx id)) t0)
    (ht : ∀ i, t.getLsbD i = (t0.getLsbD i || decide (some (i : ℤ) ∈ junk))) (hj : InPool junk)
    (hjunk : junk = [] ∨ 65536 < n ∧ (c.chain (arrayIdx id)).2 ≠ n / 65536 + 1 ∧
      ∃ words, malloc = some words ∧ (tokenSet t0).card < n / 65536 + 1 ∧
        junk = ((List.range (n / 65536 + 1)).map words).drop ((tokenSet t0).card + 1)) :
    TransferDone c id n malloc ret
      { c with token := Function.update c.token (modIdx id) t
               chain := Function.update c.chain (arrayIdx id) (none, w) }
  | replaced {ret t t0 l} (hn : 65536 < n) (h0 : c.Given (modIdx id) (c.own (arrayIdx id)) t0)
    (ht : Taken (n / 65536 + 1) t0 true t l) :
    TransferDone c id n malloc ret
      { c with token := Function.update c.token (modIdx id) t
               chain := Function.update c.chain (arrayIdx id) (some (entries l), n / 65536 + 1) }

theorem Core.Ok.own_take {c : Core} (hc : c.Ok) {k w : ℕ} {arr : List nu_pdma_desc_t}
    (h : c.chain k = (some arr, w)) : arr.take w = arr ∧ c.own k = arr ∧ InPool arr := by
  obtain ⟨l, rfl, -, hl, hw, -⟩ := hc.chain_ok k arr w h
  have hlen : (entries l).length = w := by rw [entries, List.length_map, hw]
  refine ⟨by rw [← hlen, List.take_length], ?_, inPool_entries hl⟩
  rw [Core.own, h]
  rfl

theorem _nu_pdma_sgtbls_free_cases {s s' : State} {id : ℕ}
    (h : _nu_pdma_sgtbls_free s id = some s') :
    ((s.core.chain (arrayIdx id)).1 = none ∧ s' = s) ∨
      ∃ arr w t, s.core.chain (arrayIdx id) = (some arr, w) ∧ InPool (arr.take w) ∧
        s.core.Given (modIdx id) (arr.take w) t ∧
        s'.core = { s.core with
          token := Function.update s.core.token (modIdx id) t
          chain := Function.update s.core.chain (arrayIdx id) (none, 0) } := by
  unfold _nu_pdma_sgtbls_free at h
  cases hc : (s.nu_pdma_chn_arr (arrayIdx id)).m_ppsSgtbl with
  | none =>
    simp only [hc, Option.some.injEq] at h
    exact Or.inl ⟨hc, h.symm⟩
  | some arr =>
    simp only [hc] at h
    cases hf : nu_pdma_sgtbls_free s id arr (s.nu_pdma_chn_arr (arrayIdx id)).m_u32WantedSGTblNum with
    | none =>
      rw [hf] at h
      exact absurd h (by simp)
    | some r =>
      obtain ⟨s1, arr1⟩ := r
      obtain ⟨t, rfl, hin, hb, -⟩ := nu_pdma_sgtbls_free_some hf
      rw [hf] at h
      obtain rfl := Option.some.inj h
      refine Or.inr ⟨arr, _, t, ?_, hin, hb, ?_⟩
      · simp only [State.core, hc]
      · rw [State.core_setChn_chain]
        · rfl
        · rfl

/-- Nothing but null entries to give back. -/
theorem given_null {c : Core} {m : ℕ} {l : List nu_pdma_desc_t} {t : BitVec 32}
    (hl : ∀ p ∈ l, p = none) (h : c.Given m l t) : t = c.token m := by
  refine BitVec.eq_of_getLsbD_eq fun i _ => ?_
  rw [h i]
  have : some (i : ℤ) ∉ l := fun hi => absurd (hl _ hi) (by simp)
  simp [this]

/-- Giving back the old chain. -/
theorem chainRelease_some {s s' : State} {id : ℕ} (hok : s.core.Ok)
    (h : chainRelease s id = some s') :
    ∃ t w, s.core.Given (modIdx id) (s.core.own (arrayIdx id)) t ∧
      s'.core = { s.core with
        token := Function.update s.core.token (modIdx id) t
        chain := Function.update s.core.chain (arrayIdx id) (none, w) } := by
  rw [chainRelease] at h
  by_cases hw : (s.nu_pdma_chn_arr (arrayIdx id)).m_u32WantedSGTblNum > 0
  · simp only [if_pos hw] at h
    cases hc : (s.nu_pdma_chn_arr (arrayIdx id)).m_ppsSgtbl with
    | none =>
      simp only [hc] at h
      exact absurd h (by simp)
    | some arr =>
      have hchain : s.core.chain (arrayIdx id) =
          (some arr, (s.nu_pdma_chn_arr (arrayIdx id)).m_u32WantedSGTblNum) := by
        simp only [State.core, hc]
      obtain ⟨htake, hown, -⟩ := hok.own_take hchain
      simp only [hc] at h
      cases hf : nu_pdma_sgtbls_free s id arr
          (s.nu_pdma_chn_arr (arrayIdx id)).m_u32WantedSGTblNum with
      | none =>
        rw [hf] at h
        exact absurd h (by simp)
      | some r =>
        obtain ⟨s1, arr1⟩ := r
        obtain ⟨t, rfl, -, hb, harr1⟩ := nu_pdma_sgtbls_free_some hf
        rw [hf] at h
        rw [htake] at hb
        refine ⟨t, 0, by rwa [hown], ?_⟩
        -- the array holds null entries only when it is given back once more
        have hdrop : arr.drop (s.nu_pdma_chn_arr (arrayIdx id)).m_u32WantedSGTblNum = [] := by
          rw [← htake, List.drop_take, Nat.sub_self, List.take_zero]
        rw [hdrop, List.append_nil] at harr1
        have hcore1 : ((s.setToken (modIdx id) t).setChn (arrayIdx id)
            { s.nu_pdma_chn_arr (arrayIdx id) with m_ppsSgtbl := some arr1 }).core =
            { s.core with
              token := Function.update s.core.token (modIdx id) t
              chain := Function.update s.core.chain (arrayIdx id)
                (some arr1, (s.nu_pdma_chn_arr (arrayIdx id)).m_u32WantedSGTblNum) } := by
          rw [State.core_setChn_chain]
          · rfl
          · rfl
        rcases _nu_pdma_sgtbls_free_cases h with ⟨hnone, -⟩ | ⟨arr2, w2, t2, hc2, -, hb2, hs2⟩
        · rw [hcore1] at hnone
          simp at hnone
        · rw [hcore1] at hc2 hb2 hs2
          simp only [Function.update_self, Prod.mk.injEq, Option.some.injEq] at hc2
          obtain ⟨rfl, rfl⟩ := hc2
          have ht2 : t2 = t := by
            have := given_null (fun p hp => ?_) hb2
            · simpa using this
            · rw [harr1] at hp
              exact List.eq_of_mem_replicate (List.mem_of_mem_take hp)
          rw [hs2, ht2]
          simp
  · simp only [if_neg hw, Option.some.injEq] at h
    subst h
    have hchain : ∃ w, s.core.chain (arrayIdx id) = (none, w) := by
      cases hc : (s.nu_pdma_chn_arr (arrayIdx id)).m_ppsSgtbl with
      | none => exact ⟨_, by simp only [State.core, hc]; rfl⟩
      | some arr =>
        obtain ⟨l, -, -, -, -, h2⟩ := hok.chain_ok (arrayIdx id) arr
          (s.nu_pdma_chn_arr (arrayIdx id)).m_u32WantedSGTblNum (by simp only [State.core, hc])
        exact absurd (lt_of_lt_of_le (by decide) h2) hw
    obtain ⟨w, hw⟩ := hchain
    refine ⟨s.core.token (modIdx id), w, ?_, ?_⟩
    · intro i
      simp [Core.own, hw]
    · rw [← hw, Function.update_eq_self, Function.update_eq_self]

/-- Obtaining a chain: no array, a chain, or an array without tokens. -/
theorem chainObtain_cases {s s' : State} {id wanted : ℕ} {malloc : Option (ℕ → nu_pdma_desc_t)}
    {ret : ℤ} (h : chainObtain s id wanted malloc = some (ret, s')) :
    (ret ≠ RT_EOK ∧ s'.core =
      { s.core with chain := Function.update s.core.chain (arrayIdx id) (none, wanted) }) ∨
    (ret = RT_EOK ∧ ∃ t l, Taken wanted (s.core.token (modIdx id)) true t l ∧ s'.core =
      { s.core with
        token := Function.update s.core.token (modIdx id) t
        chain := Function.update s.core.chain (arrayIdx id) (some (entries l), wanted) }) ∨
    (ret ≠ RT_EOK ∧ ∃ words free, malloc = some words ∧
      free = (tokenSet (s.core.token (modIdx id))).card ∧ free < wanted ∧ s'.core =
      { s.core with
        chain := Function.update s.core.chain (arrayIdx id)
          (some (List.replicate (free + 1) none ++
            ((List.range wanted).map words).drop (free + 1)), wanted) }) := by
  unfold chainObtain at h
  cases malloc with
  | none =>
    simp only [Option.some.injEq, Prod.mk.injEq] at h
    obtain ⟨rfl, rfl⟩ := h
    refine Or.inl ⟨by decide, ?_⟩
    rw [State.core_setChn_chain]
    rfl
  | some words =>
    simp only at h
    cases ha : nu_pdma_sgtbls_allocate s id ((List.range wanted).map words) wanted with
    | none =>
      rw [ha] at h
      exact absurd h (by simp)
    | some r =>
      obtain ⟨ret1, s1, arr1⟩ := r
      rw [ha] at h
      simp only [Option.some.injEq, Prod.mk.injEq] at h
      obtain ⟨rfl, rfl⟩ := h
      right
      rcases nu_pdma_sgtbls_allocate_cases (by simp) ha with
        ⟨hret, t, l, ht, rfl, rfl⟩ | ⟨hret, rfl, hlt, rfl⟩
      · refine Or.inl ⟨hret, t, l, ht, ?_⟩
        rw [State.core_setChn_chain]
        · rfl
        · rfl
      · refine Or.inr ⟨by rw [hret]; decide, words, _, rfl, rfl, hlt, ?_⟩
        rw [State.core_setChn_chain]
        · rfl
        · rfl

/-- The failure exit gives the chain up, with every entry of its array. -/
theorem chainExit_some {s s' : State} {id : ℕ} {ret ret' : ℤ} (hret : ret ≠ RT_EOK)
    (h : chainExit s id ret = some (ret', s')) :
    ret' ≠ RT_EOK ∧ _nu_pdma_sgtbls_free s id = some s' := by
  rw [chainExit] at h
  cases hf : _nu_pdma_sgtbls_free s id with
  | none =>
    rw [hf] at h
    exact absurd h (by simp)
  | some s1 =>
    rw [hf] at h
    simp only [Option.some.injEq, Prod.mk.injEq] at h
    obtain ⟨rfl, rfl⟩ := h
    exact ⟨neg_ne_zero.mpr hret, rfl⟩

/-- The descriptor loop and what follows it: the tables stay, or the chain goes. -/
theorem chainRun_some {s s' : State} {id w n t p : ℕ} {src dst : BitVec 32}
    {e : nu_pdma_memctrl_t} {ret : ℤ} {arr : List nu_pdma_desc_t}
    (h : (let r := chainLoop id w src dst e s arr n 0
      if r.1 ≠ RT_EOK then chainExit r.2 id r.1
      else
        match arr.headD none with
        | none => none
        | some i => some (RT_EOK, _nu_pdma_transfer r.2 id p (.tbl i) t)) = some (ret, s')) :
    s'.core = s.core ∨ ret ≠ RT_EOK ∧
      ∃ s1 : State, s1.core = s.core ∧ _nu_pdma_sgtbls_free s1 id = some s' := by
  have hcore := chainLoop_core id w src dst e arr s n 0
  simp only at h
  by_cases hr : (chainLoop id w src dst e s arr n 0).1 ≠ RT_EOK
  · rw [if_pos hr] at h
    obtain ⟨h1, h2⟩ := chainExit_some hr h
    exact Or.inr ⟨h1, _, hcore, h2⟩
  · rw [if_neg hr] at h
    cases hh : arr.headD none with
    | none =>
      rw [hh] at h
      exact absurd h (by simp)
    | some i =>
      rw [hh] at h
      simp only [Option.some.injEq, Prod.mk.injEq] at h
      obtain ⟨-, rfl⟩ := h
      exact Or.inl ((_nu_pdma_transfer_core ..).trans hcore)

/-- What having a chain of `wanted` entries comes to: the one there is, a new one, no
array, or an array that got no tokens. -/
inductive PrepareDone (c : Core) (id wanted : ℕ) (malloc : Option (ℕ → nu_pdma_desc_t)) :
    ℤ → Core → Prop
  | kept (hw : (c.chain (arrayIdx id)).2 = wanted) : PrepareDone c id wanted malloc RT_EOK c
  | obtained {t t0 l} (h0 : c.Given (modIdx id) (c.own (arrayIdx id)) t0)
    (ht : Taken wanted t0 true t l) :
    PrepareDone c id wanted malloc RT_EOK
      { c with token := Function.update c.token (modIdx id) t
               chain := Function.update c.chain (arrayIdx id) (some (entries l), wanted) }
  | noArray {ret t0} (hret : ret ≠ RT_EOK) (h0 : c.Given (modIdx id) (c.own (arrayIdx id)) t0) :
    PrepareDone c id wanted malloc ret
      { c with token := Function.update c.token (modIdx id) t0
               chain := Function.update c.chain (arrayIdx id) (none, wanted) }
  | noTokens {ret t0 words} (hw : (c.chain (arrayIdx id)).2 ≠ wanted) (hret : ret ≠ RT_EOK)
    (h0 : c.Given (modIdx id) (c.own (arrayIdx id)) t0) (hm : malloc = some words)
    (hlt : (tokenSet t0).card < wanted) :
    PrepareDone c id wanted malloc ret
      { c with
        token := Function.update c.token (modIdx id) t0
        chain := Function.update c.chain (arrayIdx id)
          (some (List.replicate ((tokenSet t0).card + 1) none ++
            ((List.range wanted).map words).drop ((tokenSet t0).card + 1)), wanted) }

theorem chainPrepare_done {s s' : State} {id n : ℕ} {malloc : Option (ℕ → nu_pdma_desc_t)} {ret : ℤ}
    (hok : s.core.Ok) (h : chainPrepare s id n malloc = some (ret, s')) :
    PrepareDone s.core id (n / 65536 + 1) malloc ret s'.core := by
  rw [chainPrepare] at h
  by_cases hw : (s.nu_pdma_chn_arr (arrayIdx id)).m_u32WantedSGTblNum ≠ n / NU_PDMA_MAX_TXCNT + 1
  · rw [if_pos hw] at h
    cases hr : chainRelease s id with
    | none =>
      rw [hr] at h
      exact absurd h (by simp)
    | some s0 =>
      simp only [hr] at h
      change chainObtain s0 id (n / 65536 + 1) malloc = some (ret, s') at h
      obtain ⟨t0, w0, h0, hs0⟩ := chainRelease_some hok hr
      have htok : s0.core.token (modIdx id) = t0 := by
        rw [hs0]
        exact Function.update_self ..
      rcases chainObtain_cases h with ⟨hret, hs'⟩ | ⟨rfl, t, l, ht, hs'⟩ |
        ⟨hret, words, free, hmal, rfl, hlt, hs'⟩
      · rw [hs', hs0]
        simp only [Function.update_idem]
        exact .noArray hret h0
      · rw [htok] at ht
        rw [hs', hs0]
        simp only [Function.update_idem]
        exact .obtained h0 ht
      · rw [htok] at hlt hs'
        rw [hs', hs0]
        simp only [Function.update_idem]
        exact .noTokens hw hret h0 hmal hlt
  · rw [if_neg hw] at h
    obtain ⟨rfl, rfl⟩ := Prod.mk.injEq .. ▸ Option.some.inj h
    exact .kept (not_not.mp hw)

/-- Giving back the tokens that were just taken. -/
theorem Taken.give_back {n : ℕ} {t0 t t' : BitVec 32} {l : List ℕ} (ht : Taken n t0 true t l)
    (h : ∀ i, t'.getLsbD i = (t.getLsbD i || decide (some (i : ℤ) ∈ entries l))) : t' = t0 := by
  refine BitVec.eq_of_getLsbD_eq fun i _ => ?_
  have hm : some (i : ℤ) ∈ entries l ↔ i ∈ l := by simp [entries]
  rw [h i, ht.rest i]
  by_cases hi : i ∈ l
  · simp [hm, hi, ht.mem i hi]
  · simp [hm, hi]

/-- **What a chain transfer does to the tables.** -/
theorem _nu_pdma_transfer_chain_done {s s' : State} {id w n t : ℕ} {src dst : BitVec 32}
    {malloc : Option (ℕ → nu_pdma_desc_t)} {ret : ℤ} (hok : s.core.Ok) (hn : 65536 < n)
    (h : _nu_pdma_transfer_chain s id w src dst n t malloc = some (ret, s')) :
    TransferDone s.core id n malloc ret s'.core := by
  unfold _nu_pdma_transfer_chain at h
  simp only at h
  cases hp : chainPrepare s id n malloc with
  | none =>
    rw [hp] at h
    exact absurd h (by simp)
  | some r =>
    obtain ⟨ret1, s1⟩ := r
    simp only [hp] at h
    have hdone := chainPrepare_done hok hp
    have hnone : ∀ {i : ℤ}, some i ∈ ([] : List nu_pdma_desc_t) → 0 ≤ i ∧ i < 16 :=
      fun hi => absurd hi (by simp)
    -- with a chain, the descriptor loop runs and the chain stays or is given back
    have hrun : ∀ arr : List nu_pdma_desc_t, ret1 = RT_EOK →
        (s1.core.chain (arrayIdx id)).1 = some arr →
        s'.core = s1.core ∨ ret ≠ RT_EOK ∧ ∃ w' t', (s1.core.chain (arrayIdx id)).2 = w' ∧
          s1.core.Given (modIdx id) (arr.take w') t' ∧ s'.core = { s1.core with
            token := Function.update s1.core.token (modIdx id) t'
            chain := Function.update s1.core.chain (arrayIdx id) (none, 0) } := by
      intro arr hret1 harr
      have harr' : (s1.nu_pdma_chn_arr (arrayIdx id)).m_ppsSgtbl = some arr := harr
      rw [if_neg (not_not.mpr hret1)] at h
      simp only [harr'] at h
      rcases chainRun_some h with hs' | ⟨hret, s2, hs2, hf⟩
      · exact Or.inl hs'
      · rcases _nu_pdma_sgtbls_free_cases hf with ⟨hc, -⟩ | ⟨arr', w', t', hc, -, hb, hs'⟩
        · rw [hs2, harr] at hc
          exact absurd hc (by simp)
        · rw [hs2] at hc hb hs'
          rw [hc] at harr
          obtain rfl := Option.some.inj harr
          exact Or.inr ⟨hret, w', t', congrArg Prod.snd hc, hb, hs'⟩
    generalize hcore : s1.core = c1 at hdone hrun
    cases hdone with
    | kept hw =>
      cases harr : (s.core.chain (arrayIdx id)).1 with
      | none =>
        have hnull : (s1.nu_pdma_chn_arr (arrayIdx id)).m_ppsSgtbl = none := by
          rw [← harr, ← hcore]
          rfl
        simp only [ne_eq, not_true, if_false, hnull] at h
        exact absurd h (by simp)
      | some arr =>
        rcases hrun arr rfl harr with hs' | ⟨hret, w', t', hw', hb, hs'⟩
        · rw [hs']
          exact .same
        · have hc : s.core.chain (arrayIdx id) = (some arr, w') := Prod.ext harr hw'
          obtain ⟨htake, hown, -⟩ := hok.own_take hc
          rw [htake, ← hown] at hb
          rw [hs']
          exact .gone hret hb (by simp) (fun i hi => hnone hi) (Or.inl rfl)
    | @obtained tk t0 l h0 ht =>
      rcases hrun (entries l) rfl (by simp) with hs' | ⟨hret, w', t', hw', hb, hs'⟩
      · rw [hs']
        exact .replaced hn h0 ht
      · simp only [Function.update_self] at hw' hb
        subst hw'
        have hlen : (entries l).length = n / 65536 + 1 := by
          rw [entries, List.length_map]
          exact ht.len
        rw [← hlen, List.take_length] at hb
        have ht0 : t' = t0 := ht.give_back fun i => by simpa using hb i
        rw [hs', ht0]
        simp only [Function.update_idem]
        exact .gone hret h0 (by simp) (fun i hi => hnone hi) (Or.inl rfl)
    | @noArray ret1 t0 hret1 h0 =>
      rw [if_pos hret1] at h
      obtain ⟨hret, hf⟩ := chainExit_some hret1 h
      rcases _nu_pdma_sgtbls_free_cases hf with ⟨-, rfl⟩ | ⟨arr, w', t', hc, -⟩
      · rw [hcore]
        exact .gone hret h0 (by simp) (fun i hi => hnone hi) (Or.inl rfl)
      · rw [hcore] at hc
        simp at hc
    | @noTokens ret1 t0 words hw hret1 h0 hm hlt =>
      rw [if_pos hret1] at h
      obtain ⟨hret, hf⟩ := chainExit_some hret1 h
      rcases _nu_pdma_sgtbls_free_cases hf with ⟨hc, -⟩ | ⟨arr, w', t', hc, hin, hb, hs'⟩
      · rw [hcore] at hc
        simp at hc
      · rw [hcore] at hc hb hs'
        simp only [Function.update_self, Prod.mk.injEq, Option.some.injEq] at hc
        obtain ⟨rfl, rfl⟩ := hc
        rw [List.take_of_length_le (by simp; omega)] at hin hb
        rw [hs']
        simp only [Function.update_idem]
        -- the null entries at the front free nothing
        refine .gone hret h0 (fun i => ?_) (fun i hi => hin i (List.mem_append_right _ hi))
          (Or.inr ⟨hn, hw, words, hm, hlt, rfl⟩)
        rw [hb i]
        simp

/-- **What a transfer does to the tables.** -/
theorem nu_pdma_transfer_done {s s' : State} {id w n t : ℕ} {src dst : BitVec 32}
    {malloc : Option (ℕ → nu_pdma_desc_t)} {ret : ℤ} (hok : s.core.Ok)
    (h : nu_pdma_transfer s id w src dst n t malloc = some (ret, s')) :
    TransferDone s.core id n malloc ret s'.core := by
  rw [nu_pdma_transfer] at h
  split at h
  · split at h
    · obtain ⟨-, rfl⟩ := Prod.mk.injEq .. ▸ Option.some.inj h
      exact .same
    · split at h
      · obtain ⟨-, rfl⟩ := Prod.mk.injEq .. ▸ Option.some.inj h
        exact .same
      · split at h
        · rename_i hn
          exact _nu_pdma_transfer_chain_done hok hn h
        · have hcore := nu_pdma_desc_setup_core s id (some .chan) w src dst n none false
          simp only at h
          split at h
          · obtain ⟨-, rfl⟩ := Prod.mk.injEq .. ▸ Option.some.inj h
            rw [hcore]
            exact .same
          · obtain ⟨-, rfl⟩ := Prod.mk.injEq .. ▸ Option.some.inj h
            rw [_nu_pdma_transfer_core, hcore]
            exact .same
  · exact absurd h (by simp)

end Pdma
